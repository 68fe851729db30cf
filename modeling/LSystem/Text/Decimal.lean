import LSystem.Text.Words

/-!
Decimal digits of every script, and integers written with them.
-/

namespace LSystem.Text

/-- The zeros of the decimal digit rows; a row holds the ten digits in order. -/
def digitZeros : List Nat :=
  [0x30, 0x660, 0x6F0, 0x7C0, 0x966, 0x9E6, 0xA66, 0xAE6, 0xB66, 0xBE6, 0xC66, 0xCE6, 0xD66,
   0xDE6, 0xE50, 0xED0, 0xF20, 0x1040, 0x1090, 0x17E0, 0x1810, 0x1946, 0x19D0, 0x1A80, 0x1A90,
   0x1B50, 0x1BB0, 0x1C40, 0x1C50, 0xA620, 0xA8D0, 0xA900, 0xA9D0, 0xA9F0, 0xAA50, 0xABF0, 0xFF10,
   0x104A0, 0x10D30, 0x11066, 0x110F0, 0x11136, 0x111D0, 0x112F0, 0x11450, 0x114D0, 0x11650,
   0x116C0, 0x11730, 0x118E0, 0x11950, 0x11C50, 0x11D50, 0x11DA0, 0x16A60, 0x16AC0, 0x16B50,
   0x1D7CE, 0x1D7D8, 0x1D7E2, 0x1D7EC, 0x1D7F6, 0x1E140, 0x1E2F0, 0x1E950, 0x1FBF0]

/-- The value of a decimal digit of any script. -/
def digitValue? (c : Char) : Option Nat :=
  (digitZeros.find? (fun first => first ≤ c.toNat && c.toNat < first + 10)).map (c.toNat - ·)

/-- The value of one of the ten digits `0` to `9`. -/
def asciiDigit? (c : Char) : Option Nat :=
  if '0' ≤ c && c ≤ '9' then some (c.toNat - '0'.toNat) else none

def isAsciiDigit (c : Char) : Bool := (asciiDigit? c).isSome

/-- The number written by decimal digits, the most significant first. -/
def ofDigits (digits : List Nat) : Nat :=
  digits.foldl (fun n d => 10 * n + d) 0

/-- The decimal digits of an integer, after a minus sign if it is negative. -/
def decimal (n : Int) : String :=
  String.ofList ((if n < 0 then ['-'] else []) ++ Nat.toDigits 10 n.natAbs)

/-- No integer is read from more digits than this, leading zeros included, or written with more. -/
def digitLimit : Nat := 4300

/-- The integer has no more digits than are read and written. -/
def Readable (n : Int) : Prop := (Nat.toDigits 10 n.natAbs).length ≤ digitLimit

instance (n : Int) : Decidable (Readable n) :=
  inferInstanceAs (Decidable ((Nat.toDigits 10 n.natAbs).length ≤ digitLimit))

/-- The message about an integer with too many digits. Their number is known of one that was read. -/
def limitMessage (known : String) : String :=
  "Exceeds the limit (" ++ decimal digitLimit ++ " digits) for integer string conversion" ++ known ++
    "; use sys.set_int_max_str_digits() to increase the limit"

/-- An integer written with more digits than are read. -/
structure Overlong where
  digits : Nat
deriving DecidableEq, Repr

def Overlong.message (o : Overlong) : String :=
  limitMessage (": value has " ++ decimal o.digits ++ " digits")

/-- An integer with the given sign, unless it has too many digits. -/
def signed (negative : Bool) (digits : List Nat) : Except Overlong Int :=
  if digitLimit < digits.length then .error ⟨digits.length⟩
  else
    let n : Int := ofDigits digits
    .ok (if negative then -n else n)

/-- Splits a sign from a text; no sign stands for plus. -/
def splitSign : List Char → Bool × List Char
  | '-' :: rest => (true, rest)
  | '+' :: rest => (false, rest)
  | rest => (false, rest)

/-- An offset is an optional sign followed by one or more of the digits `0` to `9`, and nothing
else. `none` means that the text is no offset. -/
def offset? (text : String) : Option (Except Overlong Int) :=
  let (negative, body) := splitSign text.toList
  if body.isEmpty then none
  else (body.mapM asciiDigit?).map (signed negative)

/-- What may surround an integer: the blanks but for the four record separators. -/
def surrounds (c : Char) : Bool :=
  isBlank c && !(0x1C ≤ c.toNat && c.toNat ≤ 0x1F)

def strip (cs : List Char) : List Char :=
  ((cs.dropWhile surrounds).reverse.dropWhile surrounds).reverse

/-- An integer is surrounded by blanks at most and may have a sign. Its digits are of any script;
single underscores may stand between them. -/
def integer? (text : String) : Option Int :=
  let (negative, body) := splitSign (strip text.toList)
  let groups := runs (· == '_') body
  if groups.any List.isEmpty then none
  else
    match groups.flatten.mapM digitValue? with
    | none => none
    | some digits => (signed negative digits).toOption

end LSystem.Text
