import LSystem.Json
import LSystem.Text.Decimal

/-!
The lexemes of a JSON text, with their places. Reading stops at the first character that begins no
lexeme, and at the first text or integer that cannot be taken.
-/

namespace LSystem.Json

/-- What is wrong with a text that is not JSON. -/
inductive Problem where
  | value
  | name
  | colon
  | comma
  | unterminated
  | control
  | badEscape
  | codeEscape
  | extra
  | byteOrderMark
deriving DecidableEq, Repr

def Problem.text : Problem → String
  | value => "Expecting value"
  | name => "Expecting property name enclosed in double quotes"
  | colon => "Expecting ':' delimiter"
  | comma => "Expecting ',' delimiter"
  | unterminated => "Unterminated string starting at"
  | control => "Invalid control character at"
  | badEscape => "Invalid \\escape"
  | codeEscape => "Invalid \\uXXXX escape"
  | extra => "Extra data"
  | byteOrderMark => "Unexpected UTF-8 BOM (decode using utf-8-sig)"

inductive Kind where
  | openArray
  | closeArray
  | openObject
  | closeObject
  | colon
  | comma
  | scalar (value : Json)
  /-- A string that cannot be taken. -/
  | broken (problem : Problem) (position : Nat)
  | overlong (integer : Text.Overlong)
  /-- A character that begins no lexeme. -/
  | stray
  | endOfText

structure Lexeme where
  position : Nat
  kind : Kind

def isSpace (c : Char) : Bool := c == ' ' || c == '\t' || c == '\n' || c == '\r'

def hexValue? (c : Char) : Option Nat :=
  if '0' ≤ c && c ≤ '9' then some (c.toNat - '0'.toNat)
  else if 'a' ≤ c && c ≤ 'f' then some (c.toNat - 'a'.toNat + 10)
  else if 'A' ≤ c && c ≤ 'F' then some (c.toNat - 'A'.toNat + 10)
  else none

def codeUnit? (cs : List Char) : Option Nat :=
  (cs.mapM hexValue?).map (fun digits => digits.foldl (fun n d => 16 * n + d) 0)

/-- The character of a code unit. A surrogate that stands alone is no character, and is kept apart
from the other units as one of the last characters, which are for private use. -/
def unitChar (n : Nat) : Char :=
  if 0xD800 ≤ n ∧ n ≤ 0xDFFF then Char.ofNat (0x10F800 + (n - 0xD800)) else Char.ofNat n

def escapes : List (Char × Char) :=
  [('"', '"'), ('\\', '\\'), ('/', '/'), ('b', '\x08'), ('f', '\x0c'), ('n', '\n'), ('r', '\r'),
    ('t', '\t')]

/-- The low half of a surrogate pair, if one follows a high half. An escape at the very end of a text
is left to be read by itself. -/
def lowHalf? (position : Nat) : List Char → Except (Problem × Nat) (Option Nat)
  | '\\' :: 'u' :: a :: b :: c :: d :: _ :: _ =>
      match codeUnit? [a, b, c, d] with
      | none => .error (.codeEscape, position + 1)
      | some n => .ok (if 0xDC00 ≤ n ∧ n ≤ 0xDFFF then some n else none)
  | _ => .ok none

/-- The character of an escape and the number of its characters after the backslash, which is at
`position`. Four digits of a code need a character after them, as a string has a closing quote. -/
def readEscape (opening position : Nat) : List Char → Except (Problem × Nat) (Char × Nat)
  | [] => .error (.unterminated, opening)
  | 'u' :: a :: b :: c :: d :: next :: rest =>
      match codeUnit? [a, b, c, d] with
      | none => .error (.codeEscape, position + 1)
      | some high =>
          if 0xD800 ≤ high ∧ high ≤ 0xDBFF then
            match lowHalf? (position + 6) (next :: rest) with
            | .error e => .error e
            | .ok none => .ok (unitChar high, 5)
            | .ok (some low) =>
                .ok (Char.ofNat (0x10000 + (high - 0xD800) * 0x400 + (low - 0xDC00)), 11)
          else .ok (unitChar high, 5)
  | c :: _ =>
      if c == 'u' then .error (.codeEscape, position + 1)
      else
        match escapes.lookup c with
        | some meaning => .ok (meaning, 1)
        | none => .error (.badEscape, position)

/-- Reads a string after its opening quote, and counts its characters, the closing quote
included. -/
def readString (opening : Nat) (read : List Char) (count : Nat) (cs : List Char) :
    Except (Problem × Nat) (String × Nat) :=
  match cs with
  | [] => .error (.unterminated, opening)
  | c :: rest =>
      if c == '"' then .ok (String.ofList read.reverse, count + 1)
      else if c == '\\' then
        match readEscape opening (opening + 1 + count) rest with
        | .error e => .error e
        | .ok (meaning, n) => readString opening (meaning :: read) (count + 1 + n) (rest.drop n)
      else if c.toNat < 0x20 then .error (.control, opening + 1 + count)
      else readString opening (c :: read) (count + 1) rest
termination_by cs.length
decreasing_by all_goals simp only [List.length_cons, List.length_drop]; omega

/-- A number: its sign, digits before and after the point, and exponent. -/
structure NumberText where
  negative : Bool
  whole : List Nat
  fraction : List Nat
  exponent : Option Int

/-- The digits at the head of a text. -/
def leadingDigits (cs : List Char) : List Nat :=
  (cs.takeWhile Text.isAsciiDigit).filterMap Text.asciiDigit?

/-- An exponent at the head of a text, and its length. -/
def readExponent? (cs : List Char) : Option (Int × Nat) :=
  match cs with
  | c :: rest =>
      if c == 'e' || c == 'E' then
        let (negative, body) := Text.splitSign rest
        let signLength := if rest.head? = some '-' || rest.head? = some '+' then 1 else 0
        let digits := leadingDigits body
        if digits.isEmpty then none
        else
          let n : Int := Text.ofDigits digits
          some (if negative then -n else n, 1 + signLength + digits.length)
      else none
  | [] => none

/-- A number at the head of a text, and its length. A zero is followed by no further digit; a point
and an exponent belong to the number only if digits follow them. -/
def readNumber? (cs : List Char) : Option (NumberText × Nat) :=
  let (negative, body) : Bool × List Char :=
    match cs with
    | '-' :: rest => (true, rest)
    | _ => (false, cs)
  let digits := leadingDigits body
  let whole := if digits.head? = some 0 then [0] else digits
  if whole.isEmpty then none
  else
    let afterWhole := body.drop whole.length
    let fraction : List Nat :=
      match afterWhole with
      | '.' :: rest => leadingDigits rest
      | _ => []
    let mantissaLength := whole.length + (if fraction.isEmpty then 0 else fraction.length + 1)
    let signLength := if negative then 1 else 0
    match readExponent? (body.drop mantissaLength) with
    | none => some (⟨negative, whole, fraction, none⟩, signLength + mantissaLength)
    | some (exponent, n) =>
        some (⟨negative, whole, fraction, some exponent⟩, signLength + mantissaLength + n)

/-- A number with a fraction or an exponent is a binary one, any other an integer. -/
def NumberText.kind (t : NumberText) : Kind :=
  if t.fraction.isEmpty && t.exponent.isNone then
    match Text.signed t.negative t.whole with
    | .ok n => .scalar (.int n)
    | .error e => .overlong e
  else
    .scalar (.float (.ofDecimal t.negative (Text.ofDigits (t.whole ++ t.fraction))
      (t.exponent.getD 0 - t.fraction.length)))

/-- The values that are written as names. -/
def constants : List (List Char × Json) :=
  [("null".toList, .null), ("true".toList, .bool true), ("false".toList, .bool false),
    ("NaN".toList, .float .nan), ("Infinity".toList, .float (.infinite false)),
    ("-Infinity".toList, .float (.infinite true))]

/-- The lexeme that begins with a character, and the number of characters that belong to it after
that one. -/
def lexemeAt (position : Nat) (c : Char) (rest : List Char) : Kind × Nat :=
  if c == '[' then (.openArray, 0)
  else if c == ']' then (.closeArray, 0)
  else if c == '\x7b' then (.openObject, 0)
  else if c == '\x7d' then (.closeObject, 0)
  else if c == ':' then (.colon, 0)
  else if c == ',' then (.comma, 0)
  else if c == '"' then
    match readString position [] 0 rest with
    | .ok (s, n) => (.scalar (.string s), n)
    | .error (problem, place) => (.broken problem place, 0)
  else
    match constants.find? (fun constant => constant.1.isPrefixOf (c :: rest)) with
    | some (spelling, value) => (.scalar value, spelling.length - 1)
    | none =>
        match readNumber? (c :: rest) with
        | some (number, n) => (number.kind, n - 1)
        | none => (.stray, 0)

/-- Whether reading goes on after a lexeme. -/
def Kind.isSound : Kind → Bool
  | .broken _ _ | .overlong _ | .stray | .endOfText => false
  | _ => true

def lexemesFrom (position : Nat) (found : Array Lexeme) (cs : List Char) : Array Lexeme :=
  match cs with
  | [] => found.push ⟨position, .endOfText⟩
  | c :: rest =>
      if isSpace c then lexemesFrom (position + 1) found rest
      else
        match lexemeAt position c rest with
        | (kind, n) =>
            let found := found.push ⟨position, kind⟩
            if kind.isSound then lexemesFrom (position + 1 + n) found (rest.drop n) else found
termination_by cs.length
decreasing_by all_goals simp only [List.length_cons, List.length_drop]; omega

/-- The lexemes of a text. The last one is its end, or one after which nothing can be read. -/
def lexemes (cs : List Char) : Array Lexeme := lexemesFrom 0 #[] cs

end LSystem.Json
