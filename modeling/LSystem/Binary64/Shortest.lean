import LSystem.Binary64

/-!
The shortest decimal that reads back as a given number. Grids of 1, 2, … 17 digits are tried; the
first grid with a point that rounds to the number gives the digits, and of two such points the
nearer one, an exact tie going to the even digit.
-/

namespace LSystem

namespace Binary64

/-- `num / den` in units of `10 ^ unit`. -/
structure Scale where
  num : Nat
  den : Nat

def Scale.ofExponents (binary : Int) (unit : Int) : Scale where
  num := (if 0 ≤ binary then Nat.pow 2 binary.toNat else 1) *
    (if 0 ≤ unit then 1 else Nat.pow 10 (-unit).toNat)
  den := (if 0 ≤ binary then 1 else Nat.pow 2 (-binary).toNat) *
    (if 0 ≤ unit then Nat.pow 10 unit.toNat else 1)

/-- Four times a positive mantissa, with the ends of the interval that rounds to it. -/
structure Neighbourhood where
  low : Nat
  value : Nat
  high : Nat
  closed : Bool

/-- Below a power of two the numbers lie twice as dense as above it. -/
def neighbourhood (mantissa : Nat) (exponent : Int) : Neighbourhood where
  low := 4 * mantissa - (if mantissa = mantissaBound / 2 ∧ minExponent < exponent then 1 else 2)
  value := 4 * mantissa
  high := 4 * mantissa + 2
  closed := mantissa % 2 = 0

def Neighbourhood.contains (n : Neighbourhood) (s : Scale) (point : Nat) : Bool :=
  let x := point * s.den
  if n.closed then n.low * s.num ≤ x && x ≤ n.high * s.num
  else n.low * s.num < x && x < n.high * s.num

/-- The point of a grid that rounds to the number, if there is one. -/
def Neighbourhood.gridPoint? (n : Neighbourhood) (s : Scale) : Option Nat :=
  let x := n.value * s.num
  let below := x / s.den
  let above := below + 1
  match n.contains s below, n.contains s above with
  | false, false => none
  | true, false => some below
  | false, true => some above
  | true, true =>
      let r := 2 * (x % s.den)
      if r < s.den then some below
      else if s.den < r then some above
      else if below % 2 = 0 then some below else some above

/-- The places before the point of `mantissa · 2 ^ exponent`, negative for zeros after it. -/
def places (mantissa : Nat) (exponent : Int) : Int :=
  if 0 ≤ exponent then (Nat.toDigits 10 (mantissa * Nat.pow 2 exponent.toNat)).length
  else
    let shift := (-exponent).toNat
    let whole := mantissa / Nat.pow 2 shift
    if whole ≠ 0 then (Nat.toDigits 10 whole).length
    else (Nat.toDigits 10 (mantissa * Nat.pow 10 shift / Nat.pow 2 shift)).length - (shift : Int)

/-- Digits and the power of ten of the last one, from the first of the grids that hits. -/
def shortestFrom (n : Neighbourhood) (exponent : Int) (places : Int) :
    (grids : Nat) → (digits : Nat) → Nat × Int
  | 0, _ => (0, 0)
  | grids + 1, digits =>
      let unit := places - digits
      match n.gridPoint? (.ofExponents (exponent - 2) unit) with
      | some point => (point, unit)
      | none => shortestFrom n exponent places grids (digits + 1)

def shortest (mantissa : Nat) (exponent : Int) : Nat × Int :=
  shortestFrom (neighbourhood mantissa exponent) exponent (places mantissa exponent) 17 1

/-- Digits without the zeros at their end, and how many places before the point they begin. -/
def significant (point : Nat) (unit : Int) : List Char × Int :=
  let all := Nat.toDigits 10 point
  ((all.reverse.dropWhile (· == '0')).reverse, all.length + unit)

/-- The exponent of a number in scientific form has a sign and two digits at least. -/
def exponentText (e : Int) : List Char :=
  let digits := Nat.toDigits 10 e.natAbs
  'e' :: (if e < 0 then '-' else '+') :: (List.replicate (2 - digits.length) '0' ++ digits)

/-- Numbers from `10 ^ -4` up to `10 ^ 16` are written out, with a digit after the point at least;
others in scientific form. -/
def layout (digits : List Char) (places : Int) : List Char :=
  if -4 < places ∧ places ≤ 0 then
    '0' :: '.' :: (List.replicate (-places).toNat '0' ++ digits)
  else if 0 < places ∧ places ≤ 16 then
    let whole := digits.take places.toNat
    let fraction := digits.drop places.toNat
    whole ++ List.replicate (places.toNat - whole.length) '0' ++ '.' ::
      (if fraction.isEmpty then ['0'] else fraction)
  else
    let fraction := digits.drop 1
    digits.take 1 ++ (if fraction.isEmpty then [] else '.' :: fraction) ++ exponentText (places - 1)

def text : Binary64 → String
  | nan => "nan"
  | infinite negative => if negative then "-inf" else "inf"
  | finite negative mantissa exponent =>
      let body :=
        if mantissa = 0 then ['0', '.', '0']
        else
          let (point, unit) := shortest mantissa exponent
          let (digits, places) := significant point unit
          layout digits places
      String.ofList (if negative then '-' :: body else body)

end Binary64

end LSystem
