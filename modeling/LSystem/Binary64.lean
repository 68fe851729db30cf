/-!
Binary floating-point numbers of 64 bits, as exact values, and their rounding from decimals.
-/

namespace LSystem

/-- A finite number is `± mantissa · 2 ^ exponent`. -/
inductive Binary64 where
  | nan
  | infinite (negative : Bool)
  | finite (negative : Bool) (mantissa : Nat) (exponent : Int)
deriving DecidableEq, Repr

namespace Binary64

/-- The exponent of the smallest positive number. -/
def minExponent : Int := -1074

/-- The exponent of the largest finite number. -/
def maxExponent : Int := 971

/-- Mantissas have at most 53 binary digits. -/
def mantissaBound : Nat := Nat.pow 2 53

def zero (negative : Bool) : Binary64 := .finite negative 0 minExponent

/-- The quotient rounded to the nearest natural number, a half to the even neighbour. -/
def roundHalfEven (num den : Nat) : Nat :=
  let q := num / den
  let r := 2 * (num % den)
  if r < den then q
  else if den < r then q + 1
  else q + q % 2

/-- A fraction times a power of two, rounded. -/
def scaled (num den : Nat) (shift : Int) : Nat :=
  if 0 ≤ shift then roundHalfEven (num <<< shift.toNat) den
  else roundHalfEven num (den <<< (-shift).toNat)

/-- The number nearest to a positive fraction. The mantissa has 53 binary digits unless the exponent
is the smallest one. -/
def ofRatio (negative : Bool) (num den : Nat) : Binary64 :=
  let guess : Int := (Nat.log2 num : Int) - Nat.log2 den - 53
  let guess := if scaled num den (-guess) < mantissaBound then guess else guess + 1
  let exponent := max guess minExponent
  let mantissa := scaled num den (-exponent)
  let (mantissa, exponent) :=
    if mantissa = mantissaBound then (mantissaBound / 2, exponent + 1) else (mantissa, exponent)
  if maxExponent < exponent then .infinite negative else .finite negative mantissa exponent

/-- The number nearest to `digits · 10 ^ exponent`. Beyond 310 places before the point all numbers
are infinite, and those with more than 330 zeros after it are zero. -/
def ofDecimal (negative : Bool) (digits : Nat) (exponent : Int) : Binary64 :=
  let places := (Nat.toDigits 10 digits).length + exponent
  if digits = 0 ∨ places < -330 then zero negative
  else if 310 < places then .infinite negative
  else if 0 ≤ exponent then ofRatio negative (digits * Nat.pow 10 exponent.toNat) 1
  else ofRatio negative digits (Nat.pow 10 (-exponent).toNat)

end Binary64

end LSystem
