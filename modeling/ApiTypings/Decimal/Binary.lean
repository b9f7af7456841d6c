/-!
# Binary fractions

The fractions `mantissa * 2 ^ exponent` of 53 bits, and the operations on them. An operation gives
the fraction nearest to its exact result, a tie going to the even one. All arithmetic is on
natural numbers. A decimal is read in three roundings: its digits, the power of ten, and the
product or quotient of the two.
-/

namespace ApiTypings.Decimal

/-- The binary fraction `mantissa * 2 ^ exponent`. -/
structure Binary where
  mantissa : Nat
  exponent : Int
  deriving DecidableEq, Repr, Inhabited

/-- The decimal `digits * 10 ^ exponent`. -/
structure Scientific where
  digits : Nat
  exponent : Int
  deriving DecidableEq, Repr, Inhabited

/-- The quotient rounded to the nearest integer, a tie going to the even one. -/
def roundDiv (num den : Nat) : Nat :=
  let q := num / den
  let twice := 2 * (num % den)
  if twice > den ∨ (twice = den ∧ q % 2 = 1) then q + 1 else q

/-- `num * base ^ exponent / den` as a quotient. -/
def scale (base : Nat) (num den : Nat) (exponent : Int) : Nat × Nat :=
  if exponent ≥ 0 then (num * Nat.pow base exponent.toNat, den)
  else (num, den * Nat.pow base (-exponent).toNat)

namespace Binary

/-- The smallest exponent. -/
def minExponent : Int := -1074

/-- The mantissas of 53 bits start here: two to the power 52. -/
def leastMantissa : Nat := Nat.pow 2 52

/-- A fraction whose mantissa has 53 bits, where rounding may have made it one bit longer. -/
def normalize (b : Binary) : Binary :=
  if b.mantissa = 2 * leastMantissa then ⟨leastMantissa, b.exponent + 1⟩ else b

/-- The fraction nearest to a quotient; its exponent has no upper bound. -/
def nearest (num den : Nat) : Binary :=
  if num = 0 then ⟨0, minExponent⟩
  else
    let guess : Int := num.log2 - den.log2 - 52
    let (n, d) := scale 2 num den (-guess)
    let exponent := max minExponent (if n / d < leastMantissa then guess - 1 else guess)
    let (n, d) := scale 2 num den (-exponent)
    normalize ⟨roundDiv n d, exponent⟩

/-- Whether a fraction is too large for the range of exponents. -/
def overflows (b : Binary) : Bool :=
  let (n, d) := scale 2 b.mantissa 1 b.exponent
  n ≥ d * Nat.pow 2 1024

/-- The product of two fractions. -/
def mul (a b : Binary) : Binary :=
  let (n, d) := scale 2 (a.mantissa * b.mantissa) 1 (a.exponent + b.exponent)
  nearest n d

/-- The quotient of two fractions. -/
def div (a b : Binary) : Binary :=
  let (n, d) := scale 2 a.mantissa b.mantissa (a.exponent - b.exponent)
  nearest n d

/-- The greatest power of ten that is in range has this exponent. -/
def maxPower : Nat := 308

/-- The fraction nearest to a power of ten. -/
def powerOfTen (k : Nat) : Binary := nearest (Nat.pow 10 k) 1

/-- Divides by ten to the power `k`, and by the greatest power in range first while `k` is beyond
that. -/
def divPowerOfTen (b : Binary) (k : Nat) : Binary :=
  if k ≤ maxPower then b.div (powerOfTen k)
  else if b.mantissa = 0 then b
  else (b.div (powerOfTen maxPower)).divPowerOfTen (k - maxPower)
termination_by k
decreasing_by
  have : 0 < maxPower := by decide
  omega

end Binary

/-- The binary fraction that a decimal is read as, unless it is out of range. -/
def Scientific.binary? (s : Scientific) : Option Binary :=
  let digits := Binary.nearest s.digits 1
  if s.digits = 0 then some digits
  else if s.exponent < 0 then some (digits.divPowerOfTen (-s.exponent).toNat)
  else if s.exponent > Binary.maxPower then none
  else
    let b := digits.mul (Binary.powerOfTen s.exponent.toNat)
    if b.overflows then none else some b

end ApiTypings.Decimal
