/-! # Binary floating-point numbers

Form values may hold numbers with a fraction. They are never computed with, only read, compared and
printed, so a number is kept as its IEEE 754 bit pattern and all rounding is done on naturals.
-/

namespace GatedForms

/-- A finite binary64 number, given by its bit pattern. -/
structure Binary64 where
  bits : UInt64
  deriving Repr, DecidableEq

namespace Binary64

/-- `2 ^ e`, or one if `e` is negative. -/
def twoTo (e : Int) : Nat := Nat.pow 2 e.toNat

/-- `10 ^ e`, or one if `e` is negative. -/
def tenTo (e : Int) : Nat := Nat.pow 10 e.toNat

/-- The sign bit alone, `2 ^ 63`. -/
def signBit : Nat := 0x8000000000000000

/-- Number of values of the fraction field, `2 ^ 52`. -/
def fractionSize : Nat := 0x10000000000000

def zero : Binary64 := ⟨0⟩

def isNegative (x : Binary64) : Bool := decide (signBit ≤ x.bits.toNat)

/-- Exponent field, with its bias. -/
def exponentField (x : Binary64) : Nat := x.bits.toNat / fractionSize % 2048

/-- The absolute value is `significand * 2 ^ scale`. -/
def significand (x : Binary64) : Nat :=
  let fraction := x.bits.toNat % fractionSize
  if x.exponentField = 0 then fraction else fraction + fractionSize

/-- The absolute value is `significand * 2 ^ scale`. -/
def scale (x : Binary64) : Int := max x.exponentField 1 - 1075

def isZero (x : Binary64) : Bool := x.significand = 0

def negate (x : Binary64) : Binary64 := ⟨x.bits ^^^ 0x8000000000000000⟩

/-- Numeric equality: the two zeros are equal, all else is decided by the bits. -/
def same (x y : Binary64) : Bool := x.bits == y.bits || (x.isZero && y.isZero)

/-- Absolute value as numerator and denominator. -/
def ratio (x : Binary64) : Nat × Nat :=
  (x.significand * twoTo x.scale, twoTo (-x.scale))

/-- Quotient rounded to the nearest natural, a half to the even neighbour. -/
def divHalfEven (num den : Nat) : Nat :=
  let quotient := num / den
  let twice := 2 * (num % den)
  if den < twice ∨ (twice = den ∧ quotient % 2 = 1) then quotient + 1 else quotient

/-- Whether `num / den < 2 ^ exponent`. -/
def ratioBelowPow (num den : Nat) (exponent : Int) : Bool :=
  decide (num * twoTo (-exponent) < den * twoTo exponent)

/-- The binary64 number nearest to `num / den`, a half to the even neighbour; none if it is too
    large. The exponent and significand fields carry into each other, so rounding up to the next
    power of two needs no case of its own. -/
def ofRatio? (num den : Nat) : Option Binary64 :=
  if num = 0 then some zero else
  let guess : Int := num.log2 - den.log2
  let lead : Int := if ratioBelowPow num den guess then guess - 1 else guess
  let exponent : Int := max (lead - 52) (-1074)
  let rounded := divHalfEven (num * twoTo (-exponent)) (den * twoTo exponent)
  let bits := (exponent + 1074).toNat * fractionSize + rounded
  if bits < 2047 * fractionSize then some ⟨bits.toUInt64⟩ else none

/-- Absolute value times `10 ^ power`, where the power of ten is itself rounded first. -/
def timesTen? (x : Binary64) (power : Nat) : Option Binary64 := do
  let factor ← ofRatio? (tenTo power) 1
  ofRatio? (x.ratio.1 * factor.ratio.1) (x.ratio.2 * factor.ratio.2)

/-- Absolute value divided by `10 ^ power`, where the power of ten is itself rounded first. -/
def overTen? (x : Binary64) (power : Nat) : Option Binary64 := do
  let divisor ← ofRatio? (tenTo power) 1
  ofRatio? (x.ratio.1 * divisor.ratio.2) (x.ratio.2 * divisor.ratio.1)

/-- The largest power of ten that is a binary64 number. -/
def maxTen : Nat := 308

/-- Divide by `10 ^ power` in steps of at most `10 ^ maxTen`, each step rounded. -/
def shrink? (x : Binary64) (power : Nat) : Option Binary64 :=
  if _small : power ≤ maxTen then x.overTen? power
  else if x.isZero then some x
  else (x.overTen? maxTen).bind fun smaller => shrink? smaller (power - maxTen)
termination_by power
decreasing_by
  have : 0 < maxTen := by decide
  omega

/-- Read the decimal `digits * 10 ^ exponent`: the digits are rounded to a binary64 number, which is
    then scaled by rounded powers of ten. None if the result is too large. -/
def ofDecimal? (digits : Nat) (exponent : Int) : Option Binary64 := do
  let start ← ofRatio? digits 1
  if exponent < 0 then start.shrink? (-exponent).toNat
  else if exponent.toNat ≤ maxTen then start.timesTen? exponent.toNat
  else if start.isZero then some start
  else none

/-- The binary64 number nearest to the decimal `digits * 10 ^ exponent`; none if it is too large.
    Exponents far outside the range are decided by the count of digits alone. -/
def nearestDecimal? (digits : Nat) (exponent : Int) : Option Binary64 :=
  let width : Int := (Nat.toDigits 10 digits).length
  if digits = 0 then some zero
  else if width + exponent < -330 then some zero
  else if 330 < width + exponent then none
  else ofRatio? (digits * tenTo exponent) (tenTo (-exponent))

/-- Rounded to a natural, a half upwards; a negative number counts as zero. -/
def roundToNat (x : Binary64) : Nat :=
  if x.isNegative then 0 else (2 * x.ratio.1 + x.ratio.2) / (2 * x.ratio.2)

end Binary64

end GatedForms
