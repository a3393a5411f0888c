import GatedForms.Binary64

/-! # Shortest decimals

The shortest decimal of a binary64 number has the fewest digits that still read back as that number,
and of the decimals with that many digits it is the nearest one. Two of them may be equally near;
who asks for the decimal says which one is meant.
-/

namespace GatedForms

/-- The number `digits * 10 ^ exponent`. -/
structure Decimal where
  digits : Nat
  exponent : Int
  deriving Repr, DecidableEq

namespace Decimal

def digitChars (n : Nat) : List Char := Nat.toDigits 10 n

/-- The same number without trailing zero digits, dropping at most `fuel` of them. -/
def trim : (fuel : Nat) → Decimal → Decimal
  | 0, d => d
  | fuel + 1, d => if d.digits % 10 = 0 then trim fuel ⟨d.digits / 10, d.exponent + 1⟩ else d

/-- A fractional number written without exponent: the digits with the point in its place. -/
def positional (d : Decimal) : List Char :=
  let ds := digitChars d.digits
  let point : Int := ds.length + d.exponent
  if 0 ≤ d.exponent then ds ++ List.replicate d.exponent.toNat '0'
  else if 0 < point then ds.take point.toNat ++ '.' :: ds.drop point.toNat
  else '0' :: '.' :: List.replicate (-point).toNat '0' ++ ds

end Decimal

/-- Which of two equally near neighbours is taken. -/
inductive Tie where
  | toEven
  /-- The one farther from zero. -/
  | away
  deriving Repr, DecidableEq, BEq

namespace Binary64

/-- The reals that round to a number, in units of `2 ^ (scale - 2)`; the ends belong to it exactly
    if the significand is even. -/
structure Interval where
  low : Nat
  high : Nat
  closed : Bool

/-- Everything nearer to this number than to its neighbours. Below a power of two the neighbour is
    half as far away. -/
def interval (x : Binary64) : Interval :=
  let m := x.significand
  { low := if m = fractionSize ∧ 1 < x.exponentField then 4 * m - 1 else 4 * m - 2
    high := 4 * m + 2
    closed := m % 2 = 0 }

/-- Place of the leading digit: `10 ^ (p - 1) ≤ num / den < 10 ^ p`. -/
def leadingPlace (num den : Nat) : Int :=
  let guess : Int := (Decimal.digitChars num).length - (Decimal.digitChars den).length
  if num * tenTo (-guess) < den * tenTo guess then guess else guess + 1

/-- The nearer of the two neighbours of a number on the grid of multiples of `10 ^ place`, if one of
    them reads back. -/
def onGrid? (tie : Tie) (x : Binary64) (place : Int) : Option Decimal :=
  let unit := x.scale - 2
  let up := twoTo unit * tenTo (-place)
  let step := twoTo (-unit) * tenTo place
  let value := 4 * x.significand * up
  let bounds := x.interval
  let readsBack (c : Nat) : Bool :=
    if bounds.closed then
      decide (bounds.low * up ≤ c * step) && decide (c * step ≤ bounds.high * up)
    else
      decide (bounds.low * up < c * step) && decide (c * step < bounds.high * up)
  let below := value / step
  let above := below + 1
  match readsBack below, readsBack above with
  | false, false => none
  | true, false => some ⟨below, place⟩
  | false, true => some ⟨above, place⟩
  | true, true =>
      let down := value - below * step
      let rise := above * step - value
      if down < rise ∨ (down = rise ∧ tie = .toEven ∧ below % 2 = 0) then some ⟨below, place⟩
      else some ⟨above, place⟩

/-- The shortest decimal of the absolute value. Seventeen digits always suffice. -/
def shortest (tie : Tie) (x : Binary64) : Decimal :=
  let p := leadingPlace x.ratio.1 x.ratio.2
  let found := (List.range 17).findSome? fun (n : Nat) => x.onGrid? tie (p - 1 - n)
  (found.getD ⟨0, 0⟩).trim 17

end Binary64

end GatedForms
