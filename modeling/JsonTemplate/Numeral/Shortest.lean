import JsonTemplate.Numeral.Binary64

/-!
The shortest decimal digits that lie closer to a binary64 number than to its neighbours.
For one digit, two digits and so on the two grid points around the number are tested
against the interval of reals that round to it, all in exact integers.
-/

namespace JsonTemplate

/-- The value `digits * 10 ^ exponent`. -/
structure Decimal where
  digits : Nat
  exponent : Int
deriving DecidableEq, Repr

/-- Which of two equally near digit strings is taken. -/
inductive Tie
  | even
  | up
deriving DecidableEq, Repr

def digitCount (n : Nat) : Nat := (Nat.toDigits 10 n).length

/-- The reals that round to a number, as numerators over one denominator. -/
structure Interval where
  low : Nat
  value : Nat
  high : Nat
  denominator : Nat
  closed : Bool

namespace Interval

/-- The gap below a power of two is half the gap above it. -/
def ofDyadic (d : Dyadic) : Interval :=
  let unit := d.exponent - 2
  let scale := Nat.pow 2 unit.toNat
  let below := if d.significand = 0x10000000000000 ∧ -1074 < d.exponent then 1 else 2
  { low := (4 * d.significand - below) * scale
    value := 4 * d.significand * scale
    high := (4 * d.significand + 2) * scale
    denominator := Nat.pow 2 (-unit).toNat
    closed := d.significand % 2 = 0 }

/-- The number of digits before the point, negative for zeros behind it. -/
def magnitude (i : Interval) : Int :=
  if i.denominator ≤ i.value then
    digitCount (i.value / i.denominator)
  else
    1 - (digitCount ((i.denominator + i.value - 1) / i.value - 1) : Int)

def holds (i : Interval) (numerator scale : Nat) : Bool :=
  if i.closed then
    decide (i.low * scale ≤ numerator ∧ numerator ≤ i.high * scale)
  else
    decide (i.low * scale < numerator ∧ numerator < i.high * scale)

/-- The better of the two points around the value on the grid of `10 ^ exponent`, if one
of them rounds to the number. -/
def nearest? (tie : Tie) (i : Interval) (exponent : Int) : Option Decimal :=
  let step := Nat.pow 10 exponent.toNat * i.denominator
  let scale := Nat.pow 10 (-exponent).toNat
  let below := i.value * scale / step
  let above := below + 1
  match i.holds (below * step) scale, i.holds (above * step) scale with
  | true, true =>
      let twice := 2 * (i.value * scale)
      let middle := (below + above) * step
      let upper :=
        if twice = middle then
          match tie with
          | .even => below % 2 == 1
          | .up => true
        else decide (middle < twice)
      some ⟨if upper then above else below, exponent⟩
  | true, false => some ⟨below, exponent⟩
  | false, true => some ⟨above, exponent⟩
  | false, false => none

end Interval

namespace Decimal

/-- Drops zeros at the end of the digits; `fuel` bounds their number. -/
def trim : Nat → Decimal → Decimal
  | 0, d => d
  | fuel + 1, d =>
      if d.digits ≠ 0 ∧ d.digits % 10 = 0 then trim fuel ⟨d.digits / 10, d.exponent + 1⟩ else d

/-- The shortest digits that read back as the number; seventeen always do. The sign is
left out. -/
def shortest (tie : Tie) (d : Dyadic) : Decimal :=
  if d.significand = 0 then ⟨0, 0⟩ else
  let interval := Interval.ofDyadic d
  let magnitude := interval.magnitude
  let found := (List.range 17).findSome? fun (extra : Nat) =>
    interval.nearest? tie (magnitude - 1 - extra)
  trim 17 (found.getD ⟨0, 0⟩)

end Decimal
end JsonTemplate
