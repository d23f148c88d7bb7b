/-!
Binary64 numbers as exact dyadic rationals. Remainders, whole parts and the order of
numbers are computed on integers, so no rounding enters them.
-/

namespace JsonTemplate

/-- The value `significand * 2 ^ exponent`; the sign is kept apart so that a negative
zero stays one. -/
structure Dyadic where
  negative : Bool
  significand : Nat
  exponent : Int
deriving DecidableEq, Repr

namespace Dyadic

/-- Exact for every finite number. -/
def ofFloat (f : Float) : Dyadic :=
  let bits : Nat := f.toBits.toNat
  let fraction : Nat := bits % 0x10000000000000
  let field : Nat := bits / 0x10000000000000 % 0x800
  if field = 0 then
    ⟨decide (0x8000000000000000 ≤ bits), fraction, -1074⟩
  else
    ⟨decide (0x8000000000000000 ≤ bits), 0x10000000000000 + fraction, (field : Int) - 1075⟩

/-- The number itself, where its significant bits fit into 53 and its magnitude is in
range. -/
def toFloat (d : Dyadic) : Float :=
  let sign := if d.negative then 0x8000000000000000 else 0
  if d.significand = 0 then Float.ofBits (UInt64.ofNat sign) else
  let target := max (d.exponent + d.significand.log2 - 52) (-1074)
  let significand :=
    d.significand * Nat.pow 2 (d.exponent - target).toNat / Nat.pow 2 (target - d.exponent).toNat
  let field := if significand < 0x10000000000000 then 0 else (target + 1075).toNat
  Float.ofBits (UInt64.ofNat (sign + field * 0x10000000000000 + significand % 0x10000000000000))

/-- The integer that the number is, if it has no fraction. -/
def toInt? (d : Dyadic) : Option Int :=
  let scaled := d.significand * Nat.pow 2 d.exponent.toNat
  let unit := Nat.pow 2 (-d.exponent).toNat
  if scaled % unit = 0 then
    let whole := scaled / unit
    some (if d.negative then -(whole : Int) else whole)
  else
    none

/-- Remainder of the division truncated toward zero; it has the sign of the dividend. -/
def rem (a b : Dyadic) : Dyadic :=
  let exponent := min a.exponent b.exponent
  let dividend := a.significand * Nat.pow 2 (a.exponent - exponent).toNat
  let divisor := b.significand * Nat.pow 2 (b.exponent - exponent).toNat
  ⟨a.negative, dividend % divisor, exponent⟩

end Dyadic

namespace Binary64

def infinity : Float := Float.ofBits 0x7FF0000000000000

def nan : Float := Float.ofBits 0x7FF8000000000000

def magnitudeBits (f : Float) : Nat := f.toBits.toNat % 0x8000000000000000

def isFinite (f : Float) : Bool := magnitudeBits f < 0x7FF0000000000000

/-- The place of a number on the number line, in steps from one float to the next. Both
zeros stand at `0`; a number that is none has no place. -/
def place? (f : Float) : Option Int :=
  if 0x7FF0000000000000 < magnitudeBits f then none
  else
    let steps : Int := magnitudeBits f
    some (if f.toBits.toNat < 0x8000000000000000 then steps else -steps)

/-- The order of two numbers; none if either is no number. -/
def order? (a b : Float) : Option Ordering :=
  match place? a, place? b with
  | some x, some y => some (compare x y)
  | _, _ => none

def same (a b : Float) : Bool := order? a b == some .eq

/-- Remainder with the sign of the dividend. -/
def rem (a b : Float) : Float :=
  if isFinite a && isFinite b then
    if same b 0 then nan else ((Dyadic.ofFloat a).rem (Dyadic.ofFloat b)).toFloat
  else if isFinite a && (place? b).isSome then a
  else nan

end Binary64
end JsonTemplate
