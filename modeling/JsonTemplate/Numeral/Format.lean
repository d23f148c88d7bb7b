import JsonTemplate.Numeral.Shortest

/-!
How a number is written. JSON text and interpolated text lay out the same shortest digits
by two different records of choices.
-/

namespace JsonTemplate

/-- The choices of a number format. An exponent of ten outside the positional range is
written after an `e`. -/
structure NumberFormat where
  tie : Tie
  leastPositional : Option Int
  greatestPositional : Option Int
  keepsPoint : Bool

namespace NumberFormat

/-- JSON text: positional from `1e-5` below `1e+16`, whole numbers keep `.0`. -/
def json : NumberFormat := ⟨.even, some (-5), some 15, true⟩

/-- Text of an interpolation: always positional, whole numbers without a point. -/
def interpolated : NumberFormat := ⟨.up, none, none, false⟩

def zeros (n : Nat) : String := String.ofList (List.replicate n '0')

/-- The digits with the point after the first `point` of them. -/
def positional (keepsPoint : Bool) (digits : List Char) (point : Int) : String :=
  if point ≤ 0 then
    "0." ++ zeros (-point).toNat ++ String.ofList digits
  else if (digits.length : Int) ≤ point then
    String.ofList digits ++ zeros (point - digits.length).toNat ++ (if keepsPoint then ".0" else "")
  else
    String.ofList (digits.take point.toNat) ++ "." ++ String.ofList (digits.drop point.toNat)

/-- One digit before the point, and the exponent with its sign. -/
def scientific (digits : List Char) (exponent : Int) : String :=
  let mantissa :=
    match digits with
    | [] => "0"
    | [d] => String.singleton d
    | d :: rest => String.singleton d ++ "." ++ String.ofList rest
  mantissa ++ "e" ++ (if exponent < 0 then "-" else "+") ++ Nat.repr exponent.natAbs

def isPositional (n : NumberFormat) (exponent : Int) : Bool :=
  (n.leastPositional.all (· ≤ exponent)) && (n.greatestPositional.all (exponent ≤ ·))

/-- The text of a finite number. -/
def render (n : NumberFormat) (f : Float) : String :=
  let dyadic := Dyadic.ofFloat f
  let decimal := Decimal.shortest n.tie dyadic
  let digits := Nat.toDigits 10 decimal.digits
  let point := digits.length + decimal.exponent
  let body :=
    if n.isPositional (point - 1) then positional n.keepsPoint digits point
    else scientific digits (point - 1)
  (if dyadic.negative then "-" else "") ++ body

end NumberFormat
end JsonTemplate
