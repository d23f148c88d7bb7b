import JsonTemplate.Numeral.Format
import JsonTemplate.Numeral.Reader

/-!
Numbers of a document. Integers of 64 bits, signed or not, are kept exact; every other
number is a finite binary64 number.
-/

namespace JsonTemplate

inductive Number
  | int (value : Int) (fits : -0x8000000000000000 ≤ value ∧ value < 0x10000000000000000)
  | float (value : Float) (finite : Binary64.isFinite value = true)
deriving DecidableEq

namespace Number

def ofInt? (i : Int) : Option Number :=
  if h : -0x8000000000000000 ≤ i ∧ i < 0x10000000000000000 then some (.int i h) else none

def ofFloat? (f : Float) : Option Number :=
  if h : Binary64.isFinite f = true then some (.float f h) else none

def toFloat : Number → Float
  | int i _ => Float.ofInt i
  | float f _ => f

/-- The text of a number inside a document. -/
def render : Number → String
  | int i _ => toString i
  | float f _ => NumberFormat.json.render f

/-- From here on, whole numbers inside text show their shortest digits and zeros. -/
def exactLimit : Nat := 1000000000000000000000

/-- The text of a number inside other text. A whole number below the limit shows all its
digits, and a negative zero keeps its sign. -/
def text : Number → String
  | int i _ => toString i
  | float f _ =>
      let dyadic := Dyadic.ofFloat f
      match dyadic.toInt? with
      | some i =>
          if i.natAbs < exactLimit then
            (if dyadic.negative then "-" else "") ++ Nat.repr i.natAbs
          else
            NumberFormat.interpolated.render f
      | none => NumberFormat.interpolated.render f

end Number
end JsonTemplate
