import JsonTemplate.Evaluation.Scope
import JsonTemplate.Text.Blank

/-!
Values as conditions, as numbers and as text.
-/

namespace JsonTemplate
namespace Value

/-- Whether a value counts as true. -/
def truthy : Value → Bool
  | none => false
  | some .null => false
  | some (.bool b) => b
  | some (.num n) => !Binary64.same n.toFloat 0
  | some (.str s) => !s.isEmpty
  | some (.arr _) | some (.obj _) => true

/-- The number that a text spells between blanks; no text at all is zero. -/
def numberOfText (s : String) : Float :=
  let trimmed := trimBlank s.toList
  if trimmed.isEmpty then 0 else (Numeral.parse? trimmed).getD Binary64.nan

/-- The number that a value counts as; not every value counts as one. -/
def toNumber : Value → Float
  | none => Binary64.nan
  | some .null => 0
  | some (.bool b) => if b then 1 else 0
  | some (.num n) => n.toFloat
  | some (.str s) => numberOfText s
  | some (.arr _) | some (.obj _) => Binary64.nan

end Value

/-- The text of a value inside other text. -/
def Json.text : Json → String
  | .str s => s
  | .num n => n.text
  | v => v.compact

namespace Number

/-- Up to here a float holds every integer. -/
def safeLimit : Nat := 0x1FFFFFFFFFFFFF

/-- A result of arithmetic: an integer where it is one in the safe range. -/
def ofResult? (f : Float) : Option Number :=
  if Binary64.isFinite f then
    match (Dyadic.ofFloat f).toInt? with
    | some i => if i.natAbs ≤ safeLimit then ofInt? i else ofFloat? f
    | none => ofFloat? f
  else none

end Number
end JsonTemplate
