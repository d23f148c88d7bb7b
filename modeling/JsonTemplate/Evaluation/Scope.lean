import JsonTemplate.Json.Printer

/-!
What names stand for while a template is rendered: parameters, and loop bindings over
them, the innermost first.
-/

namespace JsonTemplate

/-- A value that may be undefined. -/
abbrev Value := Option Json

structure Scope where
  parameters : Fields Json
  bindings : List (String × Value)

namespace Scope

def ofParameters (parameters : Fields Json) : Scope := ⟨parameters, []⟩

def bind (s : Scope) (name : String) (value : Value) : Scope :=
  { s with bindings := (name, value) :: s.bindings }

/-- A binding hides the parameter of its name even where it is undefined. -/
def lookup (s : Scope) (name : String) : Value :=
  match s.bindings.find? fun binding => binding.1 = name with
  | some binding => binding.2
  | none => Fields.get? s.parameters name

end Scope

namespace Value

/-- Text of a value in a message. -/
def render : Value → String
  | some v => v.compact
  | none => "undefined"

def isNullish : Value → Bool
  | none | some .null => true
  | _ => false

end Value
end JsonTemplate
