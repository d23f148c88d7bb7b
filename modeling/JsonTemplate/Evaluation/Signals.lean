import JsonTemplate.Evaluation.Problem

/-!
What a node tells the containers around it besides its value: a spread, modifiers, a
condition, a loop over items, a comment.
-/

namespace JsonTemplate

/-- A loop that a key asks for. -/
structure Loop where
  items : List Value
  binding : String
  filter : Option Node

structure Signals where
  spread : Bool := false
  modifiers : List Modifier := []
  condition : Option Bool := none
  loop : Option Loop := none
  comment : Bool := false

namespace Signals

def silent : Signals := {}

/-- The signals of two parts of one string; the later condition and loop win. -/
def absorb (first second : Signals) : Signals where
  spread := first.spread || second.spread
  modifiers := first.modifiers ++ second.modifiers
  condition := second.condition.or first.condition
  loop := second.loop.or first.loop
  comment := first.comment || second.comment

end Signals

structure Evaluated where
  value : Value
  signals : Signals

namespace Evaluated

def plain (value : Value) : Evaluated := ⟨value, .silent⟩

def spreading (spread : Bool) (value : Value) : Evaluated := ⟨value, { spread := spread }⟩

end Evaluated

/-- One level of arrays less. -/
def flattenOnce (items : List Json) : List Json :=
  items.flatMap fun
    | .arr inner => inner
    | item => [item]

/-- A value after its modifiers; they work on arrays alone. -/
def applyModifiers (owner : Node) : List Modifier → Value → Except Failure Value
  | [], value => .ok value
  | .flatten :: rest, some (.arr items) =>
      applyModifiers owner rest (some (.arr (flattenOnce items)))
  | .flatten :: _, value => .error ((Problem.flattenOfNonArray value).failure owner)

/-- What the entries of an object have come to: fields, or items once an array was
spread. -/
inductive Collected
  | fields (fields : Fields Json)
  | items (items : List Json)

namespace Collected

def toJson : Collected → Json
  | fields fs => .obj fs
  | items is => .arr is

/-- Adds what a spread brings; nothing comes from a missing value. -/
def merge (owner : Node) : Collected → Value → Except Failure Collected
  | c, none => .ok c
  | c, some .null => .ok c
  | fields [], some (.arr new) => .ok (items new)
  | fields _, some (.arr _) => .error (Problem.arrayAfterKeys.failure owner)
  | items old, some (.arr new) => .ok (items (old ++ new))
  | fields old, some (.obj new) => .ok (fields (Fields.insertAll old new))
  | items _, some (.obj _) => .error (Problem.objectAfterArray.failure owner)
  | _, some value => .error ((Problem.spreadOfScalar value).failure owner)

/-- Sets a field; an undefined value removes it. -/
def assign (owner : Node) (name : String) : Collected → Value → Except Failure Collected
  | items _, _ => .error (Problem.keyAfterSpread.failure owner)
  | fields old, some value => .ok (fields (Fields.insert old name value))
  | fields old, none => .ok (fields (Fields.erase old name))

end Collected
end JsonTemplate
