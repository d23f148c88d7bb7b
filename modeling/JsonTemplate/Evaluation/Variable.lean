import JsonTemplate.Evaluation.Problem

/-!
Values at variable paths.
-/

namespace JsonTemplate

/-- A position in an array as a key: digits, with a plus before them if any. -/
def position? (key : String) : Option Nat :=
  let digits :=
    match key.toList with
    | '+' :: rest => rest
    | all => all
  if digits.isEmpty || !digits.all Char.isDigit then none else some (Numeral.ofDigits digits)

/-- What a value holds under a key. -/
def Json.read? (v : Json) (key : String) : Value :=
  match v with
  | .obj fields => Fields.get? fields key
  | .arr items => (position? key).bind fun i => items[i]?
  | _ => none

namespace VariablePath

/-- Follows the rest of a path from a value. `consumed` are the names that were read, and
`tolerant` says that the step before was optional. -/
def follow (span : Span) : List String → Bool → List PathPart → Value → Except Failure Value
  | _, _, [], current => .ok current
  | consumed, tolerant, part :: rest, current =>
      let consumed := consumed ++ [part.name]
      if current.isNullish then
        if part.optional || tolerant then follow span consumed part.optional rest none
        else .error (.undefinedValue consumed span)
      else follow span consumed part.optional rest (current.bind (·.read? part.name))

/-- The value at a path; a path without parts has none. -/
def resolve (p : VariablePath) (span : Span) (scope : Scope) : Except Failure Value :=
  match p.parts with
  | [] => .ok none
  | root :: rest => follow span [root.name] root.optional rest (scope.lookup root.name)

end VariablePath
end JsonTemplate
