import JsonTemplate.Json.Reader
import JsonTemplate.Text.Blank

/-!
Parameters from a document and from assignments `key=value` over it.
-/

namespace JsonTemplate

inductive ParameterError
  | noValue (assignment : String)
  | emptyKey (assignment : String)
  | noObject
deriving DecidableEq

def ParameterError.message : ParameterError → String
  | noValue assignment => "Expected KEY=VALUE, got '" ++ assignment ++ "'"
  | emptyKey assignment => "Empty key in '" ++ assignment ++ "'"
  | noObject => "Parameter file must contain an object"

namespace Parameters

/-- A key without blanks around it, and a value that is a document or else plain text. -/
def assignment (argument : String) : Except ParameterError (String × Json) :=
  match argument.toList.span (· ≠ '=') with
  | (_, []) => .error (.noValue argument)
  | (key, _ :: raw) =>
      let key := trimBlank key
      if key.isEmpty then .error (.emptyKey argument)
      else
        let raw := String.ofList raw
        .ok (String.ofList key, (Json.parse? raw).getD (.str raw))

/-- No document and null are no parameters at all. -/
def base : Option Json → Except ParameterError (Fields Json)
  | none | some .null => .ok []
  | some (.obj fields) => .ok fields
  | some _ => .error .noObject

/-- Parameters, and the names that an assignment took over from an earlier value. The names
stand also where a later assignment fails. -/
structure Assigned where
  overridden : List String
  result : Except ParameterError (Fields Json)

def assignAll : Fields Json → List String → Assigned
  | fields, [] => ⟨[], .ok fields⟩
  | fields, argument :: rest =>
      match assignment argument with
      | .error e => ⟨[], .error e⟩
      | .ok (key, value) =>
          let later := assignAll (fields.insert key value) rest
          if fields.contains key then ⟨key :: later.overridden, later.result⟩ else later

def build (document : Option Json) (assignments : List String) : Assigned :=
  match base document with
  | .error e => ⟨[], .error e⟩
  | .ok fields => assignAll fields assignments

end Parameters
end JsonTemplate
