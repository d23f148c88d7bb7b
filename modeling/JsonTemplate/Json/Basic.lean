import JsonTemplate.Json.Fields
import JsonTemplate.Json.Number

/-!
Documents. Objects keep the order of their fields. `Json.Distinct` says that no object
names a field twice, which holds of every document that was read from text.
-/

namespace JsonTemplate

inductive Json
  | null
  | bool (b : Bool)
  | num (n : Number)
  | str (s : String)
  | arr (items : List Json)
  | obj (fields : List (String × Json))

namespace Json

instance : Inhabited Json := ⟨null⟩

/-- The name of a value's type. -/
def typeName : Json → String
  | null => "null"
  | bool _ => "boolean"
  | num _ => "number"
  | str _ => "string"
  | arr _ => "array"
  | obj _ => "object"

def int? (i : Int) : Option Json := (Number.ofInt? i).map num

mutual

def Distinct : Json → Prop
  | arr items => DistinctItems items
  | obj fields => (Fields.names fields).Nodup ∧ DistinctFields fields
  | _ => True

def DistinctItems : List Json → Prop
  | [] => True
  | item :: rest => Distinct item ∧ DistinctItems rest

def DistinctFields : List (String × Json) → Prop
  | [] => True
  | (_, value) :: rest => Distinct value ∧ DistinctFields rest

end

end Json
end JsonTemplate
