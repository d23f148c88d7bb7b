import JsonTemplate.Evaluation.Conversion
import JsonTemplate.Tree.Basic

/-!
What can go wrong at a node while it is rendered. Reading a key on an undefined value is a
failure of its own kind.
-/

namespace JsonTemplate

inductive Problem
  | spreadOfNonArray (value : Value)
  | spreadOfScalar (value : Json)
  | flattenOfNonArray (value : Value)
  | notFinite (op : Arithmetic) (left right : Value)
  | undefinedInText
  | notText (index total : Nat) (value : Value)
  | keyAfterSpread
  | arrayAfterKeys
  | objectAfterArray

namespace Problem

def message : Problem → String
  | spreadOfNonArray value => "Unable to spread non-array value " ++ value.render
  | spreadOfScalar value => "Unable to spread scalar value " ++ value.compact
  | flattenOfNonArray value => "Unable to flatten non-array value " ++ value.render
  | notFinite op left right =>
      "Math result is not a finite number: " ++ left.render ++ " " ++ op.sign ++ " " ++ right.render
  | undefinedInText => "Undefined value in template string"
  | notText index total value =>
      "Unable to stringify value (" ++ Nat.repr index ++ " of " ++ Nat.repr total ++ "): "
        ++ value.render ++ " (object)"
  | keyAfterSpread => "Unable to set object keys after a spread"
  | arrayAfterKeys => "Unable to spread array after object keys"
  | objectAfterArray => "Unable to spread object after array"

/-- The failure of a node. -/
def failure (p : Problem) (node : Node) : Failure :=
  .defect (node.label ++ ": " ++ p.message) node.span

end Problem
end JsonTemplate
