import JsonTemplate.Evaluation.Node
import JsonTemplate.Expression.Rules

/-!
Templates: a document that has been read once and can be rendered any number of times.
-/

namespace JsonTemplate

structure Options where
  /-- A missing value inside a string stands for null. -/
  undefinedAsNull : Bool
deriving DecidableEq

namespace Options

def none : Options := ⟨false⟩

/-- The parameter that turns the option on for one rendering. -/
def parameterName : String := "__convertUndefinedToNull"

def fieldNames : List String := ["convert_undefined_to_null", "convertUndefinedToNull"]

def ofFlags? : List Json → Option Options
  | [] => some none
  | [.bool b] => some ⟨b⟩
  | _ => Option.none

/-- An object may set the option under one of its names, a list holds it alone. -/
def ofJson? : Json → Option Options
  | .obj fields =>
      ofFlags? ((fields.filter fun field => fieldNames.contains field.1).map Prod.snd)
  | .arr items => ofFlags? items
  | _ => Option.none

def toJson (o : Options) : Json := .obj [("convert_undefined_to_null", .bool o.undefinedAsNull)]

def effective (o : Options) (parameters : Fields Json) : Bool :=
  o.undefinedAsNull || Value.truthy (Fields.get? parameters parameterName)

end Options

structure Template where
  document : Json
  tokens : Stream
  tree : Node

namespace Template

def compile (document : Json) : Except TemplateError Template :=
  let tokens := Stream.ofJson document
  match tokens.tree with
  | .ok tree => .ok ⟨document, tokens, tree⟩
  | .error failure => .error (.locate failure tokens document)

/-- Parameters are an object; null stands for none at all. -/
def parametersOf : Json → Except TemplateError (Fields Json)
  | .obj fields => .ok fields
  | .null => .ok []
  | other => .error (.invalidParameters other.typeName)

/-- The value of a tree; undefined is null at the root. -/
def evaluateRoot (tree : Node) (undefinedAsNull : Bool) (parameters : Fields Json) :
    Except Failure Json := do
  let result ← Evaluation.evaluate undefinedAsNull tree .value (.ofParameters parameters)
  return result.value.getD .null

def render (t : Template) (parameters : Json) (options : Options) : Except TemplateError Json :=
  match parametersOf parameters with
  | .error e => .error e
  | .ok fields =>
      match evaluateRoot t.tree (options.effective fields) fields with
      | .ok result => .ok result
      | .error failure => .error (.locate failure t.tokens t.document)

end Template

/-- Compiles a document and renders it once. -/
def expand (document parameters : Json) (options : Options) : Except TemplateError Json := do
  let template ← Template.compile document
  template.render parameters options

end JsonTemplate
