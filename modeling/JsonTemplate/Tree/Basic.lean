import JsonTemplate.Fault
import JsonTemplate.Tree.Operator

/-!
The tree of a template. It has the shape of the document, with a template node for each
string, and every node keeps the span of tokens that it was read from.
-/

namespace JsonTemplate

/-- One step of a variable path. An optional step tolerates a missing value around it. -/
structure PathPart where
  name : String
  optional : Bool
deriving DecidableEq

structure VariablePath where
  parts : List PathPart
deriving DecidableEq

namespace VariablePath

def display (p : VariablePath) : String := ".".intercalate (p.parts.map PathPart.name)

/-- The name of a path that is a single plain name. -/
def identifier? (p : VariablePath) : Option String :=
  match p.parts with
  | [⟨name, false⟩] => some name
  | _ => none

end VariablePath

inductive Modifier
  | flatten
deriving DecidableEq

mutual

inductive Node
  | number (n : Number) (span : Span)
  | bool (b : Bool) (span : Span)
  | null (span : Span)
  | undefined (span : Span)
  /-- A string in quotes inside an expression. -/
  | quoted (s : String) (span : Span)
  /-- Text between interpolations. -/
  | text (s : String) (span : Span)
  | path (p : VariablePath) (span : Span)
  | comparison (op : Comparison) (left right : Node) (span : Span)
  | arithmetic (op : Arithmetic) (left right : Node) (span : Span)
  | ternary (condition yes no : Node) (span : Span)
  | nullish (left right : Node) (span : Span)
  | group (inner : Node) (span : Span)
  | comment (s : String) (span : Span)
  | onlyIf (guard : Node) (span : Span)
  | elseIf (guard : Node) (span : Span)
  | otherwise (span : Span)
  | each (source : VariablePath) (binding : String) (filter : Option Node) (span : Span)
  | array (items : List Node) (span : Span)
  | object (entries : List Entry) (span : Span)
  | template (parts : List Node) (span : Span)
  | interpolation (spread : Bool) (modifiers : List Modifier) (value : Node) (span : Span)

/-- A key and its value. -/
inductive Entry
  | mk (key value : Node) (span : Span)

end

namespace Node

def span : Node → Span
  | number _ s | bool _ s | null s | undefined s | quoted _ s | text _ s | path _ s
  | comparison _ _ _ s | arithmetic _ _ _ s | ternary _ _ _ s | nullish _ _ s | group _ s
  | comment _ s | onlyIf _ s | elseIf _ s | otherwise s | each _ _ _ s | array _ s
  | object _ s | template _ s | interpolation _ _ _ s => s

/-- The name of a node's kind, as messages give it. -/
def label : Node → String
  | number _ _ => "NumberLiteral"
  | bool _ _ => "BooleanLiteral"
  | null _ => "NullLiteral"
  | undefined _ => "UndefinedLiteral"
  | quoted _ _ => "StringLiteral"
  | text _ _ => "Text"
  | path _ _ => "VariablePath"
  | comparison _ _ _ _ => "BinaryExpression"
  | arithmetic _ _ _ _ => "MathOperation"
  | ternary _ _ _ _ => "TernaryExpression"
  | nullish _ _ _ => "NullishCoalescingExpression"
  | group _ _ => "Group"
  | comment _ _ => "Comment"
  | onlyIf _ _ | elseIf _ _ | otherwise _ => "ConditionalStatement"
  | each _ _ _ _ => "EachStatement"
  | array _ _ => "Array"
  | object _ _ => "Object"
  | template _ _ => "TemplateString"
  | interpolation _ _ _ _ => "InterpolatedValue"

/-- The node inside all parentheses around it. -/
def ungrouped : Node → Node
  | group inner _ => inner.ungrouped
  | node => node

def isConditional : Node → Bool
  | onlyIf _ _ | elseIf _ _ | otherwise _ => true
  | _ => false

/-- The condition of a branch; the last branch has none. -/
def guard? : Node → Option Node
  | onlyIf guard _ | elseIf guard _ => some guard
  | _ => none

def isInterpolation : Node → Bool
  | interpolation _ _ _ _ => true
  | _ => false

end Node

namespace Entry

def key : Entry → Node
  | mk key _ _ => key

def value : Entry → Node
  | mk _ value _ => value

def span : Entry → Span
  | mk _ _ span => span

end Entry
end JsonTemplate
