import JsonTemplate.Tree.Basic
import JsonTemplate.Json.Basic

/-!
Trees as documents: every node is an object of its kind and its range. Reading accepts
what writing produces.
-/

namespace JsonTemplate

def natJson (n : Nat) : Json := (Json.int? n).getD .null

def Span.toJson (s : Span) : Json :=
  .obj [("start", natJson s.start), ("end", natJson s.stop)]

def Comparison.name : Comparison → String
  | strictEqual => "StrictEq"
  | strictDistinct => "StrictNe"
  | equal => "Eq"
  | distinct => "Ne"
  | atLeast => "Ge"
  | atMost => "Le"
  | greater => "Gt"
  | less => "Lt"

def Arithmetic.name : Arithmetic → String
  | add => "Add"
  | sub => "Sub"
  | mul => "Mul"
  | div => "Div"
  | rem => "Rem"
  | pow => "Pow"

def Modifier.name : Modifier → String
  | flatten => "Flatten"

def VariablePath.toJson (p : VariablePath) : Json :=
  .obj [("parts", .arr (p.parts.map fun part =>
    .obj [("name", .str part.name), ("optional", .bool part.optional)]))]

namespace Node

def wrap (kind : Json) (span : Span) : Json := .obj [("kind", kind), ("range", span.toJson)]

def tagged (name : String) (content : Json) (span : Span) : Json :=
  wrap (.obj [(name, content)]) span

mutual

def toJson : Node → Json
  | .number n span => tagged "Number" (.num n) span
  | .bool b span => tagged "Bool" (.bool b) span
  | .null span => wrap (.str "Null") span
  | .undefined span => wrap (.str "Undefined") span
  | .quoted s span => tagged "Str" (.str s) span
  | .text s span => tagged "Text" (.str s) span
  | .path p span => tagged "Path" p.toJson span
  | .comparison op left right span =>
      tagged "Comparison"
        (.obj [("op", .str op.name), ("left", toJson left), ("right", toJson right)]) span
  | .arithmetic op left right span =>
      tagged "Math"
        (.obj [("op", .str op.name), ("left", toJson left), ("right", toJson right)]) span
  | .ternary condition yes no span =>
      tagged "Ternary"
        (.obj [("condition", toJson condition), ("then", toJson yes), ("otherwise", toJson no)])
        span
  | .nullish left right span =>
      tagged "Nullish" (.obj [("left", toJson left), ("right", toJson right)]) span
  | .group inner span => tagged "Group" (toJson inner) span
  | .comment s span => tagged "Comment" (.str s) span
  | .onlyIf guard span => tagged "Conditional" (.obj [("If", toJson guard)]) span
  | .elseIf guard span => tagged "Conditional" (.obj [("ElseIf", toJson guard)]) span
  | .otherwise span => tagged "Conditional" (.str "Else") span
  | .each source binding filter span =>
      tagged "Each"
        (.obj [("source", source.toJson), ("binding", .str binding), ("filter", filterJson filter)])
        span
  | .array items span => tagged "Array" (.arr (nodesJson items)) span
  | .object entries span => tagged "Object" (.arr (entriesJson entries)) span
  | .template parts span => tagged "Template" (.arr (nodesJson parts)) span
  | .interpolation spread modifiers value span =>
      tagged "Interpolation"
        (.obj [("spread", .bool spread), ("modifiers", .arr (modifiers.map fun m => .str m.name)),
          ("value", toJson value)]) span

def filterJson : Option Node → Json
  | none => .null
  | some node => toJson node

def nodesJson : List Node → List Json
  | [] => []
  | node :: rest => toJson node :: nodesJson rest

def entriesJson : List Entry → List Json
  | [] => []
  | .mk key value span :: rest =>
      .obj [("key", toJson key), ("value", toJson value), ("range", span.toJson)]
        :: entriesJson rest

end

end Node

namespace Json

def field? (name : String) : Json → Option Json
  | obj fields => Fields.get? fields name
  | _ => none

def nat? : Json → Option Nat
  | num (.int i _) => if 0 ≤ i then some i.toNat else none
  | _ => none

def string? : Json → Option String
  | str s => some s
  | _ => none

def bool? : Json → Option Bool
  | bool b => some b
  | _ => none

def items? : Json → Option (List Json)
  | arr items => some items
  | _ => none

def span? (j : Json) : Option Span := do
  let start ← (← j.field? "start").nat?
  let stop ← (← j.field? "end").nat?
  return ⟨start, stop⟩

def pathPart? (j : Json) : Option PathPart := do
  return ⟨← (← j.field? "name").string?, ← (← j.field? "optional").bool?⟩

def variablePath? (j : Json) : Option VariablePath := do
  return ⟨← (← (← j.field? "parts").items?).mapM pathPart?⟩

def modifier? : Json → Option Modifier
  | str "Flatten" => some .flatten
  | _ => none

def comparison? (j : Json) : Option Comparison := do
  let name ← j.string?
  Comparison.all.find? fun op => op.name = name

def arithmetic? (j : Json) : Option Arithmetic := do
  let name ← j.string?
  Arithmetic.all.find? fun op => op.name = name

mutual

/-- The number of containers around the innermost value. -/
def depth : Json → Nat
  | arr items => depthItems items + 1
  | obj fields => depthFields fields + 1
  | _ => 0

def depthItems : List Json → Nat
  | [] => 0
  | item :: rest => max (depth item) (depthItems rest)

def depthFields : List (String × Json) → Nat
  | [] => 0
  | (_, value) :: rest => max (depth value) (depthFields rest)

end

/-- The node whose kind has this name and content; `node?` reads the nodes inside. -/
def nodeOf? (node? : Json → Option Node) (name : String) (content : Json) (span : Span) :
    Option Node :=
  let inner? (field : String) : Option Node := do node? (← content.field? field)
  match name with
  | "Number" =>
      match content with
      | num n => some (.number n span)
      | _ => none
  | "Bool" => do return .bool (← content.bool?) span
  | "Str" => do return .quoted (← content.string?) span
  | "Text" => do return .text (← content.string?) span
  | "Comment" => do return .comment (← content.string?) span
  | "Path" => do return .path (← content.variablePath?) span
  | "Comparison" => do
      let op ← (← content.field? "op").comparison?
      return .comparison op (← inner? "left") (← inner? "right") span
  | "Math" => do
      let op ← (← content.field? "op").arithmetic?
      return .arithmetic op (← inner? "left") (← inner? "right") span
  | "Ternary" => do
      return .ternary (← inner? "condition") (← inner? "then") (← inner? "otherwise") span
  | "Nullish" => do return .nullish (← inner? "left") (← inner? "right") span
  | "Group" => do return .group (← node? content) span
  | "Conditional" =>
      match content with
      | str "Else" => some (.otherwise span)
      | obj [("If", guard)] => (node? guard).map fun guard => .onlyIf guard span
      | obj [("ElseIf", guard)] => (node? guard).map fun guard => .elseIf guard span
      | _ => none
  | "Each" => do
      let source ← (← content.field? "source").variablePath?
      let binding ← (← content.field? "binding").string?
      match ← content.field? "filter" with
      | null => return .each source binding none span
      | filter => return .each source binding (some (← node? filter)) span
  | "Array" => do return .array (← (← content.items?).mapM node?) span
  | "Template" => do return .template (← (← content.items?).mapM node?) span
  | "Object" => do
      let entries ← (← content.items?).mapM fun entry => do
        let key ← node? (← entry.field? "key")
        let value ← node? (← entry.field? "value")
        return Entry.mk key value (← (← entry.field? "range").span?)
      return .object entries span
  | "Interpolation" => do
      let spread ← (← content.field? "spread").bool?
      let modifiers ← (← (← content.field? "modifiers").items?).mapM modifier?
      return .interpolation spread modifiers (← inner? "value") span
  | _ => none

/-- Each level of the tree takes a level of the document, so its depth is fuel enough. -/
def nodeWithin? : Nat → Json → Option Node
  | 0, _ => none
  | fuel + 1, j => do
      let span ← (← j.field? "range").span?
      match ← j.field? "kind" with
      | str "Null" => return .null span
      | str "Undefined" => return .undefined span
      | obj [(name, content)] => nodeOf? (nodeWithin? fuel) name content span
      | _ => none

/-- The tree that a document stands for. -/
def node? (j : Json) : Option Node := nodeWithin? (j.depth + 1) j

end Json
end JsonTemplate
