import JsonTemplate.Expression.Expectation
import JsonTemplate.Expression.Literal
import JsonTemplate.Expression.Variable
import JsonTemplate.Rule.Run

/-!
The rules of templates: expressions, interpolations, strings and documents. A rule that
could begin with itself takes its first operand from a view of the operands without that
rule, so that an operand is read before the rule is entered again.
-/

namespace JsonTemplate

/-- What the builders make. -/
inductive Fragment
  | flatten
  | node (n : Node)
  | entry (e : Entry)

/-- The rules that refer to each other. The last four are views. -/
inductive Symbol
  | document
  | expression
  | comparison
  | nullish
  | group
  | operand
  | operation
  | operandGroup
  | leftOfComparison
  | leftOfNullish
  | leftOfOperation
  | insideGroup
deriving DecidableEq

namespace Symbol

def all : List Symbol :=
  [document, expression, comparison, nullish, group, operand, operation, operandGroup,
    leftOfComparison, leftOfNullish, leftOfOperation, insideGroup]

end Symbol

namespace Rules

abbrev TemplateRule := Rule Symbol Fragment

abbrev Piece := Parsed Fragment

def unexpectedShape (span : Span) : Build Fragment :=
  .error (.defect "grammar produced an unexpected shape" span)

def made (n : Node) : Build Fragment := .ok (some (.value (.node n)))

def reject (e : Expectation) (span : Span) : Build Fragment := .error (.rejected e.message span)

def must (item : TemplateRule) (e : Expectation) : TemplateRule :=
  .required item fun _ _ => e.message

def node? : Piece → Option Node
  | (_, .value (.node n)) => some n
  | _ => none

def entryOf? : Piece → Option Entry
  | (_, .value (.entry e)) => some e
  | _ => none

def modifier? : Piece → Option Modifier
  | (_, .value .flatten) => some .flatten
  | _ => none

def text? : Piece → Option String
  | (_, .text s) => some s
  | _ => none

def items? : Piece → Option (List Piece)
  | (_, .repeated items) => some items
  | _ => none

def optional? : Piece → Option (Option Piece)
  | (_, .optional item) => some item
  | _ => none

/-- A path and its place. -/
def pathOf? (piece : Piece) : Option (VariablePath × Span) :=
  match node? piece with
  | some (.path p place) => some (p, place)
  | _ => none

/-- The condition of a branch that may be missing. -/
def filterOf? (piece : Piece) : Option (Option Node) :=
  match optional? piece with
  | some none => some none
  | some (some inner) =>
      match node? inner with
      | some (.onlyIf guard _) => some (some guard)
      | _ => none
  | none => none

/-- The node, if the pieces had the shape for one. -/
def shaped (span : Span) : Option Node → Build Fragment
  | some n => made n
  | none => unexpectedShape span

/-- A node of the text that was matched. -/
def buildText (node : List Char → Span → Build Fragment) : Piece → Build Fragment
  | (span, .text s) => node s.toList span
  | (span, _) => unexpectedShape span

def space : TemplateRule :=
  .many (.oneOf [.char ' ', .char '\t', .char '\n', .char '\r'])

/-! Literals -/

def null : TemplateRule := .map (.keyword "null") fun parsed => made (.null parsed.1)

def undefined : TemplateRule := .map (.keyword "undefined") fun parsed => made (.undefined parsed.1)

def boolean : TemplateRule :=
  .map (.oneOf [.keyword "true", .keyword "false"])
    (buildText fun text span => made (.bool (text == "true".toList) span))

def number : TemplateRule :=
  .map (.pattern Literal.numberWidth) <| buildText fun text span =>
    match Literal.number? text with
    | some n => made (.number n span)
    | none => reject (.number (String.ofList text)) span

/-- A path of names. A reserved word that stands alone is none. -/
def buildVariable (text : List Char) (span : Span) : Build Fragment :=
  if Variable.reservedWords.contains (String.ofList text) then .ok none else
  match Variable.path? text with
  | some (parts, width) =>
      if Variable.maximumLength < parts.length then reject .shorterPath span
      else if width = text.length then made (.path ⟨parts⟩ span)
      else reject (.path (String.ofList text)) span
  | none => reject (.path (String.ofList text)) span

def path : TemplateRule := .map (.pattern Variable.width) (buildText buildVariable)

def quoted : TemplateRule :=
  .map (.oneOf [.pattern (Literal.quotedWidth '"'), .pattern (Literal.quotedWidth '\'')])
    (buildText fun text span => made (.quoted (String.ofList (Literal.unquote text)) span))

def comment : TemplateRule :=
  .map (.pattern Literal.commentWidth)
    (buildText fun text span => made (.comment (String.ofList (Literal.commentBody text)) span))

/-! Expressions -/

def buildComparison (span : Span) : List Piece → Build Fragment
  | [left, _, sign, _, right] => shaped span do
      let left ← node? left
      let op ← (text? sign).bind Comparison.ofSign?
      let right ← node? right
      return .comparison op left right span
  | _ => unexpectedShape span

def comparison : TemplateRule :=
  .sequence
    [.ref .leftOfComparison, space,
      must (.oneOf (Comparison.all.map fun op => .text op.sign)) .comparisonSign, space,
      must (.ref .expression) .comparisonRight]
    (some buildComparison)

def buildGuard (node : Node → Span → Node) (span : Span) : List Piece → Build Fragment
  | [_, _, guard] => shaped span ((node? guard).map fun guard => node guard span)
  | _ => unexpectedShape span

def guarded (start : TemplateRule) (node : Node → Span → Node) : TemplateRule :=
  .sequence [start, space, must (.ref .comparison) .guardComparison] (some (buildGuard node))

def onlyIf : TemplateRule := guarded (.keyword "if") .onlyIf

def elseIf : TemplateRule :=
  guarded
    (.oneOf [.keyword "ifelse", .sequence [.keyword "else", space, .keyword "if"] none])
    .elseIf

def otherwise : TemplateRule := .map (.keyword "else") fun parsed => made (.otherwise parsed.1)

def conditional : TemplateRule := .oneOf [onlyIf, elseIf, otherwise]

def buildEach (span : Span) : List Piece → Build Fragment
  | [_, _, source, _, _, _, name, _, filter] =>
      match pathOf? source, pathOf? name, filterOf? filter with
      | some (source, _), some (name, place), some filter =>
          match name.identifier? with
          | none => reject .singleName place
          | some binding => made (.each source binding filter span)
      | _, _, _ => unexpectedShape span
  | _ => unexpectedShape span

def each : TemplateRule :=
  .sequence
    [.keyword "each", space, path, space, .keyword "as", space, path, space,
      .maybe onlyIf]
    (some buildEach)

def buildTernary (span : Span) : List Piece → Build Fragment
  | [condition, _, _, _, yes, _, _, _, no] => shaped span do
      return .ternary (← node? condition) (← node? yes) (← node? no) span
  | _ => unexpectedShape span

def ternary : TemplateRule :=
  .sequence
    [must (.ref .comparison) .ternaryCondition, space, must (.text "?") .ternaryMark, space,
      must (.ref .expression) .ternaryThen, space, must (.text ":") .ternaryColon, space,
      must (.ref .expression) .ternaryElse]
    (some buildTernary)

def buildGroup (span : Span) : List Piece → Build Fragment
  | [_, _, inner, _, _] => shaped span ((node? inner).map fun inner => .group inner span)
  | _ => unexpectedShape span

def parenthesized (inner : TemplateRule) : TemplateRule :=
  .sequence [.char '(', space, inner, space, .char ')'] (some buildGroup)

def group : TemplateRule := parenthesized (.oneOf [ternary, .ref .nullish, .ref .insideGroup])

def buildNullish (span : Span) : List Piece → Build Fragment
  | [left, _, _, _, right] => shaped span do
      return .nullish (← node? left) (← node? right) span
  | _ => unexpectedShape span

def nullish : TemplateRule :=
  .sequence
    [.ref .leftOfNullish, space, .text "??", space, .oneOf [.ref .nullish, .ref .expression]]
    (some buildNullish)

def buildOperation (span : Span) : List Piece → Build Fragment
  | [left, _, sign, _, right] => shaped span do
      let left ← node? left
      let op ← (text? sign).bind Arithmetic.ofSign?
      let right ← node? right
      return .arithmetic op left right span
  | _ => unexpectedShape span

def operation : TemplateRule :=
  .sequence
    [.ref .leftOfOperation, space, .oneOf (Arithmetic.all.map fun op => .text op.sign), space,
      .ref .operand]
    (some buildOperation)

/-- An operation comes before a group, so that a group can be its first operand. -/
def operand : TemplateRule := .oneOf [.ref .operation, .ref .operandGroup, number, path]

def expression : TemplateRule :=
  .oneOf
    [.ref .comparison, .ref .operand, .ref .group, number, boolean, null, undefined, path,
      quoted]

/-! Interpolations and strings -/

def around (inner : TemplateRule) : TemplateRule := .sequence [space, inner, space] none

def flatten : TemplateRule :=
  .sequence [.keyword "flatten", space, around (.text "|")]
    (some fun _ _ => .ok (some (.value .flatten)))

def statement : TemplateRule :=
  .oneOf
    [conditional, each, ternary, .ref .nullish, comment, .ref .comparison, .ref .operand, null,
      undefined, boolean, number, path, quoted]

def buildInterpolation (span : Span) : List Piece → Build Fragment
  | [_, _, spread, _, calls, _, value, _, _, _, _] => shaped span do
      let spread ← optional? spread
      let modifiers ← (items? calls).bind (List.mapM modifier?)
      let value ← node? value
      return .interpolation spread.isSome modifiers value span
  | _ => unexpectedShape span

def interpolation : TemplateRule :=
  .sequence
    [.text "\x7b\x7b", space, .maybe (around (.text "...")), space, .many flatten, space,
      must statement .interpolated, space, .maybe comment, space, .text "\x7d\x7d"]
    (some buildInterpolation)

def plainText : TemplateRule :=
  .map (.textUntil "\x7b\x7b")
    (buildText fun text span => made (.text (String.ofList text) span))

def buildNodes (node : List Node → Span → Node) (span : Span) : List Piece → Build Fragment
  | [_, items, _] =>
      shaped span (((items? items).bind (List.mapM node?)).map fun nodes => node nodes span)
  | _ => unexpectedShape span

def template : TemplateRule :=
  .sequence
    [.tag (.opening .string), must (.many (.oneOf [interpolation, plainText])) .stringParts,
      must (.tag (.closing .string)) .stringEnd]
    (some (buildNodes .template))

/-! Documents -/

def buildArrayEntry (span : Span) : List Piece → Build Fragment
  | [_, item, _] => shaped span (node? item)
  | _ => unexpectedShape span

def arrayEntry : TemplateRule :=
  .sequence
    [.tag (.opening .arrayEntry), .ref .document, .tag (.closing .arrayEntry)]
    (some buildArrayEntry)

def array : TemplateRule :=
  .sequence
    [.tag (.opening .array), must (.many arrayEntry) .arrayEntries,
      must (.tag (.closing .array)) .arrayEnd]
    (some (buildNodes .array))

def buildObjectEntry (span : Span) : List Piece → Build Fragment
  | [_, _, key, _, _, value, _, _] =>
      match node? key, node? value with
      | some key, some value => .ok (some (.value (.entry (.mk key value span))))
      | _, _ => unexpectedShape span
  | _ => unexpectedShape span

def objectEntry : TemplateRule :=
  .sequence
    [.tag (.opening .objectEntry), must (.tag (.opening .objectKey)) .entryKey,
      must template .entryKeyString, must (.tag (.closing .objectKey)) .entryKeyEnd,
      must (.tag (.opening .value)) .entryValue, .ref .document,
      must (.tag (.closing .value)) .entryValueEnd, must (.tag (.closing .objectEntry)) .entryEnd]
    (some buildObjectEntry)

def buildObject (span : Span) : List Piece → Build Fragment
  | [_, items, _] =>
      shaped span (((items? items).bind (List.mapM entryOf?)).map fun entries =>
        .object entries span)
  | _ => unexpectedShape span

def object : TemplateRule :=
  .sequence
    [.tag (.opening .object), must (.many objectEntry) .objectEntries,
      must (.tag (.closing .object)) .objectEnd]
    (some buildObject)

/-- Scalars that stand in the document itself. -/
def scalar : TemplateRule :=
  .scalar fun kind span =>
    match kind with
    | .number n => some (.node (.number n span))
    | .bool b => some (.node (.bool b span))
    | .null => some (.node (.null span))
    | _ => none

def document : TemplateRule := must (.oneOf [template, scalar, array, object]) .document

def grammar : Grammar Symbol Fragment
  | .document => .rule document
  | .expression => .rule expression
  | .comparison => .rule comparison
  | .nullish => .rule nullish
  | .group => .rule group
  | .operand => .rule operand
  | .operation => .rule operation
  | .operandGroup => .rule (parenthesized (.ref .operand))
  | .leftOfComparison => .view .expression [.comparison]
  | .leftOfNullish => .view .expression [.nullish]
  | .leftOfOperation => .view .operand [.operation]
  | .insideGroup => .view .expression [.group]

/-- No symbol is entered twice at one place, so the calls nest no deeper than this. -/
def callLimit (tokens : Stream) : Nat := Symbol.all.length * (tokens.size + 2)

def run (tokens : Stream) (symbol : Symbol) (start : Nat) : Outcome Piece :=
  grammar.parse tokens (callLimit tokens) symbol start

end Rules

/-- The tree of a whole stream. -/
def Stream.tree (tokens : Stream) : Except Failure Node :=
  match Rules.run tokens .document 0 with
  | .matched (span, payload) =>
      if span ≠ ⟨0, tokens.size⟩ then
        .error (.defect
          ("Full token range not consumed: " ++ toString span.start ++ " - " ++ toString span.stop
            ++ " of " ++ toString tokens.size) (.empty span.stop))
      else
        match payload with
        | .value (.node n) => .ok n
        | _ => .error (.defect "grammar produced an unexpected shape" span)
  | .noMatch | .unfinished => .error (.defect "Failed to parse" (.empty 0))
  | .committed f => .error f

end JsonTemplate
