import JsonTemplate.Text.Lines

/-!
Plain block documents of YAML: mappings and sequences by indentation, scalars on one line,
and flow collections inside a line.
-/

namespace JsonTemplate
namespace Yaml

structure Line where
  indent : Nat
  text : List Char

/-- A line without comment and blanks around it; none if nothing is left. -/
def Line.ofChars? (chars : List Char) : Option Line :=
  let blankBefore : Option Char → Bool := fun before => before.all isBlank
  let text := dropTrailing isBlank (Lines.dropComment blankBefore none none chars)
  let body := text.dropWhile (· == ' ')
  if body.isEmpty then none else some ⟨text.length - body.length, body⟩

def lines (text : String) : List Line :=
  ((Lines.split text).filterMap Line.ofChars?).filter fun line =>
    line.text != ['-', '-', '-'] && line.text != ['.', '.', '.']

/-- Digits behind a zero are no number. -/
def hasLeadingZero (text : List Char) : Bool :=
  match (Numeral.splitSign text).2 with
  | '0' :: c :: rest => (c :: rest).all Char.isDigit
  | _ => false

/-- Infinity and a missing number, which documents do not have. -/
def isSpecialNumber (text : List Char) : Bool :=
  match String.ofList text with
  | ".nan" | ".NaN" | ".NAN" => true
  | _ =>
      match String.ofList (Numeral.splitSign text).2 with
      | ".inf" | ".Inf" | ".INF" => true
      | _ => false

def plainNumber? (text : List Char) : Option Json :=
  if hasLeadingZero text then none
  else if isSpecialNumber text then some .null
  else
    ((Lines.integer? text).bind Json.int?).or
      (((Numeral.parse? text).bind Number.ofFloat?).map .num)

/-- The value of a scalar without quotes. -/
def plain (text : List Char) : Json :=
  match String.ofList text with
  | "" | "~" | "null" | "Null" | "NULL" => .null
  | "true" | "True" | "TRUE" => .bool true
  | "false" | "False" | "FALSE" => .bool false
  | s => (plainNumber? text).getD (.str s)

/-- A quote written twice stands for itself. -/
def undouble : List Char → List Char
  | '\'' :: '\'' :: rest => '\'' :: undouble rest
  | c :: rest => c :: undouble rest
  | [] => []

def quoted? : List Char → Option String
  | '"' :: rest =>
      if rest.getLast? = some '"' then
        some (String.ofList (Lines.unescape rest.dropLast))
      else none
  | '\'' :: rest =>
      if rest.getLast? = some '\'' then some (String.ofList (undouble rest.dropLast)) else none
  | _ => none

def keyText (text : List Char) : String := (quoted? text).getD (String.ofList text)

/-- The parts of a flow collection between its commas. -/
def flowParts : Nat → List Char → List (List Char)
  | 0, _ => []
  | fuel + 1, text =>
      let (part, rest) := Lines.takeUntil (· == ',') 0 none text
      let part := trimBlank part
      match rest with
      | [] => if part.isEmpty then [] else [part]
      | _ :: rest => part :: flowParts fuel rest

/-- A scalar or a flow collection on one line. -/
def flow : Nat → List Char → Option Json
  | 0, _ => none
  | fuel + 1, text =>
      match text with
      | '[' :: rest =>
          if rest.getLast? = some ']' then do
            return .arr (← (flowParts text.length rest.dropLast).mapM (flow fuel))
          else none
      | '{' :: rest =>
          if rest.getLast? = some '}' then do
            let entries ← (flowParts text.length rest.dropLast).mapM fun part => do
              let (key, value) := Lines.takeUntil (· == ':') 0 none part
              return (keyText (trimBlank key), ← flow fuel (trimBlank (value.drop 1)))
            return .obj (Fields.ofList entries)
          else none
      | '"' :: _ | '\'' :: _ => (quoted? text).map .str
      | _ => some (plain text)

def scalar? (text : List Char) : Option Json := flow (text.length + 1) text

/-- What follows the dash of a sequence item. -/
def item? : List Char → Option (List Char)
  | ['-'] => some []
  | '-' :: ' ' :: rest => some rest
  | _ => none

/-- The key of a mapping entry and what follows its colon. -/
def keyed? (text : List Char) : Option (List Char × List Char) :=
  match text with
  | '[' :: _ | '{' :: _ => none
  | _ => go none text []
where
  go (quote : Option Char) : List Char → List Char → Option (List Char × List Char)
    | [], _ => none
    | c :: rest, read =>
        if c == ':' && quote.isNone && rest.head?.all isBlank then
          some (trimBlank read.reverse, trimBlank rest)
        else
          let next := if quote.isNone && !read.isEmpty then none else Lines.nextQuote quote c
          go next rest (c :: read)

mutual

/-- The block that the first line begins, and the lines after it. -/
def block : Nat → List Line → Option (Json × List Line)
  | 0, _ => none
  | _, [] => some (.null, [])
  | fuel + 1, line :: rest =>
      if (item? line.text).isSome then
        (items fuel line.indent (line :: rest)).map fun (values, rest) => (.arr values, rest)
      else if (keyed? line.text).isSome then
        (entries fuel line.indent (line :: rest)).map fun (fields, rest) =>
          (.obj (Fields.ofList fields), rest)
      else (scalar? line.text).map fun value => (value, rest)

def items : Nat → Nat → List Line → Option (List Json × List Line)
  | 0, _, _ => none
  | _, _, [] => some ([], [])
  | fuel + 1, indent, line :: rest =>
      if line.indent ≠ indent then some ([], line :: rest) else
      match item? line.text with
      | none => some ([], line :: rest)
      | some body => do
          let inner := body.dropWhile (· == ' ')
          let start := indent + (line.text.length - inner.length)
          let (value, rest) ←
            if inner.isEmpty then nested fuel indent rest else block fuel (⟨start, inner⟩ :: rest)
          let (values, rest) ← items fuel indent rest
          return (value :: values, rest)

def entries : Nat → Nat → List Line → Option (List (String × Json) × List Line)
  | 0, _, _ => none
  | _, _, [] => some ([], [])
  | fuel + 1, indent, line :: rest =>
      if line.indent ≠ indent then some ([], line :: rest) else
      match keyed? line.text with
      | none => some ([], line :: rest)
      | some (key, body) => do
          let (value, rest) ←
            if body.isEmpty then
              match rest with
              | next :: _ =>
                  if next.indent = indent ∧ (item? next.text).isSome then
                    (items fuel indent rest).map fun (values, rest) => (Json.arr values, rest)
                  else nested fuel indent rest
              | [] => some (.null, [])
            else (scalar? body).map fun value => (value, rest)
          let (fields, rest) ← entries fuel indent rest
          return ((keyText key, value) :: fields, rest)

/-- The block of the lines that are indented deeper, or null if there are none. -/
def nested : Nat → Nat → List Line → Option (Json × List Line)
  | 0, _, _ => none
  | _, _, [] => some (.null, [])
  | fuel + 1, indent, line :: rest =>
      if indent < line.indent then block fuel (line :: rest) else some (.null, line :: rest)

end

/-- The document that a text spells. -/
def parse? (text : String) : Option Json :=
  match block (4 * text.length + 4) (lines text) with
  | some (value, []) => some value
  | _ => none

end Yaml
end JsonTemplate
