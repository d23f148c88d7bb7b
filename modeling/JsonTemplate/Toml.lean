import JsonTemplate.Text.Lines

/-!
Plain documents of TOML: assignments on one line each, under table headings. A table has
no order of its own, so its keys are sorted.
-/

namespace JsonTemplate
namespace Toml

/-- A line without comment and blanks around it. -/
def bare (chars : List Char) : List Char :=
  trimBlank (Lines.dropComment (fun _ => true) none none chars)

def quoted? : List Char → Option String
  | '"' :: rest =>
      if rest.getLast? = some '"' then some (String.ofList (Lines.unescape rest.dropLast)) else none
  | '\'' :: rest =>
      if rest.getLast? = some '\'' then some (String.ofList rest.dropLast) else none
  | _ => none

def keyPart (text : List Char) : String :=
  let text := trimBlank text
  (quoted? text).getD (String.ofList text)

/-- The parts of a text between marks. -/
def parts (mark : Char) : Nat → List Char → List (List Char)
  | 0, _ => []
  | fuel + 1, text =>
      let (part, rest) := Lines.takeUntil (· == mark) 0 none text
      match rest with
      | [] => if (trimBlank part).isEmpty then [] else [part]
      | _ :: rest => part :: parts mark fuel rest

def keyPath (text : List Char) : List String := (parts '.' (text.length + 1) text).map keyPart

/-- Numbers may have underscores between their digits. -/
def number? (text : List Char) : Option Json :=
  let text := text.filter (· ≠ '_')
  match (Lines.integer? text).bind Json.int? with
  | some j => some j
  | none =>
      if text.any Char.isDigit then (Numeral.parse? text).map Lines.floatJson else none

/-- A table with a value at a path of keys. -/
def setAt : List String → Json → Fields Json → Fields Json
  | [], _, fields => fields
  | [key], value, fields => fields.insert key value
  | key :: rest, value, fields =>
      let inner :=
        match fields.get? key with
        | some (.obj inner) => inner
        | _ => []
      fields.insert key (.obj (setAt rest value inner))

def value? : Nat → List Char → Option Json
  | 0, _ => none
  | fuel + 1, text =>
      match text with
      | '[' :: rest =>
          if rest.getLast? = some ']' then do
            let items ← (parts ',' text.length rest.dropLast).mapM fun part =>
              value? fuel (trimBlank part)
            return .arr items
          else none
      | '{' :: rest =>
          if rest.getLast? = some '}' then do
            let entries ← (parts ',' text.length rest.dropLast).mapM fun p => do
              let (key, value) := Lines.takeUntil (· == '=') 0 none p
              return (keyPath key, ← value? fuel (trimBlank (value.drop 1)))
            return .obj (entries.foldl (fun fields entry => setAt entry.1 entry.2 fields) [])
          else none
      | '"' :: _ | '\'' :: _ => (quoted? text).map .str
      | _ =>
          match String.ofList text with
          | "true" => some (.bool true)
          | "false" => some (.bool false)
          | _ => number? text

/-- The table of a heading, or one more table of a list of them. -/
inductive Heading
  | table (path : List String)
  | listed (path : List String)

def heading? : List Char → Option Heading
  | '[' :: '[' :: rest =>
      if rest.length ≥ 2 ∧ rest.drop (rest.length - 2) = [']', ']'] then
        some (.listed (keyPath (rest.take (rest.length - 2))))
      else none
  | '[' :: rest =>
      if rest.getLast? = some ']' then some (.table (keyPath rest.dropLast)) else none
  | _ => none

/-- Changes the table at a path; of a list of tables it is the last. -/
def updateAt (change : Fields Json → Fields Json) : List String → Fields Json → Fields Json
  | [], fields => change fields
  | key :: rest, fields =>
      let changed :=
        match fields.get? key with
        | some (.obj inner) => Json.obj (updateAt change rest inner)
        | some (.arr items) =>
            match items.getLast? with
            | some (.obj inner) => .arr (items.dropLast ++ [.obj (updateAt change rest inner)])
            | _ => .arr items
        | _ => .obj (updateAt change rest [])
      fields.insert key changed

def addTable (key : String) (fields : Fields Json) : Fields Json :=
  match fields.get? key with
  | some (.arr items) => fields.insert key (.arr (items ++ [.obj []]))
  | _ => fields.insert key (.arr [.obj []])

/-- Reads lines into the table at `current`. -/
def run : List String → Fields Json → List (List Char) → Option (Fields Json)
  | _, fields, [] => some fields
  | current, fields, line :: rest =>
      let text := bare line
      if text.isEmpty then run current fields rest else
      match heading? text with
      | some (.table path) => run path (updateAt id path fields) rest
      | some (.listed path) =>
          match path.getLast? with
          | none => none
          | some key => run path (updateAt (addTable key) path.dropLast fields) rest
      | none =>
          match Lines.takeUntil (· == '=') 0 none text with
          | (_, []) => none
          | (key, _ :: body) =>
              let body := trimBlank body
              match value? (body.length + 1) body with
              | none => none
              | some value =>
                  run current (updateAt (setAt (keyPath key) value) current fields) rest

def insertSorted (entry : String × Json) : List (String × Json) → List (String × Json)
  | [] => [entry]
  | other :: rest =>
      if entry.1 < other.1 then entry :: other :: rest else other :: insertSorted entry rest

mutual

def sorted : Json → Json
  | .arr items => .arr (sortedItems items)
  | .obj fields => .obj (sortedFields fields)
  | v => v

def sortedItems : List Json → List Json
  | [] => []
  | item :: rest => sorted item :: sortedItems rest

def sortedFields : List (String × Json) → List (String × Json)
  | [] => []
  | (name, value) :: rest => insertSorted (name, sorted value) (sortedFields rest)

end

/-- The document that a text spells. -/
def parse? (text : String) : Option Json :=
  (run [] [] (Lines.split text)).map fun fields => sorted (.obj fields)

end Toml
end JsonTemplate
