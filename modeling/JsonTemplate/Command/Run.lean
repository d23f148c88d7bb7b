import JsonTemplate.Command.Arguments
import JsonTemplate.Document.Listing
import JsonTemplate.Parameters
import JsonTemplate.Report
import JsonTemplate.Template
import JsonTemplate.Toml
import JsonTemplate.Tree.Json
import JsonTemplate.Yaml.Printer

/-!
What a command prints and how it ends, given what its files and its input hold.
-/

namespace JsonTemplate

/-- The contents of a file, or why there are none. -/
abbrev Contents := Except String String

structure Surroundings where
  file : String → Contents
  input : String
  colored : Bool

structure Ending where
  status : Nat
  output : String
  errors : String

inductive DocumentFormat
  | json
  | yaml
  | toml

def DocumentFormat.name : DocumentFormat → String
  | json => "JSON"
  | yaml => "YAML"
  | toml => "TOML"

inductive CommandError
  | unreadable (path reason : String)
  | malformed (format : DocumentFormat) (path : String)
  | malformedInput
  | parameters (e : ParameterError)
  | template (e : TemplateError)

namespace Command

/-- The name of the program and its version. -/
def versionLine : String := "jtl 0.1.0\n"

def successMark : String := "✓"

def errorMark : String := "✗"

def warningMark : String := "⚠"

def markedLine (colored : Bool) (shade : Shade) (mark message : String) : String :=
  paint colored shade mark ++ " " ++ message ++ "\n"

end Command

def CommandError.text (colored : Bool) : CommandError → String
  | unreadable path reason => failure ("Failed to read file: " ++ path ++ ": " ++ reason)
  | malformed format path => failure ("Failed to parse " ++ format.name ++ ": " ++ path)
  | malformedInput => failure "Failed to parse JSON from stdin"
  | parameters e => failure e.message
  | template e => e.report colored
where
  failure (message : String) : String :=
    Command.markedLine colored .alarm Command.errorMark message

namespace Command

/-- The part of a file name after its last point; a name that only begins with a point has
none. -/
def extension? (path : String) : Option String :=
  let file := (path.toList.reverse.takeWhile (· ≠ '/'))
  let (ending, rest) := file.span (· ≠ '.')
  match rest with
  | [] | ['.'] => none
  | _ => some (String.ofList (ending.reverse.map Char.toLower))

def formatOf (path : String) : DocumentFormat :=
  match extension? path with
  | some "yaml" | some "yml" => .yaml
  | some "toml" => .toml
  | _ => .json

def parse? : DocumentFormat → String → Option Json
  | .json, text => Json.parse? text
  | .yaml, text => Yaml.parse? text
  | .toml, text => Toml.parse? text

/-- The document of a path; a dash stands for the input. -/
def load (s : Surroundings) (path : String) : Except CommandError Json :=
  if path = "-" then
    match Json.parse? s.input with
    | some document => .ok document
    | none => .error .malformedInput
  else
    match s.file path with
    | .error reason => .error (.unreadable path reason)
    | .ok text =>
        match parse? (formatOf path) text with
        | some document => .ok document
        | none => .error (.malformed (formatOf path) path)

def compiled (s : Surroundings) (path : String) : Except CommandError Template := do
  match Template.compile (← load s path) with
  | .ok template => .ok template
  | .error e => .error (.template e)

def printed (settings : ExpandSettings) (result : Json) : String :=
  match settings.format with
  | .yaml => Yaml.render result
  | .json => (if settings.compact then result.compact else result.indented 0) ++ "\n"

/-- What comes before an error is kept. -/
def failed (s : Surroundings) (warnings : String) (e : CommandError) : Ending :=
  ⟨1, "", warnings ++ e.text s.colored⟩

def warning (s : Surroundings) (key : String) : String :=
  markedLine s.colored .note warningMark ("--set overrides parameter '" ++ key ++ "'")

def baseOf (s : Surroundings) (file : Option String) : Except CommandError (Option Json) :=
  match file with
  | none => .ok none
  | some path => (load s path).map some

def runExpand (s : Surroundings) (path : String) (settings : ExpandSettings) : Ending :=
  let prepared := do
    let template ← compiled s path
    -- The input is used up by the first document that is read from it.
    let s := if path = "-" then { s with input := "" } else s
    return (template, ← baseOf s settings.parameterFile)
  match prepared with
  | .error e => failed s "" e
  | .ok (template, base) =>
      let assigned := Parameters.build base settings.assignments
      let warnings := String.join (assigned.overridden.map (warning s))
      match assigned.result with
      | .error e => failed s warnings (.parameters e)
      | .ok parameters =>
          match template.render (.obj parameters) ⟨settings.undefinedAsNull⟩ with
          | .error e => failed s warnings (.template e)
          | .ok result => ⟨0, printed settings result, warnings⟩

/-- A command that prints something about one document. -/
def describe {α : Type} (s : Surroundings) (read : Except CommandError α) (text : α → String) :
    Ending :=
  match read with
  | .ok value => ⟨0, text value, ""⟩
  | .error e => failed s "" e

def run (s : Surroundings) : Command → Ending
  | .version => ⟨0, versionLine, ""⟩
  | .expand path settings => runExpand s path settings
  | .check path =>
      describe s (compiled s path) fun template =>
        markedLine s.colored .success successMark
          (path ++ " is valid (" ++ Nat.repr template.tokens.size ++ " tokens)")
  | .tree path =>
      describe s (compiled s path) fun template => template.tree.toJson.indented 0 ++ "\n"
  | .tokens path =>
      describe s (load s path) fun document =>
        String.join ((Stream.ofJson document).lines.map (· ++ "\n"))

def runArguments (s : Surroundings) (arguments : List String) : Ending :=
  match ofArguments arguments with
  | .ok command => run s command
  | .error e => ⟨2, "", "error: " ++ e.message ++ "\n"⟩

end Command
end JsonTemplate
