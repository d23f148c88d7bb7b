/-!
The arguments of the program. Options stand before or after the template, and a value
follows its option or is attached to it.
-/

namespace JsonTemplate

inductive OutputFormat
  | json
  | yaml
deriving DecidableEq

structure ExpandSettings where
  parameterFile : Option String
  assignments : List String
  undefinedAsNull : Bool
  format : OutputFormat
  compact : Bool

inductive Command
  | version
  | expand (template : String) (settings : ExpandSettings)
  | check (template : String)
  | tree (template : String)
  | tokens (template : String)

inductive UsageError
  | noCommand
  | unknownCommand (name : String)
  | unexpected (argument : String)
  | missingValue (option : String)
  | repeated (option : String)
  | invalidFormat (value : String)
  | noTemplate

def UsageError.message : UsageError → String
  | noCommand => "a subcommand is required but one was not provided"
  | unknownCommand name => "unrecognized subcommand '" ++ name ++ "'"
  | unexpected argument => "unexpected argument '" ++ argument ++ "' found"
  | missingValue option => "a value is required for '" ++ option ++ "' but none was supplied"
  | repeated option => "the argument '" ++ option ++ "' cannot be used multiple times"
  | invalidFormat value => "invalid value '" ++ value ++ "' for '--format <FORMAT>'"
  | noTemplate => "the following required arguments were not provided: <TEMPLATE>"

namespace Command

/-- An option as it is spelled out. -/
inductive Flag
  | parameters
  | assignment
  | undefinedAsNull
  | format
  | compact
  | verbose
deriving DecidableEq

namespace Flag

def name : Flag → String
  | parameters => "--params"
  | assignment => "--set"
  | undefinedAsNull => "--undefined-as-null"
  | format => "--format"
  | compact => "--compact"
  | verbose => "--verbose"

def letter? : Flag → Option Char
  | parameters => some 'p'
  | format => some 'f'
  | verbose => some 'v'
  | _ => none

def takesValue : Flag → Bool
  | parameters | assignment | format => true
  | _ => false

def all : List Flag := [parameters, assignment, undefinedAsNull, format, compact, verbose]

/-- The options that every command has. -/
def common : List Flag := [verbose]

end Flag

/-- What an argument list says: options with their values, and the other arguments. -/
structure Reading where
  flags : List (Flag × String)
  others : List String

def isValue (argument : String) : Bool := argument == "-" || !argument.startsWith "-"

/-- One option with its value, if it has one, and the arguments after it. -/
def withValue (flag : Flag) (attached : Option String) (rest : List String) :
    Except UsageError ((Flag × String) × List String) :=
  match flag.takesValue, attached, rest with
  | true, some value, _ => .ok ((flag, value), rest)
  | true, none, value :: rest =>
      if isValue value then .ok ((flag, value), rest) else .error (.missingValue flag.name)
  | true, none, [] => .error (.missingValue flag.name)
  | false, none, _ => .ok ((flag, ""), rest)
  | false, some _, _ => .error (.unexpected flag.name)

def long? (known : List Flag) (argument : String) : Option (Flag × Option String) :=
  let (name, value) := argument.toList.span (· ≠ '=')
  (known.find? fun flag => flag.name = String.ofList name).map fun flag =>
    match value with
    | [] => (flag, none)
    | _ :: value => (flag, some (String.ofList value))

/-- Letters behind one dash; the first that takes a value takes the rest. -/
def letters (known : List Flag) (argument : String) (rest : List String) :
    List Char → Except UsageError (List (Flag × String) × List String)
  | [] => .ok ([], rest)
  | c :: more =>
      match known.find? fun flag => flag.letter? = some c with
      | none => .error (.unexpected argument)
      | some flag =>
          if flag.takesValue then do
            let attached :=
              match more with
              | [] => none
              | '=' :: value => some (String.ofList value)
              | value => some (String.ofList value)
            let (option, rest) ← withValue flag attached rest
            return ([option], rest)
          else do
            let (options, rest) ← letters known argument rest more
            return ((flag, "") :: options, rest)

/-- Each argument is read once, so their number is fuel enough. -/
def read (known : List Flag) : Nat → List String → Except UsageError Reading
  | 0, _ => .ok ⟨[], []⟩
  | _, [] => .ok ⟨[], []⟩
  | _, "--" :: rest => .ok ⟨[], rest⟩
  | fuel + 1, argument :: rest =>
      if argument.startsWith "--" then
        match long? known argument with
        | none => .error (.unexpected argument)
        | some (flag, attached) => do
            let (option, rest) ← withValue flag attached rest
            let reading ← read known fuel rest
            return { reading with flags := option :: reading.flags }
      else if isValue argument then do
        let reading ← read known fuel rest
        return { reading with others := argument :: reading.others }
      else do
        let (options, rest) ← letters known argument rest (argument.toList.drop 1)
        let reading ← read known fuel rest
        return { reading with flags := options ++ reading.flags }

namespace Reading

def values (r : Reading) (flag : Flag) : List String :=
  (r.flags.filter fun option => option.1 = flag).map Prod.snd

/-- Only assignments may be given more than once. -/
def firstRepeated? (r : Reading) : Option Flag :=
  Flag.all.find? fun flag => flag ≠ .assignment ∧ 1 < (r.values flag).length

def template (r : Reading) : Except UsageError String :=
  match r.others with
  | [] => .error .noTemplate
  | [template] => .ok template
  | _ :: extra :: _ => .error (.unexpected extra)

def format (r : Reading) : Except UsageError OutputFormat :=
  match r.values .format with
  | [] | "json" :: _ => .ok .json
  | "yaml" :: _ => .ok .yaml
  | other :: _ => .error (.invalidFormat other)

end Reading

def readAll (known : List Flag) (arguments : List String) : Except UsageError Reading := do
  let reading ← read known arguments.length arguments
  match reading.firstRepeated? with
  | some flag => .error (.repeated flag.name)
  | none => .ok reading

def templateOf (arguments : List String) : Except UsageError String := do
  (← readAll Flag.common arguments).template

def expandOf (arguments : List String) : Except UsageError Command := do
  let reading ← readAll Flag.all arguments
  let template ← reading.template
  return .expand template {
    parameterFile := (reading.values .parameters).head?
    assignments := reading.values .assignment
    undefinedAsNull := !(reading.values .undefinedAsNull).isEmpty
    format := ← reading.format
    compact := !(reading.values .compact).isEmpty }

/-- The command that the arguments ask for. -/
def ofArguments : List String → Except UsageError Command
  | [] => .error .noCommand
  | "-V" :: _ | "--version" :: _ => .ok .version
  | "-v" :: rest | "--verbose" :: rest => ofArguments rest
  | "expand" :: rest => expandOf rest
  | "check" :: rest => do return .check (← templateOf rest)
  | "ast" :: rest => do return .tree (← templateOf rest)
  | "tokens" :: rest => do return .tokens (← templateOf rest)
  | name :: _ =>
      if isValue name then .error (.unknownCommand name) else .error (.unexpected name)

end Command
end JsonTemplate
