import JsonTemplate.Document.Token
import JsonTemplate.Json.Printer

/-!
What can go wrong in a template, tied to a span of tokens. A failure is a fault with its
causes; the outermost one comes first.
-/

namespace JsonTemplate

/-- Tokens from `start` up to and not including `stop`. -/
structure Span where
  start : Nat
  stop : Nat
deriving DecidableEq, Inhabited

namespace Span

def empty (position : Nat) : Span := ⟨position, position⟩

def length (s : Span) : Nat := s.stop - s.start

def isEmpty (s : Span) : Bool := s.length == 0

end Span

/-- A template is rejected while it is read; a key is read on an undefined value while it
is rendered; every other fault is a defect of the rendering or of the rules. -/
inductive FaultKind
  | rejected
  | undefinedValue (path : List String)
  | defect
deriving DecidableEq

structure Fault where
  kind : FaultKind
  message : String
  span : Span
deriving DecidableEq

structure Failure where
  head : Fault
  causes : List Fault
deriving DecidableEq

namespace Failure

def rejected (message : String) (span : Span) : Failure := ⟨⟨.rejected, message, span⟩, []⟩

def defect (message : String) (span : Span) : Failure := ⟨⟨.defect, message, span⟩, []⟩

/-- The path holds every name that was read, the one that failed last. -/
def undefinedValue (path : List String) (span : Span) : Failure :=
  let key := path.getLastD ""
  let parent := ".".intercalate path.dropLast
  let message := "Unable to read key '" ++ key ++ "' on undefined value: " ++ parent
  ⟨⟨.undefinedValue path, message, span⟩, []⟩

/-- The failure under a new message, which keeps the span. -/
def under (message : String) (f : Failure) : Failure :=
  ⟨⟨.rejected, message, f.head.span⟩, f.head :: f.causes⟩

def chain (f : Failure) : List Fault := f.head :: f.causes

def innermost (f : Failure) : Fault := f.causes.getLastD f.head

/-- Nullish coalescing recovers from these alone. -/
def isUndefinedValue (f : Failure) : Bool :=
  match f.head.kind with
  | .undefinedValue _ => true
  | _ => false

/-- The outermost message, and the innermost one where it differs. -/
def describe (f : Failure) : String :=
  if f.innermost.message = f.head.message then f.head.message
  else f.head.message ++ ": " ++ f.innermost.message

end Failure

/-- What a caller gets to see: a failure and where in the document it stands, or
parameters of a wrong type. -/
inductive TemplateError
  | failed (path : Path) (snippet : String) (failure : Failure)
  | invalidParameters (typeName : String)
deriving DecidableEq

namespace TemplateError

def snippetWidth : Nat := 60

def shortened (text : String) : String :=
  let chars := text.toList
  if snippetWidth < chars.length then String.ofList (chars.take (snippetWidth - 1)) ++ "..."
  else text

/-- The place of a failure is where its first token comes from; past the end it is that of
the last token. -/
def locate (failure : Failure) (tokens : Stream) (document : Json) : TemplateError :=
  let position := min failure.head.span.start (tokens.size - 1)
  let path := (tokens[position]?.map Token.path).getD .root
  let found := (document.at? path).getD .null
  failed path (shortened found.compact) failure

def message : TemplateError → String
  | failed path snippet failure =>
      "Error at " ++ path.display ++ " (" ++ snippet ++ "): " ++ failure.describe
  | invalidParameters typeName => "Template parameters must be an object, got " ++ typeName

end TemplateError
end JsonTemplate
