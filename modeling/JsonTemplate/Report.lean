import JsonTemplate.Fault

/-!
A template error laid out over several lines for a terminal, in colour or without.
-/

namespace JsonTemplate

inductive Shade
  | alarm
  | success
  | arrow
  | bar
  | place
  | dim
  | note

def Shade.code : Shade → String
  | alarm => "1;31"
  | success => "1;32"
  | arrow => "1;34"
  | bar => "34"
  | place => "36"
  | dim => "2"
  | note => "1;33"

def Shade.start (shade : Shade) : String := "\x1b[" ++ shade.code ++ "m"

/-- A reset inside a text would end its shade, so the shade starts again behind it. -/
def resumed (start : List Char) : List Char → List Char
  | '\x1b' :: '[' :: '0' :: 'm' :: rest =>
      '\x1b' :: '[' :: '0' :: 'm' :: start ++ resumed start rest
  | c :: rest => c :: resumed start rest
  | [] => []

def paint (colored : Bool) (shade : Shade) (text : String) : String :=
  if colored then
    shade.start ++ String.ofList (resumed shade.start.toList text.toList) ++ "\x1b[0m"
  else text

namespace TemplateError

def title (colored : Bool) : String := paint colored .alarm "Template error:"

def causeLines (colored : Bool) : List Fault → String
  | [] => ""
  | causes =>
      "  " ++ paint colored .note "Caused by:" ++ "\n"
        ++ String.join (causes.map fun cause => "    - " ++ cause.message ++ "\n")

def hint (colored : Bool) (failure : Failure) : String :=
  if failure.isUndefinedValue then
    "\n  " ++ paint colored .note "Hint:" ++ " Use '?.' or '??' to tolerate missing values\n"
  else ""

def report (colored : Bool) : TemplateError → String
  | failed path snippet failure =>
      let bar := paint colored .bar "|"
      title colored ++ " " ++ failure.head.message ++ "\n"
        ++ "  " ++ paint colored .arrow "-->" ++ " " ++ paint colored .place path.display ++ "\n"
        ++ "   " ++ bar ++ "\n"
        ++ "   " ++ bar ++ " " ++ paint colored .dim snippet ++ "\n"
        ++ "   " ++ bar ++ "\n"
        ++ causeLines colored failure.causes
        ++ hint colored failure
  | invalidParameters typeName =>
      title colored ++ " " ++ (invalidParameters typeName).message ++ "\n"

end TemplateError
end JsonTemplate
