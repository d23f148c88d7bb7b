import JsonTemplate.Rule.Basic

/-!
Terminals over the characters of a string. Each says how many of the characters at its
place it takes.
-/

namespace JsonTemplate

def isDigit (c : Char) : Bool := '0' ≤ c && c ≤ '9'

def isLetter (c : Char) : Bool := ('a' ≤ c && c ≤ 'z') || ('A' ≤ c && c ≤ 'Z')

def isWordChar (c : Char) : Bool := isLetter c || isDigit c || c == '_'

/-- The number of characters before the first place where `stop` begins. -/
def widthUntil (stop : List Char) : List Char → Nat
  | [] => 0
  | c :: rest => if stop.isPrefixOf (c :: rest) then 0 else widthUntil stop rest + 1

/-- All of a text. -/
def takeText (s run : List Char) : Option Nat :=
  if s.isPrefixOf run then some s.length else none

/-- A word that no longer word begins with. -/
def takeWord (s run : List Char) : Option Nat :=
  if s.isPrefixOf run && !(run.drop s.length).head?.any isWordChar then some s.length else none

/-- Characters that do not contain `stop`, as many as there are, one at least. -/
def takeUntil (stop run : List Char) : Option Nat :=
  match widthUntil stop run with
  | 0 => none
  | count => some count

/-- The characters that a recogniser takes, if it takes any. -/
def takeSome (width : List Char → Nat) (run : List Char) : Option Nat :=
  match width run with
  | 0 => none
  | count => some count

namespace Rule

variable {ν β : Type}

def char (c : Char) : Rule ν β := chars (takeText [c])

def text (s : String) : Rule ν β := chars (takeText s.toList)

def keyword (s : String) : Rule ν β := chars (takeWord s.toList)

def textUntil (stop : String) : Rule ν β := chars (takeUntil stop.toList)

def pattern (width : List Char → Nat) : Rule ν β := chars (takeSome width)

end Rule
end JsonTemplate
