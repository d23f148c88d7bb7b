/-!
Operators of the expression language and the signs they are written with.
-/

namespace JsonTemplate

inductive Comparison
  | strictEqual
  | strictDistinct
  | equal
  | distinct
  | atLeast
  | atMost
  | greater
  | less
deriving DecidableEq

namespace Comparison

def sign : Comparison → String
  | strictEqual => "==="
  | strictDistinct => "!=="
  | equal => "=="
  | distinct => "!="
  | atLeast => ">="
  | atMost => "<="
  | greater => ">"
  | less => "<"

/-- In the order in which they are tried; a sign comes after those that it begins. -/
def all : List Comparison :=
  [strictEqual, strictDistinct, equal, distinct, atLeast, atMost, greater, less]

def ofSign? (s : String) : Option Comparison := all.find? fun op => op.sign = s

end Comparison

inductive Arithmetic
  | add
  | sub
  | mul
  | div
  | rem
  | pow
deriving DecidableEq

namespace Arithmetic

def sign : Arithmetic → String
  | add => "+"
  | sub => "-"
  | mul => "*"
  | div => "/"
  | rem => "%"
  | pow => "^"

def all : List Arithmetic := [add, sub, mul, div, rem, pow]

def ofSign? (s : String) : Option Arithmetic := all.find? fun op => op.sign = s

end Arithmetic
end JsonTemplate
