import JsonTemplate.Json.Number
import JsonTemplate.Rule.Characters
import JsonTemplate.Text.Blank

/-!
Literals of the expression language: how many characters they take, and what they mean.
-/

namespace JsonTemplate
namespace Literal

def digitsWidth (run : List Char) : Nat := (run.takeWhile isDigit).length

/-- The width of a point and digits behind it, or none. -/
def fractionWidth : List Char → Nat
  | '.' :: rest =>
      match digitsWidth rest with
      | 0 => 0
      | n => n + 1
  | _ => 0

def unsignedWidth (run : List Char) : Nat :=
  match digitsWidth run with
  | 0 => 0
  | n => n + fractionWidth (run.drop n)

/-- An optional minus, digits, and a fraction if there is one. -/
def numberWidth : List Char → Nat
  | '-' :: rest =>
      match unsignedWidth rest with
      | 0 => 0
      | n => n + 1
  | run => unsignedWidth run

def readInt (text : List Char) : Int :=
  match text with
  | '-' :: rest => -(Numeral.ofDigits rest)
  | _ => Numeral.ofDigits text

/-- Whether an integer has 63 bits and a sign. -/
def isSigned (i : Int) : Bool := -0x8000000000000000 ≤ i && i < 0x8000000000000000

/-- The value of a number literal. Whole numbers of 63 bits and a sign are exact, all others
are rounded; one that is too large has no value. -/
def number? (text : List Char) : Option Number :=
  let exact :=
    let i := readInt text
    if !text.contains '.' && isSigned i then Number.ofInt? i else none
  exact.or ((Numeral.parse? text).bind Number.ofFloat?)

/-- The width up to and with the closing quote. A backslash takes the next character with
it, which is not the end of a line. -/
def quotedTailWidth? (quote : Char) : List Char → Option Nat
  | [] => none
  | '\\' :: c :: rest =>
      if c = '\n' then none else (quotedTailWidth? quote rest).map (· + 2)
  | c :: rest =>
      if c = quote then some 1
      else if c = '\\' then none
      else (quotedTailWidth? quote rest).map (· + 1)

def quotedWidth (quote : Char) : List Char → Nat
  | [] => 0
  | c :: rest => if c = quote then ((quotedTailWidth? quote rest).map (· + 1)).getD 0 else 0

/-- What a character means after a backslash; others keep their backslash. -/
def escaped : Char → List Char
  | 'n' => ['\n']
  | 't' => ['\t']
  | 'r' => ['\r']
  | '\\' => ['\\']
  | '\'' => ['\'']
  | '"' => ['"']
  | c => ['\\', c]

def unescape : List Char → List Char
  | [] => []
  | ['\\'] => ['\\']
  | '\\' :: c :: rest => escaped c ++ unescape rest
  | c :: rest => c :: unescape rest

/-- The text between the quotes of a literal. -/
def unquote (text : List Char) : List Char := unescape (text.drop 1).dropLast

/-- The width up to and with the first end of a comment on this line. -/
def commentTailWidth? : List Char → Option Nat
  | '*' :: '/' :: _ => some 2
  | c :: rest => if c = '\n' then none else (commentTailWidth? rest).map (· + 1)
  | [] => none

def commentWidth : List Char → Nat
  | '/' :: '*' :: rest => ((commentTailWidth? rest).map (· + 2)).getD 0
  | _ => 0

/-- The text without the pairs `first`, `second` that it begins with. -/
def dropPairs (first second : Char) : List Char → List Char
  | a :: b :: rest => if a = first ∧ b = second then dropPairs first second rest else a :: b :: rest
  | rest => rest

/-- What a comment says, without its marks and without blanks around it. -/
def commentBody (text : List Char) : List Char :=
  trimBlank (dropPairs '/' '*' (dropPairs '/' '*' text).reverse).reverse

end Literal
end JsonTemplate
