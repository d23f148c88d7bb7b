import JsonTemplate.Json.Basic
import JsonTemplate.Text.Blank

/-!
What the line-oriented formats share: lines, comments behind them, and integers with a
radix mark.
-/

namespace JsonTemplate
namespace Lines

/-- The lines of a text, without their ends. -/
def split (text : String) : List (List Char) :=
  (text.splitOn "\n").map fun line => dropTrailing (· == '\r') line.toList

/-- Whether a character stands inside quotes, and inside which. -/
def nextQuote (quote : Option Char) (c : Char) : Option Char :=
  match quote with
  | none => if c == '"' || c == '\'' then some c else none
  | some mark => if c == mark then none else some mark

/-- The line without a comment: a mark outside quotes ends it where `starts` allows one
after the character before. -/
def dropComment (starts : Option Char → Bool) :
    Option Char → Option Char → List Char → List Char
  | _, _, [] => []
  | quote, before, c :: rest =>
      if c == '#' && quote.isNone && starts before then []
      else c :: dropComment starts (nextQuote quote c) (some c) rest

def radixDigit? (radix : Nat) (c : Char) : Option Nat :=
  let n :=
    if '0' ≤ c ∧ c ≤ '9' then c.toNat - '0'.toNat
    else if 'a' ≤ c ∧ c ≤ 'f' then c.toNat - 'a'.toNat + 10
    else if 'A' ≤ c ∧ c ≤ 'F' then c.toNat - 'A'.toNat + 10
    else radix
  if n < radix then some n else none

def digits? (radix : Nat) (text : List Char) : Option Nat :=
  if text.isEmpty then none else
  text.foldl
    (fun n c => n.bind fun n => (radixDigit? radix c).map fun d => radix * n + d) (some 0)

/-- Digits after an optional sign, with a mark for another radix before them. -/
def integer? (text : List Char) : Option Int :=
  let (negative, rest) := Numeral.splitSign text
  let magnitude :=
    match rest with
    | '0' :: 'x' :: rest => digits? 16 rest
    | '0' :: 'o' :: rest => digits? 8 rest
    | '0' :: 'b' :: rest => digits? 2 rest
    | rest => digits? 10 rest
  magnitude.map fun n => if negative then -(n : Int) else n

/-- A number that is not finite is null in a document. -/
def floatJson (f : Float) : Json := ((Number.ofFloat? f).map Json.num).getD .null

/-- Text of double quotes with its escapes undone. -/
def unescape : List Char → List Char
  | '\\' :: 'u' :: a :: b :: c :: d :: rest =>
      match digits? 16 [a, b, c, d] with
      | some n => Char.ofNat n :: unescape rest
      | none => '\\' :: 'u' :: unescape (a :: b :: c :: d :: rest)
  | '\\' :: c :: rest =>
      (match c with
        | 'n' => '\n'
        | 't' => '\t'
        | 'r' => '\r'
        | 'b' => '\x08'
        | 'f' => '\x0c'
        | '0' => '\x00'
        | 'e' => '\x1b'
        | c => c) :: unescape rest
  | c :: rest => c :: unescape rest
  | [] => []

/-- Characters up to a closing mark outside quotes and brackets, and the rest from the
mark on. -/
def takeUntil (stops : Char → Bool) : Nat → Option Char → List Char → List Char × List Char
  | _, _, [] => ([], [])
  | depth, quote, c :: rest =>
      if quote.isNone && depth == 0 && stops c then ([], c :: rest)
      else
        let deeper :=
          if quote.isSome then depth
          else if c == '[' || c == '{' then depth + 1
          else if c == ']' || c == '}' then depth - 1
          else depth
        let (taken, left) := takeUntil stops deeper (nextQuote quote c) rest
        (c :: taken, left)

end Lines
end JsonTemplate
