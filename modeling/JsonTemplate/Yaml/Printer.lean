import JsonTemplate.Json.Printer
import JsonTemplate.Yaml.Reader

/-!
Documents as YAML blocks. A scalar is quoted only where it would be read as something
else or breaks the layout of its line.
-/

namespace JsonTemplate
namespace Yaml

/-- Like document text, but without a sign before a positive exponent. -/
def floatText (f : Float) : String :=
  String.ofList ((NumberFormat.json.render f).toList.filter (· ≠ '+'))

def numberText : Number → String
  | .int i _ => toString i
  | .float f _ => floatText f

/-- Marks that a plain scalar does not begin with. -/
def leadingMarks : List Char :=
  ['#', ',', '[', ']', '\x7b', '\x7d', '&', '*', '!', '|', '>', '\'', '"', '%', '@', '\x60']

def blankOrEnd (c : Option Char) : Bool := c.all fun c => c == ' ' || c == '\t' || c == '\n'

/-- Whether marks inside a scalar would end it or change its meaning; `first` and `blank`
tell of the place. -/
def breaksPlain : Bool → Bool → List Char → Bool
  | _, _, [] => false
  | first, blank, c :: rest =>
      (first && (leadingMarks.contains c || ((c == '?' || c == '-') && blankOrEnd rest.head?)))
        || (c == ':' && blankOrEnd rest.head?)
        || (!first && c == '#' && blank)
        || breaksPlain false (blankOrEnd (some c)) rest

def isPrintable (c : Char) : Bool :=
  let n := c.toNat
  n == 0x0A || (0x20 ≤ n && n ≤ 0x7E) || (0xA0 ≤ n && n ≤ 0xD7FF)
    || (0xE000 ≤ n && n ≤ 0xFFFD && n != 0xFEFF) || 0x10000 ≤ n

inductive Style
  | plain
  | single
  | double
  | literal

/-- Words that some readers take for a truth value. -/
def truthWords : List String :=
  ["y", "Y", "yes", "Yes", "YES", "n", "N", "no", "No", "NO", "on", "On", "ON", "off", "Off", "OFF"]

/-- Whether a line of the text ends in a space. -/
def hasTrailingSpace : List Char → Bool
  | [] => false
  | ' ' :: rest => rest.head?.all (· == '\n') || hasTrailingSpace rest
  | _ :: rest => hasTrailingSpace rest

/-- The plainest style that keeps a text what it is. -/
def style (text : List Char) : Style :=
  if text.any fun c => !isPrintable c then .double
  else if text.contains '\n' then
    if hasTrailingSpace text then .double else .literal
  else
    match plain text with
    | .str s =>
        if truthWords.contains s || hasLeadingZero text || text.head? == some ' '
            || text.getLast? == some ' ' || breaksPlain true true text
            || text.take 3 == ['-', '-', '-'] || text.take 3 == ['.', '.', '.'] then .single
        else .plain
    | _ => .single

/-- The letter that stands for a character after a backslash. -/
def escapeLetter? (c : Char) : Option Char :=
  match c.toNat with
  | 0x00 => some '0'
  | 0x07 => some 'a'
  | 0x08 => some 'b'
  | 0x09 => some 't'
  | 0x0A => some 'n'
  | 0x0B => some 'v'
  | 0x0C => some 'f'
  | 0x0D => some 'r'
  | 0x1B => some 'e'
  | 0x22 => some '"'
  | 0x5C => some '\\'
  | 0x85 => some 'N'
  | 0x2028 => some 'L'
  | 0x2029 => some 'P'
  | _ => none

/-- A code point in capital hexadecimal digits, `width` of them at least. -/
def hexDigits (width n : Nat) : List Char :=
  let digits := (Nat.toDigits 16 n).map Char.toUpper
  List.replicate (width - digits.length) '0' ++ digits

def escapeChar (c : Char) : List Char :=
  match escapeLetter? c with
  | some letter => ['\\', letter]
  | none =>
      if isPrintable c then [c]
      else if c.toNat ≤ 0xFF then '\\' :: 'x' :: hexDigits 2 c.toNat
      else '\\' :: 'u' :: hexDigits 4 c.toNat

/-- How a literal block treats the ends of its lines. -/
def chomping (text : List Char) : String :=
  match text.reverse with
  | '\n' :: '\n' :: _ | ['\n'] => "+"
  | '\n' :: _ => ""
  | _ => "-"

def literalLines (text : List Char) : List String :=
  let indentation := if text.head? == some ' ' || text.head? == some '\n' then "2" else ""
  let body := (String.ofList text).splitOn "\n"
  let body := if text.getLast? == some '\n' then body.dropLast else body
  ("|" ++ indentation ++ chomping text) :: body

/-- A text, on one line except for a literal block. -/
def textLines (s : String) : List String :=
  let text := s.toList
  match style text with
  | .plain => [s]
  | .single =>
      ["'" ++ String.ofList (text.flatMap fun c => if c == '\'' then ['\'', '\''] else [c]) ++ "'"]
  | .double => ["\"" ++ String.ofList (text.flatMap escapeChar) ++ "\""]
  | .literal => literalLines text

def deeper (line : String) : String := if line.isEmpty then line else "  " ++ line

/-- A block behind a mark: its first line beside the mark, the others below it. -/
def behindMark (mark : String) : List String → List String
  | [] => []
  | first :: rest => (mark ++ " " ++ first) :: rest.map deeper

/-- The longest key, in bytes, that stands on a line with its value. -/
def longestKey : Nat := 128

def isShortKey (key : String) : Bool := !key.contains '\n' && key.utf8ByteSize ≤ longestKey

/-- A key and its value. Behind a short key, collections begin on a line of their own, and
only mappings are indented. A key of several lines or a long one stands behind a mark, and
so does its value. -/
def entryLines (key : String) (value : Json) (lines : List String) : List String :=
  if isShortKey key then
    let name := String.join (textLines key)
    match value, lines with
    | .obj (_ :: _), _ => (name ++ ":") :: lines.map deeper
    | .arr (_ :: _), _ => (name ++ ":") :: lines
    | _, lines => behindMark (name ++ ":") lines
  else behindMark "?" (textLines key) ++ behindMark ":" lines

mutual

def blockLines : Json → List String
  | .null => ["null"]
  | .bool b => [if b then "true" else "false"]
  | .num n => [numberText n]
  | .str s => textLines s
  | .arr items => if items.isEmpty then ["[]"] else itemLines items
  | .obj fields => if fields.isEmpty then ["\x7b\x7d"] else fieldLines fields

def itemLines : List Json → List String
  | [] => []
  | item :: rest => behindMark "-" (blockLines item) ++ itemLines rest

def fieldLines : List (String × Json) → List String
  | [] => []
  | (name, value) :: rest => entryLines name value (blockLines value) ++ fieldLines rest

end

/-- The text of a document, with a line end after every line. -/
def render (value : Json) : String :=
  let lines :=
    match value, blockLines value with
    | .str _, first :: rest => first :: rest.map deeper
    | _, lines => lines
  String.join (lines.map (· ++ "\n"))

end Yaml
end JsonTemplate
