import JsonTemplate.Json.Basic

/-!
Reading document text. The text is cut into lexemes, and a machine with a stack of open
containers runs over them once.
-/

namespace JsonTemplate
namespace Json
namespace Reader

inductive Lexeme
  | openArray
  | closeArray
  | openObject
  | closeObject
  | comma
  | colon
  | value (v : Json)
  | string (s : String)

def hexValue? (c : Char) : Option Nat :=
  if c.isDigit then some (c.toNat - '0'.toNat)
  else if 'a' ≤ c ∧ c ≤ 'f' then some (c.toNat - 'a'.toNat + 10)
  else if 'A' ≤ c ∧ c ≤ 'F' then some (c.toNat - 'A'.toNat + 10)
  else none

def hexUnit? (a b c d : Char) : Option Nat := do
  let a ← hexValue? a
  let b ← hexValue? b
  let c ← hexValue? c
  let d ← hexValue? d
  return ((a * 16 + b) * 16 + c) * 16 + d

def shortEscape? : Char → Option Char
  | '"' => some '"'
  | '\\' => some '\\'
  | '/' => some '/'
  | 'b' => some '\x08'
  | 'f' => some '\x0c'
  | 'n' => some '\n'
  | 'r' => some '\r'
  | 't' => some '\t'
  | _ => none

def isLeading (unit : Nat) : Bool := 0xD800 ≤ unit && unit < 0xDC00

def isTrailing (unit : Nat) : Bool := 0xDC00 ≤ unit && unit < 0xE000

/-- The character of an escaped unit that is no surrogate. -/
def plainUnit? (unit : Nat) : Option Char :=
  if isLeading unit || isTrailing unit then none else some (Char.ofNat unit)

def pairedUnits? (leading trailing : Nat) : Option Char :=
  if isLeading leading && isTrailing trailing then
    some (Char.ofNat (0x10000 + (leading - 0xD800) * 0x400 + (trailing - 0xDC00)))
  else none

/-- The characters up to the closing quote, and what follows it. -/
def stringBody (read : List Char) : List Char → Option (List Char × List Char)
  | [] => none
  | '"' :: rest => some (read.reverse, rest)
  | '\\' :: 'u' :: a :: b :: c :: d :: '\\' :: 'u' :: e :: f :: g :: h :: rest =>
      match hexUnit? a b c d with
      | none => none
      | some unit =>
          match plainUnit? unit with
          | some plain => stringBody (plain :: read) ('\\' :: 'u' :: e :: f :: g :: h :: rest)
          | none =>
              match (hexUnit? e f g h).bind (pairedUnits? unit) with
              | none => none
              | some pair => stringBody (pair :: read) rest
  | '\\' :: 'u' :: a :: b :: c :: d :: rest =>
      match (hexUnit? a b c d).bind plainUnit? with
      | none => none
      | some plain => stringBody (plain :: read) rest
  | '\\' :: c :: rest =>
      match shortEscape? c with
      | none => none
      | some plain => stringBody (plain :: read) rest
  | c :: rest => if c.toNat < 0x20 ∨ c = '\\' then none else stringBody (c :: read) rest

/-- The first nineteen or twenty digits that fit into 64 bits, and how many digits were
left out. -/
def significand (digits : List Char) : Nat × Nat :=
  go 0 digits
where
  go (n : Nat) : List Char → Nat × Nat
    | [] => (n, 0)
    | c :: rest =>
        let next := 10 * n + Numeral.digitValue c
        if 0x10000000000000000 ≤ next then (n, (c :: rest).length) else go next rest

def powerOfTen (n : Nat) : Float := Float.ofScientific 1 false n

/-- A significand of 64 bits times a power of ten. The significand is rounded first and
then multiplied or divided once, or twice below the smallest power, and is rounded each
time. An infinite product is no number. -/
def scaled? (significand : Nat) (exponent : Int) : Option Float :=
  let f := Float.ofNat significand
  if significand = 0 then some 0
  else if 308 < exponent then none
  else if 0 ≤ exponent then
    let product := f * powerOfTen exponent.toNat
    if Binary64.isFinite product then some product else none
  else if -308 ≤ exponent then some (f / powerOfTen (-exponent).toNat)
  else if -616 ≤ exponent then some (f / powerOfTen 308 / powerOfTen (-exponent - 308).toNat)
  else some 0

/-- The value of a number that is split into its parts. Digits behind those that fit into
64 bits count only as places before the point. -/
def numberValue? (negative : Bool) (whole fraction : List Char) (exponent : Option Int) :
    Option Number :=
  let integer : Int := if negative then -(Numeral.ofDigits whole) else Numeral.ofDigits whole
  let exact :=
    if fraction.isEmpty && exponent.isNone && !(negative && integer == 0) then
      Number.ofInt? integer
    else none
  exact.or <|
    let (head, dropped) := significand whole
    let (full, unread) :=
      if dropped = 0 then significand (whole ++ fraction) else significand.go head fraction
    let places : Int := dropped - (fraction.length - unread : Nat) + exponent.getD 0
    ((scaled? full places).map fun f => if negative then -f else f).bind Number.ofFloat?

/-- An exponent part if there is one; none if it is begun and has no digits. -/
def exponentPart : List Char → Option (Option Int × List Char)
  | 'e' :: rest | 'E' :: rest =>
      let (negative, rest) := Numeral.splitSign rest
      let (digits, rest) := Numeral.spanDigits rest
      if digits.isEmpty then none
      else
        let n : Int := Numeral.ofDigits digits
        some (some (if negative then -n else n), rest)
  | rest => some (none, rest)

def fractionPart : List Char → Option (List Char × List Char)
  | '.' :: rest =>
      let (digits, rest) := Numeral.spanDigits rest
      if digits.isEmpty then none else some (digits, rest)
  | rest => some ([], rest)

def number? (text : List Char) : Option (Number × List Char) := do
  let (negative, rest) :=
    match text with
    | '-' :: rest => (true, rest)
    | rest => (false, rest)
  let (whole, rest) := Numeral.spanDigits rest
  if whole.isEmpty || (whole.length != 1 && whole.head? == some '0') then none
  let (fraction, rest) ← fractionPart rest
  let (exponent, rest) ← exponentPart rest
  let n ← numberValue? negative whole fraction exponent
  return (n, rest)

def lexeme? : List Char → Option (Lexeme × List Char)
  | '[' :: rest => some (.openArray, rest)
  | ']' :: rest => some (.closeArray, rest)
  | '{' :: rest => some (.openObject, rest)
  | '}' :: rest => some (.closeObject, rest)
  | ',' :: rest => some (.comma, rest)
  | ':' :: rest => some (.colon, rest)
  | '"' :: rest => (stringBody [] rest).map fun (s, rest) => (.string (String.ofList s), rest)
  | 't' :: 'r' :: 'u' :: 'e' :: rest => some (.value (.bool true), rest)
  | 'f' :: 'a' :: 'l' :: 's' :: 'e' :: rest => some (.value (.bool false), rest)
  | 'n' :: 'u' :: 'l' :: 'l' :: rest => some (.value .null, rest)
  | text => (number? text).map fun (n, rest) => (.value (.num n), rest)

def isSpace (c : Char) : Bool := c == ' ' || c == '\n' || c == '\t' || c == '\r'

/-- Each lexeme takes a character at least, so the length of the text is fuel enough. -/
def lexemes : Nat → List Char → Option (List Lexeme)
  | 0, text => if text.isEmpty then some [] else none
  | fuel + 1, text =>
      match text with
      | [] => some []
      | c :: rest =>
          if isSpace c then lexemes fuel rest
          else
            match lexeme? (c :: rest) with
            | none => none
            | some (lexeme, rest) => (lexemes fuel rest).map (lexeme :: ·)

/-- A container that is still open. Items stand in reverse. -/
inductive Frame
  | array (items : List Json)
  | object (fields : Fields Json) (name : String)

/-- What may come next. -/
inductive Stage
  | value
  | firstItem
  | firstName
  | name
  | colon (name : String)
  | after (v : Json)

structure State where
  stack : List Frame
  stage : Stage

/-- No document nests deeper. -/
def depthLimit : Nat := 127

def opened (stack : List Frame) (stage : Stage) (frame : Frame) : Option State :=
  if depthLimit ≤ stack.length then none else some ⟨frame :: stack, stage⟩

def step (s : State) (lexeme : Lexeme) : Option State :=
  match s.stage, lexeme with
  | .value, .value v | .firstItem, .value v => some { s with stage := .after v }
  | .value, .string t | .firstItem, .string t => some { s with stage := .after (.str t) }
  | .value, .openArray | .firstItem, .openArray => opened s.stack .firstItem (.array [])
  | .value, .openObject | .firstItem, .openObject => opened s.stack .firstName (.object [] "")
  | .firstItem, .closeArray =>
      match s.stack with
      | .array _ :: stack => some ⟨stack, .after (.arr [])⟩
      | _ => none
  | .firstName, .closeObject =>
      match s.stack with
      | .object _ _ :: stack => some ⟨stack, .after (.obj [])⟩
      | _ => none
  | .firstName, .string t | .name, .string t => some { s with stage := .colon t }
  | .colon t, .colon =>
      match s.stack with
      | .object fields _ :: stack => some ⟨.object fields t :: stack, .value⟩
      | _ => none
  | .after v, .comma =>
      match s.stack with
      | .array items :: stack => some ⟨.array (v :: items) :: stack, .value⟩
      | .object fields t :: stack => some ⟨.object (fields.insert t v) "" :: stack, .name⟩
      | [] => none
  | .after v, .closeArray =>
      match s.stack with
      | .array items :: stack => some ⟨stack, .after (.arr (v :: items).reverse)⟩
      | _ => none
  | .after v, .closeObject =>
      match s.stack with
      | .object fields t :: stack => some ⟨stack, .after (.obj (fields.insert t v))⟩
      | _ => none
  | _, _ => none

def run : State → List Lexeme → Option Json
  | s, [] =>
      match s.stage, s.stack with
      | .after v, [] => some v
      | _, _ => none
  | s, lexeme :: rest =>
      match step s lexeme with
      | none => none
      | some s => run s rest

end Reader

/-- The document that a text spells. -/
def parse? (text : String) : Option Json :=
  let chars := text.toList
  match Reader.lexemes (chars.length + 1) chars with
  | none => none
  | some lexemes => Reader.run ⟨[], .value⟩ lexemes

end Json
end JsonTemplate
