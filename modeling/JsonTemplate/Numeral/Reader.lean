import JsonTemplate.Numeral.Binary64

/-!
Decimal text read as a binary64 number, rounded to the nearest. Besides digits, a point
and an exponent, the words for infinity and for a missing number are accepted in any case.
-/

namespace JsonTemplate
namespace Numeral

def digitValue (c : Char) : Nat := c.toNat - '0'.toNat

def ofDigits (digits : List Char) : Nat := digits.foldl (fun n c => 10 * n + digitValue c) 0

/-- The leading digits and what follows them. -/
def spanDigits (text : List Char) : List Char × List Char := text.span Char.isDigit

/-- The sign, if any, and the rest; true for a minus. -/
def splitSign : List Char → Bool × List Char
  | '-' :: rest => (true, rest)
  | '+' :: rest => (false, rest)
  | rest => (false, rest)

/-- `significand * 10 ^ exponent`, rounded to the nearest. Beyond four hundred places the
result is infinite or zero whatever the digits. -/
def scaled (significand : Nat) (exponent : Int) : Float :=
  let places := (Nat.toDigits 10 significand).length + exponent
  if significand = 0 ∨ places < -400 then 0
  else if 400 < places then Binary64.infinity
  else if exponent < 0 then Float.ofScientific significand true (-exponent).toNat
  else Float.ofScientific significand false exponent.toNat

/-- An exponent part, or nothing at all. -/
def exponent? : List Char → Option Int
  | [] => some 0
  | 'e' :: rest | 'E' :: rest =>
      let (negative, rest) := splitSign rest
      let (digits, rest) := spanDigits rest
      if digits.isEmpty || !rest.isEmpty then none
      else some (if negative then -(ofDigits digits) else ofDigits digits)
  | _ => none

/-- Digits with an optional point and exponent; there is a digit on one side of the
point at least. -/
def magnitude? (text : List Char) : Option Float :=
  let (whole, rest) := spanDigits text
  let (fraction, rest) :=
    match rest with
    | '.' :: rest => spanDigits rest
    | rest => ([], rest)
  if whole.isEmpty && fraction.isEmpty then none else
  (exponent? rest).map fun e => scaled (ofDigits (whole ++ fraction)) (e - fraction.length)

def special? (text : List Char) : Option Float :=
  match String.ofList (text.map Char.toLower) with
  | "inf" | "infinity" => some Binary64.infinity
  | "nan" => some Binary64.nan
  | _ => none

/-- The number that a text spells. -/
def parse? (text : List Char) : Option Float :=
  let (negative, rest) := splitSign text
  ((special? rest).or (magnitude? rest)).map fun f => if negative then -f else f

end Numeral
end JsonTemplate
