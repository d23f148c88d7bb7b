import JsonTemplate.Fault

/-!
Rules that read a stream of tokens, as data. A rule names other rules by symbols; what a
symbol stands for is given apart, so that rules may refer to each other in circles.
-/

namespace JsonTemplate

/-- What a match is worth. Rules make the first four themselves, a value comes from a
builder. -/
inductive Payload (β : Type)
  | unit
  | text (s : String)
  | repeated (items : List (Span × Payload β))
  | optional (item : Option (Span × Payload β))
  | value (v : β)

/-- A match: the tokens it takes and what it is worth. -/
abbrev Parsed (β : Type) := Span × Payload β

/-- A builder may decline a match or turn it into a failure. -/
abbrev Build (β : Type) := Except Failure (Option (Payload β))

/-- How a run ends. No match lets another alternative try; a committed failure is
remembered; `unfinished` says that the calls ran out and is no answer at all. -/
inductive Outcome (α : Type)
  | unfinished
  | noMatch
  | matched (a : α)
  | committed (f : Failure)

namespace Outcome

variable {α γ : Type}

def bind : Outcome α → (α → Outcome γ) → Outcome γ
  | unfinished, _ => unfinished
  | noMatch, _ => noMatch
  | matched a, next => next a
  | committed f, _ => committed f

def map (f : α → γ) (o : Outcome α) : Outcome γ := o.bind fun a => matched (f a)

def isFinished : Outcome α → Bool
  | unfinished => false
  | _ => true

end Outcome

inductive Rule (ν β : Type)
  /-- One token of this tag. -/
  | tag (t : Tag)
  /-- One token of a kind that has a value. -/
  | scalar (value? : Kind → Span → Option β)
  /-- As many characters as the function takes of those that the string still spells. -/
  | chars (take? : List Char → Option Nat)
  /-- All parts one after another. -/
  | sequence (parts : List (Rule ν β)) (build : Option (Span → List (Parsed β) → Build β))
  /-- The first alternative that matches, or else the last failure. -/
  | oneOf (alternatives : List (Rule ν β))
  /-- As often as the item matches and takes a token. -/
  | many (item : Rule ν β)
  /-- The item or nothing; a failure counts as nothing. -/
  | maybe (item : Rule ν β)
  /-- The item, or a failure whose reason may name the place and the number of tokens. -/
  | required (item : Rule ν β) (reason : Nat → Nat → String)
  /-- The item with another payload over the same tokens. -/
  | map (item : Rule ν β) (build : Parsed β → Build β)
  | named (name : String) (item : Rule ν β)
  | commit (message : String)
  | ref (symbol : ν)

namespace Rule

variable {ν β : Type}

/-- What kind of rule it is; a named rule goes by its name. -/
def label : Rule ν β → String
  | tag _ => "match"
  | sequence _ _ => "sequence"
  | oneOf _ => "one_of"
  | many _ => "many"
  | maybe _ => "maybe"
  | required _ _ => "required"
  | map _ _ => "map"
  | named name _ => name
  | scalar _ | chars _ | commit _ => "terminal"
  | ref _ => "later"

def unnamed : Rule ν β → Rule ν β
  | named _ item => item.unnamed
  | rule => rule

/-- The alternatives without those that refer to an excluded symbol. -/
def excluding [DecidableEq ν] (excluded : List ν) (alternatives : List (Rule ν β)) :
    List (Rule ν β) :=
  alternatives.filter fun
    | ref symbol => !excluded.contains symbol
    | _ => true

end Rule

/-- What a symbol stands for: a rule, another symbol that may not be known yet, or the
alternatives of another symbol without some of them. A view that was used before its
target was known is spoiled for good. -/
inductive Binding (ν β : Type)
  | rule (r : Rule ν β)
  | forward (target : Option ν)
  | view (target : ν) (excluded : List ν)
  | spoiled

def Binding.label {ν β : Type} : Binding ν β → String
  | rule r => r.label
  | forward _ => "later"
  | view _ _ | spoiled => "except"

abbrev Grammar (ν β : Type) := ν → Binding ν β

end JsonTemplate
