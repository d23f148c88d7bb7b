import JsonTemplate.Rule.Characters
import JsonTemplate.Rule.Run

/-!
A bench on which rules are put together from descriptions, named, defined later and run.
Every described rule becomes a symbol of its own, so that an exclusion is a matter of
identity and not of behaviour.
-/

namespace JsonTemplate

/-- What the builders of the bench make: a label around the matches they were given. -/
inductive Built
  | mk (label : String) (parts : List (Span × Payload Built))

inductive Maker
  | wrap (label : String)
  | fail (message : String)
  | decline

def Maker.build (m : Maker) (span : Span) (parts : List (Parsed Built)) : Build Built :=
  match m with
  | wrap label => .ok (some (.value (.mk label parts)))
  | fail message => .error (.rejected message span)
  | decline => .ok none

inductive Description
  | existing (name : String)
  | tag (t : Tag)
  | char (c : Char)
  | text (s : String)
  | keyword (s : String)
  | textUntil (stop : String)
  | pattern (width : List Char → Nat)
  | sequence (parts : List Description) (maker : Option Maker)
  | oneOf (alternatives : List Description)
  | many (item : Description)
  | maybe (item : Description)
  | required (item : Description) (reason : String)
  | later
  | named (name : String) (item : Description)
  | map (item : Description) (maker : Maker)
  | except (target : Description) (excluded : List Description)
  | commit (message : String)

/-- The reason of a required rule names the place and the number of tokens. -/
def placedReason (reason : String) (start count : Nat) : String :=
  reason ++ " at " ++ Nat.repr start ++ " of " ++ Nat.repr count

structure Workbench where
  names : List (String × Nat)
  bindings : Array (Binding Nat Built)

namespace Workbench

abbrev BenchRule := Rule Nat Built

def empty : Workbench := ⟨[], #[]⟩

def grammar (b : Workbench) : Grammar Nat Built := fun symbol =>
  b.bindings[symbol]?.getD (.forward none)

def find? (b : Workbench) (name : String) : Option Nat :=
  (b.names.find? fun entry => entry.1 = name).map Prod.snd

def add (b : Workbench) (binding : Binding Nat Built) : Nat × Workbench :=
  (b.bindings.size, { b with bindings := b.bindings.push binding })

def addRule (b : Workbench) (rule : BenchRule) : Nat × Workbench := b.add (.rule rule)

/-- Alternatives are excluded at once where the target is known to be a choice, and on use
where it is not. -/
def exclusion (b : Workbench) (target : Nat) (excluded : List Nat) : Binding Nat Built :=
  match b.grammar target with
  | .rule (.oneOf alternatives) => .rule (.oneOf (Rule.excluding excluded alternatives))
  | _ => .view target excluded

mutual

/-- The symbol of a described rule. A reference is the rule it refers to; every other
description makes a new one. There is none if a name is unknown. -/
def build? (b : Workbench) : Description → Option (Nat × Workbench)
  | .existing name => (b.find? name).map fun symbol => (symbol, b)
  | .tag t => some (b.addRule (.tag t))
  | .char c => some (b.addRule (.char c))
  | .text s => some (b.addRule (.text s))
  | .keyword s => some (b.addRule (.keyword s))
  | .textUntil stop => some (b.addRule (.textUntil stop))
  | .pattern width => some (b.addRule (.pattern width))
  | .sequence parts maker => do
      let (parts, b) ← buildAll? b parts
      return b.addRule (.sequence (parts.map .ref) (maker.map Maker.build))
  | .oneOf alternatives => do
      let (alternatives, b) ← buildAll? b alternatives
      return b.addRule (.oneOf (alternatives.map .ref))
  | .many item => do
      let (item, b) ← build? b item
      return b.addRule (.many (.ref item))
  | .maybe item => do
      let (item, b) ← build? b item
      return b.addRule (.maybe (.ref item))
  | .required item reason => do
      let (item, b) ← build? b item
      return b.addRule (.required (.ref item) (placedReason reason))
  | .later => some (b.add (.forward none))
  | .named name item => do
      let (item, b) ← build? b item
      return b.addRule (.named name (.ref item))
  | .map item maker => do
      let (item, b) ← build? b item
      return b.addRule (.map (.ref item) fun parsed => maker.build parsed.1 [parsed])
  | .except target excluded => do
      let (target, b) ← build? b target
      let (excluded, b) ← buildAll? b excluded
      return b.add (b.exclusion target excluded)
  | .commit message => some (b.addRule (.commit message))

def buildAll? (b : Workbench) : List Description → Option (List Nat × Workbench)
  | [] => some ([], b)
  | d :: rest => do
      let (symbol, b) ← build? b d
      let (symbols, b) ← buildAll? b rest
      return (symbol :: symbols, b)

end

def name (b : Workbench) (name : String) (symbol : Nat) : Workbench :=
  { b with names := (name, symbol) :: b.names }

/-- Gives a forward declaration its rule. Only the first definition of a symbol that was
declared forward counts. -/
def define (b : Workbench) (symbol target : Nat) : Workbench :=
  match b.grammar symbol with
  | .forward none => { b with bindings := b.bindings.setIfInBounds symbol (.forward (some target)) }
  | _ => b

/-- Along a chain of calls no symbol recurs at one place unless it recurs forever. -/
def callLimit (b : Workbench) (tokens : Stream) : Nat :=
  (b.bindings.size + 1) * (tokens.size + 3)

def outcome (b : Workbench) (tokens : Stream) (symbol start : Nat) : Outcome (Parsed Built) :=
  b.grammar.parse tokens (b.callLimit tokens) symbol start

/-- A view whose target is not known yet. -/
def isPending (b : Workbench) (symbol : Nat) : Bool :=
  match b.grammar symbol with
  | .view target _ =>
      match b.grammar.resolve (b.bindings.size + 1) target with
      | .unknown => true
      | _ => false
  | _ => false

/-- The bench with a rule in the place of a symbol that never finishes. -/
def hide (b : Workbench) (symbol : Nat) : Workbench :=
  { b with bindings := b.bindings.setIfInBounds symbol (.rule (.maybe (.ref symbol))) }

/-- Whether a run comes to a symbol: it does if it has no end without it. -/
def reaches (b : Workbench) (tokens : Stream) (run : Nat) (start symbol : Nat) : Bool :=
  !((b.hide symbol).outcome tokens run start).isFinished

/-- The bench after a run: the pending views that the run came to are spoiled. -/
def after (b : Workbench) (tokens : Stream) (run start : Nat) : Workbench :=
  let used := (List.range b.bindings.size).filter fun symbol =>
    b.isPending symbol && b.reaches tokens run start symbol
  used.foldl
    (fun b symbol => { b with bindings := b.bindings.setIfInBounds symbol .spoiled }) b

end Workbench
end JsonTemplate
