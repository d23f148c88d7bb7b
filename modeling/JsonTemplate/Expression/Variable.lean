import JsonTemplate.Rule.Characters
import JsonTemplate.Tree.Basic

/-!
Variable paths: a name, and steps `.name`, `[name]` or `['name']`, each of them optional
if a question mark follows.
-/

namespace JsonTemplate
namespace Variable

/-- Longer paths are rejected. -/
def maximumLength : Nat := 20

def reservedWords : List String := ["true", "false", "null", "undefined"]

def isNameStart (c : Char) : Bool := isLetter c || c == '_'

/-- The characters of a name in brackets. -/
def isBracketChar (c : Char) : Bool := isWordChar c || c == '-' || c == ':'

/-- The width of a question mark, if there is one. -/
def markWidth : List Char → Nat
  | '?' :: _ => 1
  | _ => 0

def quoteWidth : List Char → Nat
  | '\'' :: _ => 1
  | _ => 0

/-- A step of this name whose text takes `width` characters before the question mark that
`rest` may begin with. -/
def stepOf (name : List Char) (width : Nat) (rest : List Char) : PathPart × Nat :=
  (⟨String.ofList name, markWidth rest == 1⟩, width + markWidth rest)

/-- The first name of a path and the width of its text. -/
def root? : List Char → Option (PathPart × Nat)
  | [] => none
  | c :: rest =>
      if isNameStart c then
        let more := rest.takeWhile isWordChar
        some (stepOf (c :: more) (more.length + 1) (rest.drop more.length))
      else none

def dotted? (text : List Char) : Option (PathPart × Nat) :=
  let name := text.takeWhile isWordChar
  if name.isEmpty then none
  else some (stepOf name (name.length + 1) (text.drop name.length))

def bracketed? (text : List Char) : Option (PathPart × Nat) :=
  let inner := text.drop (quoteWidth text)
  let name := inner.takeWhile isBracketChar
  let after := inner.drop name.length
  if name.isEmpty then none else
  match after.drop (quoteWidth after) with
  | ']' :: rest =>
      some (stepOf name (quoteWidth text + name.length + quoteWidth after + 2) rest)
  | _ => none

/-- One step of a path and the width of its text. -/
def step? : List Char → Option (PathPart × Nat)
  | '.' :: rest => dotted? rest
  | '[' :: rest => bracketed? rest
  | _ => none

theorem step?_width_pos {text : List Char} {part : PathPart} {width : Nat}
    (h : step? text = some (part, width)) : 0 < width ∧ text ≠ [] := by
  unfold step? at h
  split at h
  · simp only [dotted?, stepOf] at h
    split at h
    · simp at h
    · simp only [Option.some.injEq, Prod.mk.injEq] at h
      exact ⟨by omega, by simp⟩
  · simp only [bracketed?, stepOf] at h
    split at h
    · simp at h
    · split at h
      · simp only [Option.some.injEq, Prod.mk.injEq] at h
        exact ⟨by omega, by simp⟩
      · simp at h
  · simp at h

/-- As many steps as there are, and the width of their text. -/
def steps (text : List Char) : List PathPart × Nat :=
  match _h : step? text with
  | none => ([], 0)
  | some (part, width) =>
      let more := steps (text.drop width)
      (part :: more.1, width + more.2)
termination_by text.length
decreasing_by
  have := step?_width_pos _h
  have := List.length_pos_iff.2 this.2
  simp only [List.length_drop]
  omega

/-- The longest path that a text begins with and the width of its text. -/
def path? (text : List Char) : Option (List PathPart × Nat) :=
  match root? text with
  | none => none
  | some (root, width) =>
      let more := steps (text.drop width)
      some (root :: more.1, width + more.2)

def width (run : List Char) : Nat :=
  match path? run with
  | none => 0
  | some (_, width) => width

end Variable
end JsonTemplate
