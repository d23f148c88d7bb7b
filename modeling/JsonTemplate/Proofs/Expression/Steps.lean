import JsonTemplate.Document.Path
import JsonTemplate.Proofs.Expression.Interpolations

/-!
Steps written for places. A key is a step in brackets and quotes, or behind a dot if it is a
word, and a position is a step in brackets. A name with such steps behind it is a path of their
keys and positions.
-/

namespace JsonTemplate
namespace Writing

/-- How a step is written. -/
inductive Step
  | dotted (name : String) (optional : Bool)
  | quoted (name : String) (optional : Bool)
  | indexed (position : Nat) (optional : Bool)

namespace Step

def segment : Step → Segment
  | dotted name _ | quoted name _ => .key name
  | indexed position _ => .index position

def isOptional : Step → Bool
  | dotted _ optional | quoted _ optional | indexed _ optional => optional

def part (s : Step) : PathPart := ⟨s.segment.text, s.isOptional⟩

def text : Step → List Char
  | dotted name optional => '.' :: (name.toList ++ mark optional)
  | quoted name optional => '[' :: '\'' :: (name.toList ++ '\'' :: ']' :: mark optional)
  | indexed position optional => '[' :: (Nat.toDigits 10 position ++ ']' :: mark optional)

/-- Whether the key may be written so. -/
def isWritable : Step → Bool
  | dotted name _ => name != "" && name.toList.all isWordChar
  | quoted name _ => name != "" && name.toList.all Variable.isBracketChar
  | indexed _ _ => true

end Step

theorem isBracketChar_of_isDigit {c : Char} (h : isDigit c = true) :
    Variable.isBracketChar c = true := by
  simp [Variable.isBracketChar, isWordChar, h]

theorem written_of_isWritable {name : String} {p : Char → Bool}
    (h : (name != "" && name.toList.all p) = true) :
    name.toList ≠ [] ∧ ∀ c ∈ name.toList, p c = true := by
  obtain ⟨hne, hall⟩ := Bool.and_eq_true_iff.1 h
  exact ⟨mt String.toList_eq_nil_iff.1 (bne_iff_ne.1 hne), List.all_eq_true.1 hall⟩

theorem step?_text {s : Step} {rest : List Char} (hs : s.isWritable = true)
    (hr : Continues rest) : Variable.step? (s.text ++ rest) = some (s.part, s.text.length) := by
  cases s with
  | dotted name optional =>
      obtain ⟨hne, hword⟩ := written_of_isWritable hs
      have hread := step?_dotted optional hne hword hr.halts
      rwa [String.ofList_toList] at hread
  | quoted name optional =>
      obtain ⟨hne, hword⟩ := written_of_isWritable hs
      have hread := step?_quoted optional hne hword hr.halts
      rwa [String.ofList_toList] at hread
  | indexed position optional =>
      exact step?_bare optional Nat.toDigits_ne_nil (fun c hc =>
        isBracketChar_of_isDigit (Literal.isDigit_of_mem_toDigits hc)) hr.halts

def stepsText (steps : List Step) : List Char := steps.flatMap Step.text

theorem continues_stepsText (steps : List Step) : Continues (stepsText steps) := by
  cases steps with
  | nil => nofun
  | cons s rest =>
      intro c hc
      cases s with
      | dotted => exact .inl (Option.some.inj hc).symm
      | quoted | indexed => exact .inr (Option.some.inj hc).symm

theorem steps_stepsText {steps : List Step} (h : ∀ s ∈ steps, s.isWritable = true) :
    Variable.steps (stepsText steps) = (steps.map Step.part, (stepsText steps).length) := by
  induction steps with
  | nil => exact Variable.steps_of_none rfl
  | cons s rest ih =>
      obtain ⟨hs, hrest⟩ := List.forall_mem_cons.1 h
      exact steps_cons (step?_text hs (continues_stepsText rest)) (ih hrest)

/-- A name, and steps behind it. -/
def placeText (root : String) (optional : Bool) (steps : List Step) : List Char :=
  root.toList ++ mark optional ++ stepsText steps

def placePath (root : String) (optional : Bool) (steps : List Step) : VariablePath :=
  ⟨⟨root, optional⟩ :: steps.map Step.part⟩

end Writing

namespace Rules

open Writing

variable {root : String} {steps : List Step}

theorem denotes_placeText (hr : IsIdentifier root.toList) (optional : Bool)
    (hs : ∀ s ∈ steps, s.isWritable = true) (hl : steps.length < Variable.maximumLength) :
    Denotes (placeText root optional steps) (placePath root optional steps) := by
  have hlength : (steps.map Step.part).length < Variable.maximumLength := by
    rwa [List.length_map]
  have hdenotes := denotes_of_steps hr optional (continues_stepsText steps).halts (steps_stepsText hs)
    hlength
  rwa [String.ofList_toList] at hdenotes

theorem opens_placeText (hr : IsIdentifier root.toList) (optional : Bool) (steps : List Step) :
    Opens (placeText root optional steps) := by
  have hstop := (continues_stepsText steps).halts.head_mark optional
  have hopens := opens_identifier hr hstop
  rwa [← List.append_assoc] at hopens

end Rules
end JsonTemplate
