import JsonTemplate.Proofs.Expression.Brackets
import JsonTemplate.Proofs.Expression.Layers
import JsonTemplate.Proofs.Expression.Shape

/-!
The syntax of operands: numbers, paths, operations and groups of these, with any blanks or none
between their words. What is spelled so is read as it is spelled, wherever no operand goes on
behind it.
-/

namespace JsonTemplate
namespace Rules

open Node

inductive SpellsOperand : Node → List Char → Prop
  | number {k : Number} {t : List Char} (ht : Literal.SpellsNumber t)
      (hk : Literal.number? t = some k) : SpellsOperand (.number k (.empty 0)) t
  | path {p : VariablePath} {t : List Char} (h : Denotes t p) :
      SpellsOperand (.path p (.empty 0)) t
  | group {n : Node} {a t b : List Char} (ha : ∀ c ∈ a, isGap c = true) (h : SpellsOperand n t)
      (hb : ∀ c ∈ b, isGap c = true) :
      SpellsOperand (.group n (.empty 0)) ('(' :: (a ++ (t ++ (b ++ [')']))))
  | operation (op : Arithmetic) {l r : Node} {s a b t : List Char} (hl : SpellsOperand l s)
      (hn : l.isArithmetic = false) (ha : ∀ c ∈ a, isGap c = true) (hb : ∀ c ∈ b, isGap c = true)
      (hr : SpellsOperand r t) :
      SpellsOperand (.arithmetic op l r (.empty 0)) (s ++ (a ++ (op.sign.toList ++ (b ++ t))))

variable {n : Node} {t : List Char}

theorem SpellsOperand.isOperand (h : SpellsOperand n t) : n.IsOperand := by
  induction h with
  | number => trivial
  | path h => exact h.bounded
  | group _ _ _ ih => exact ih
  | operation _ _ hn _ _ _ ihl ihr => exact ⟨ihl, hn, ihr⟩

theorem SpellsOperand.starts (h : SpellsOperand n t) : Starts t := by
  induction h with
  | number ht =>
      obtain ⟨c, more, rfl, hc⟩ := ht.head
      refine ⟨c, more, rfl, ?_⟩
      obtain hd | rfl := hc
      · simp [isOpening, hd]
      · rfl
  | path h => exact h.starts
  | group => exact ⟨_, _, rfl, rfl⟩
  | operation _ _ _ _ _ _ ihl => exact ihl.append _

/-- An operand is read as it is spelled, and on the left of an operation if it is none itself. -/
theorem SpellsOperand.read (h : SpellsOperand n t) :
    (n.isArithmetic = false → Layer.Read .atom n t) ∧ Layer.Read .operand n t := by
  have hatom : ∀ {n t}, Layer.Read .atom n t →
      (n.isArithmetic = false → Layer.Read .atom n t) ∧ Layer.Read .operand n t :=
    fun hread => ⟨fun _ => hread, read_atom hread⟩
  induction h with
  | number ht hk => exact hatom (read_number ht hk)
  | path h => exact hatom (read_denoted h)
  | group ha h hb ih => exact hatom (read_group ha h.starts.begins hb ih.2)
  | operation op _ hn ha hb hr ihl ihr =>
      exact ⟨nofun, read_operation op (ihl.1 hn) ha hb hr.starts.begins ihr.2⟩

open Brackets in
theorem SpellsOperand.balanced (h : SpellsOperand n t) : Balanced t := by
  induction h with
  | number ht => exact balanced_number ht
  | path h => exact balanced_path (Variable.spellsPath_of_path? h.whole)
  | group ha _ hb ih =>
      have hinner := balanced_group ((balanced_blanks ha).append (ih.append (balanced_blanks hb)))
      simpa only [List.append_assoc] using hinner
  | operation op _ _ ha hb _ ihl ihr =>
      have hsign : Balanced op.sign.toList := by cases op <;> exact fun _ => rfl
      exact ihl.append ((balanced_blanks ha).append
        (hsign.append ((balanced_blanks hb).append ihr)))

/-- A text that does not end in a blank. -/
def Finishes (t : List Char) : Prop := ∃ front c, t = front ++ [c] ∧ isGap c = false

theorem Finishes.append (h : Finishes t) (s : List Char) : Finishes (s ++ t) := by
  obtain ⟨front, c, rfl, hc⟩ := h
  exact ⟨s ++ front, c, (List.append_assoc _ _ _).symm, hc⟩

/-- No blank is among these characters. -/
theorem finishes_of_all {p : Char → Bool} (hp : Solid p) (hne : t ≠ [])
    (h : ∀ c ∈ t, p c = true) : Finishes t := by
  refine ⟨t.dropLast, t.getLast hne, (List.dropLast_concat_getLast hne).symm, ?_⟩
  apply Bool.eq_false_iff.2
  intro hg
  have hlast := h _ (List.getLast_mem hne)
  rw [hp _ hg] at hlast
  cases hlast

theorem SpellsOperand.finishes (h : SpellsOperand n t) : Finishes t := by
  induction h with
  | number ht =>
      obtain ⟨c, more, rfl, -⟩ := ht.head
      exact finishes_of_all (solid_of_any rfl) (List.cons_ne_nil _ _) ht.isNumberChar
  | path h =>
      obtain ⟨c, more, rfl, -⟩ := h.nameStart
      exact finishes_of_all (solid_of_any rfl) (List.cons_ne_nil _ _)
        (Variable.spellsPath_of_path? h.whole).isPathChar
  | @group n a t b => exact ⟨'(' :: (a ++ (t ++ b)), ')', by simp, rfl⟩
  | operation _ _ _ _ _ _ _ ihr => exact ((ihr.append _).append _).append _ |>.append _

end Rules
end JsonTemplate
