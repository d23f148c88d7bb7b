import JsonTemplate.Expression.Literal
import JsonTemplate.Expression.Variable
import Mathlib.Data.List.TakeWhile

/-!
Blanks, which no word holds, and the characters that the readers of numbers and paths
do not go on at.
-/

namespace JsonTemplate

/-- The blanks that may stand between two words. -/
def isGap (c : Char) : Bool := c == ' ' || c == '\t' || c == '\n' || c == '\r'

/-- A run of blanks, one at least. -/
structure Gap (b : List Char) : Prop where
  ne_nil : b ≠ []
  all_isGap : ∀ c ∈ b, isGap c = true

theorem gap_blank : Gap [' '] := ⟨nofun, List.forall_mem_singleton.2 rfl⟩

/-- Text that begins with a blank. -/
def Spaced (text : List Char) : Prop := ∃ c rest, text = c :: rest ∧ isGap c = true

theorem Gap.spaced {b : List Char} (h : Gap b) (rest : List Char) : Spaced (b ++ rest) := by
  cases b with
  | nil => exact absurd rfl h.ne_nil
  | cons c b => exact ⟨c, b ++ rest, rfl, h.all_isGap c List.mem_cons_self⟩

theorem isGap_cases {c : Char} (h : isGap c = true) : c = ' ' ∨ c = '\t' ∨ c = '\n' ∨ c = '\r' := by
  simpa only [isGap, Bool.or_eq_true, beq_iff_eq, or_assoc] using h

theorem Spaced.append {text : List Char} (h : Spaced text) (rest : List Char) :
    Spaced (text ++ rest) := by
  obtain ⟨c, more, rfl, hc⟩ := h
  exact ⟨c, more ++ rest, rfl, hc⟩

/-- No blank is one of these characters. -/
def Solid (p : Char → Bool) : Prop := ∀ c, isGap c = true → p c = false

theorem solid_of_any {p : Char → Bool} (h : [' ', '\t', '\n', '\r'].any p = false) : Solid p :=
  fun c hc => Bool.eq_false_iff.2 (List.any_eq_false.1 h c (by simpa using isGap_cases hc))

theorem solid_isWordChar : Solid isWordChar := solid_of_any rfl

theorem takeWhile_append_spaced {p : Char → Bool} (hp : Solid p) (text : List Char)
    {rest : List Char} (h : Spaced rest) : (text ++ rest).takeWhile p = text.takeWhile p := by
  obtain ⟨c, more, rfl, hc⟩ := h
  induction text with
  | nil => simp [hp c hc]
  | cons d text ih =>
      simp only [List.cons_append, List.takeWhile_cons, ih]

/-- A text without blanks does not reach beyond a blank. -/
theorem prefix_of_prefix_append {s text rest : List Char} (hs : s.any isGap = false)
    (h : Spaced rest) (hp : s <+: text ++ rest) : s <+: text := by
  obtain ⟨d, more, rfl, hd⟩ := h
  induction text generalizing s with
  | nil =>
      cases s with
      | nil => exact List.nil_prefix
      | cons c s =>
          obtain rfl := (List.cons_prefix_cons.1 hp).1
          rw [List.any_cons, hd] at hs
          cases hs
  | cons e text ih =>
      cases s with
      | nil => exact List.nil_prefix
      | cons c s =>
          obtain ⟨he, htail⟩ := List.cons_prefix_cons.1 hp
          rw [List.any_cons, Bool.or_eq_false_iff] at hs
          exact List.cons_prefix_cons.2 ⟨he, ih hs.2 htail⟩

/-- A run of such characters, and what stands behind it. -/
theorem takeWhile_split (p : Char → Bool) (text : List Char) :
    ∃ name rest, text = name ++ rest ∧ text.takeWhile p = name ∧ ∀ c ∈ name, p c = true :=
  ⟨text.takeWhile p, text.dropWhile p, List.takeWhile_append_dropWhile.symm, rfl,
    fun _ hc => List.mem_takeWhile_imp hc⟩

namespace Literal

theorem fractionWidth_of_ne {c : Char} (h : c ≠ '.') (text : List Char) :
    fractionWidth (c :: text) = 0 := by
  unfold fractionWidth
  split
  · next he => exact absurd (List.cons.inj he).1 h
  · rfl

theorem numberWidth_of_ne {c : Char} (h : c ≠ '-') (text : List Char) :
    numberWidth (c :: text) = unsignedWidth (c :: text) := by
  unfold numberWidth
  split
  · next he => exact absurd (List.cons.inj he).1 h
  · rfl

end Literal

namespace Variable

variable {text : List Char}

theorem markWidth_of_ne {c : Char} (h : c ≠ '?') (text : List Char) : markWidth (c :: text) = 0 := by
  unfold markWidth
  split
  · next he => exact absurd (List.cons.inj he).1 h
  · rfl

theorem quoteWidth_of_ne {c : Char} (h : c ≠ '\'') (text : List Char) :
    quoteWidth (c :: text) = 0 := by
  unfold quoteWidth
  split
  · next he => exact absurd (List.cons.inj he).1 h
  · rfl

theorem step?_of_ne {c : Char} (hd : c ≠ '.') (hb : c ≠ '[') (text : List Char) :
    step? (c :: text) = none := by
  unfold step?
  split
  · next he => exact absurd (List.cons.inj he).1 hd
  · next he => exact absurd (List.cons.inj he).1 hb
  · rfl

theorem steps_of_none (h : step? text = none) : steps text = ([], 0) := by
  rw [steps]
  split
  · rfl
  · next he => rw [h] at he; cases he

theorem steps_of_some {part : PathPart} {width : Nat} (h : step? text = some (part, width)) :
    steps text = (part :: (steps (text.drop width)).1, width + (steps (text.drop width)).2) := by
  rw [steps]
  split
  · next he => rw [h] at he; cases he
  · next he =>
      rw [h] at he
      cases he
      rfl

end Variable
end JsonTemplate
