import JsonTemplate.Proofs.Expression.PathSyntax

/-!
The syntax of numbers: an optional minus, digits, and a fraction if there is one. The width of
a number is that of the longest such text, which nothing but a digit or a point lengthens.
-/

namespace JsonTemplate
namespace Literal

def minus (negative : Bool) : List Char := if negative then ['-'] else []

inductive SpellsFraction : List Char → Prop
  | none : SpellsFraction []
  | some {digits : List Char} (hn : digits ≠ []) (hd : ∀ c ∈ digits, isDigit c = true) :
      SpellsFraction ('.' :: digits)

inductive SpellsNumber : List Char → Prop
  | mk (negative : Bool) {whole fraction : List Char} (hn : whole ≠ [])
      (hw : ∀ c ∈ whole, isDigit c = true) (hf : SpellsFraction fraction) :
      SpellsNumber (minus negative ++ (whole ++ fraction))

/-- A number begins with a minus or a digit. -/
theorem SpellsNumber.head {text : List Char} (h : SpellsNumber text) :
    ∃ c more, text = c :: more ∧ (isDigit c = true ∨ c = '-') := by
  cases h with
  | @mk negative whole fraction hn hw hf =>
      cases negative with
      | true => exact ⟨'-', _, rfl, .inr rfl⟩
      | false =>
          cases whole with
          | nil => exact absurd rfl hn
          | cons d whole => exact ⟨d, _, rfl, .inl (hw d List.mem_cons_self)⟩

/-- The characters of numbers. -/
def isNumberChar (c : Char) : Bool := isDigit c || c == '-' || c == '.'

theorem isNumberChar_of_isDigit {c : Char} (h : isDigit c = true) : isNumberChar c = true := by
  rw [isNumberChar, h, Bool.true_or, Bool.true_or]

theorem SpellsNumber.isNumberChar {text : List Char} (h : SpellsNumber text) :
    ∀ c ∈ text, isNumberChar c = true := by
  cases h with
  | mk negative _ hw hf =>
      have hminus : ∀ c ∈ minus negative, Literal.isNumberChar c = true := by
        cases negative <;> exact List.all_eq_true.1 rfl
      refine List.forall_mem_append.2 ⟨hminus, List.forall_mem_append.2
        ⟨fun c hc => isNumberChar_of_isDigit (hw c hc), ?_⟩⟩
      cases hf with
      | none => nofun
      | some _ hd =>
          exact List.forall_mem_cons.2 ⟨rfl, fun c hc => isNumberChar_of_isDigit (hd c hc)⟩

/-! What is read is spelled so -/

theorem fractionWidth_sound (run : List Char) :
    ∃ text rest, run = text ++ rest ∧ fractionWidth run = text.length ∧ SpellsFraction text := by
  cases run with
  | nil => exact ⟨[], [], rfl, rfl, .none⟩
  | cons c run =>
      by_cases hc : c = '.'
      · subst hc
        obtain ⟨digits, rest, rfl, hdigits, hd⟩ := takeWhile_split isDigit run
        cases digits with
        | nil =>
            refine ⟨[], _, rfl, ?_, .none⟩
            simp only [fractionWidth, digitsWidth, hdigits, List.length_nil]
        | cons d digits =>
            refine ⟨'.' :: d :: digits, rest, rfl, ?_, .some (List.cons_ne_nil _ _) hd⟩
            simp only [fractionWidth, digitsWidth, hdigits, List.length_cons]
      · exact ⟨[], c :: run, rfl, fractionWidth_of_ne hc run, .none⟩

theorem unsignedWidth_sound {run : List Char} (h : unsignedWidth run ≠ 0) :
    ∃ whole fraction rest, run = whole ++ (fraction ++ rest) ∧
      unsignedWidth run = (whole ++ fraction).length ∧ whole ≠ [] ∧
      (∀ c ∈ whole, isDigit c = true) ∧ SpellsFraction fraction := by
  obtain ⟨whole, behind, rfl, hwhole, hw⟩ := takeWhile_split isDigit run
  obtain ⟨fraction, rest, rfl, hfraction, hf⟩ := fractionWidth_sound behind
  cases whole with
  | nil => exact absurd (by simp only [unsignedWidth, digitsWidth, hwhole, List.length_nil]) h
  | cons d whole =>
      refine ⟨d :: whole, fraction, rest, rfl, ?_, List.cons_ne_nil _ _, hw, hf⟩
      have hdrop : (d :: whole ++ (fraction ++ rest)).drop (d :: whole).length = fraction ++ rest :=
        List.drop_left
      rw [List.length_cons] at hdrop
      simp only [unsignedWidth, digitsWidth, hwhole, List.length_cons, hdrop, hfraction,
        List.length_append]

theorem numberWidth_sound {run : List Char} (h : numberWidth run ≠ 0) :
    ∃ text rest, run = text ++ rest ∧ numberWidth run = text.length ∧ SpellsNumber text := by
  cases run with
  | nil => exact absurd rfl h
  | cons c run =>
      by_cases hc : c = '-'
      · subst hc
        have hne : unsignedWidth run ≠ 0 := fun hz => h (by simp only [numberWidth, hz])
        have hwidth : numberWidth ('-' :: run) = unsignedWidth run + 1 := by
          rw [numberWidth]
          split
          · next hz => exact absurd hz hne
          · rfl
        obtain ⟨whole, fraction, rest, rfl, hw, hn, hall, hf⟩ := unsignedWidth_sound hne
        refine ⟨'-' :: (whole ++ fraction), rest, by simp, ?_, .mk true hn hall hf⟩
        rw [hwidth, hw, List.length_cons]
      · rw [numberWidth_of_ne hc] at h ⊢
        obtain ⟨whole, fraction, rest, hrun, hw, hn, hall, hf⟩ := unsignedWidth_sound h
        exact ⟨whole ++ fraction, rest, by rw [hrun, List.append_assoc], hw, .mk false hn hall hf⟩

/-! What is spelled so is read -/

section Complete

variable {text rest : List Char}

theorem isDigit_of_leaves (h : Variable.Leaves rest) : ∀ c ∈ rest.head?, isDigit c = false := by
  intro c hc
  have hword := (h c hc).1
  rw [isWordChar, Bool.or_eq_false_iff, Bool.or_eq_false_iff] at hword
  exact hword.1.2

theorem SpellsFraction.read_before (h : SpellsFraction text) (hr : Variable.Leaves rest) :
    fractionWidth (text ++ rest) = text.length := by
  cases h with
  | none =>
      cases rest with
      | nil => rfl
      | cons c rest => exact fractionWidth_of_ne (hr c rfl).2.2.1 rest
  | @some digits hn hd =>
      have hread : digitsWidth (digits ++ rest) = digits.length := by
        rw [digitsWidth, takeWhile_append_stop hd (isDigit_of_leaves hr)]
      cases digits with
      | nil => exact absurd rfl hn
      | cons d digits =>
          rw [List.length_cons] at hread
          simp only [List.cons_append] at hread ⊢
          simp only [fractionWidth, hread, List.length_cons]

theorem SpellsFraction.isDigit_head (h : SpellsFraction text) (hr : Variable.Leaves rest) :
    ∀ c ∈ (text ++ rest).head?, isDigit c = false := by
  cases h with
  | none => exact isDigit_of_leaves hr
  | some => exact fun c hc => by cases hc; rfl

theorem unsignedWidth_spelled {whole fraction : List Char} (hn : whole ≠ [])
    (hw : ∀ c ∈ whole, isDigit c = true) (hf : SpellsFraction fraction)
    (hr : Variable.Leaves rest) :
    unsignedWidth (whole ++ (fraction ++ rest)) = (whole ++ fraction).length := by
  have hread : digitsWidth (whole ++ (fraction ++ rest)) = whole.length := by
    rw [digitsWidth, takeWhile_append_stop hw (hf.isDigit_head hr)]
  have hbehind : fractionWidth ((whole ++ (fraction ++ rest)).drop whole.length)
      = fraction.length := by
    rw [List.drop_left, hf.read_before hr]
  cases whole with
  | nil => exact absurd rfl hn
  | cons d whole =>
      rw [List.length_cons] at hread hbehind
      simp only [unsignedWidth, hread, hbehind, List.length_append, List.length_cons]

/-- A number is read as it is spelled if neither a digit nor a point stands behind it. -/
theorem SpellsNumber.read_before (h : SpellsNumber text) (hr : Variable.Leaves rest) :
    numberWidth (text ++ rest) = text.length := by
  cases h with
  | @mk negative whole fraction hn hw hf =>
      have hunsigned := unsignedWidth_spelled hn hw hf hr
      cases whole with
      | nil => exact absurd rfl hn
      | cons d whole =>
          cases negative with
          | true =>
              rw [List.length_append, List.length_cons, Nat.add_right_comm] at hunsigned
              simp only [minus, if_true, List.cons_append, List.nil_append, List.append_assoc]
                at hunsigned ⊢
              simp only [numberWidth, hunsigned, List.length_cons, List.length_append]
          | false =>
              have hd : d ≠ '-' := by
                rintro rfl
                cases hw _ List.mem_cons_self
              simp only [minus, Bool.false_eq_true, if_false, List.nil_append, List.append_assoc,
                List.cons_append] at hunsigned ⊢
              rw [numberWidth_of_ne hd, hunsigned]

end Complete

theorem spellsNumber_toString (i : Int) : SpellsNumber (toString i).toList := by
  have hdigits := SpellsNumber.mk (i < 0) (Nat.toDigits_ne_nil (n := i.natAbs) (b := 10))
    (fun _ hc => isDigit_of_mem_toDigits hc) .none
  rw [toString_toList]
  rw [List.append_nil] at hdigits
  split
  · next hi => rwa [decide_eq_true hi] at hdigits
  · next hi => rwa [decide_eq_false hi] at hdigits

end Literal
end JsonTemplate
