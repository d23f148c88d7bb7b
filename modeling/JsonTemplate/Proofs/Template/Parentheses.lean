import JsonTemplate.Proofs.Evaluation.Coalescing
import JsonTemplate.Proofs.Template.Inversion
import JsonTemplate.Proofs.Template.Unrolling

/-!
Brackets around the expression of an interpolation. Around an operand they change nothing: the
string compiles, and to the same value or the same failure. Around any other expression they
are refused, as a group is only an operand, or a part of an expression.
-/

namespace JsonTemplate

open Rules Evaluation

/-! Groups -/

namespace Evaluation

/-- An operand tells nothing besides its value. -/
theorem evaluate_operand {n : Node} (h : n.IsOperand) (undefinedAsNull : Bool) (s : Scope) :
    evaluate undefinedAsNull n .value s = settled undefinedAsNull s n := by
  cases n with
  | number => rfl
  | path p span =>
      rw [settled, evaluate]
      cases p.resolve span s <;> rfl
  | group inner span =>
      rw [settled, evaluate]
      cases evaluate undefinedAsNull inner .value s <;> rfl
  | arithmetic op left right span =>
      rw [settled, evaluate]
      cases evaluate undefinedAsNull left .value s with
      | error x => rfl
      | ok a =>
          cases evaluate undefinedAsNull right .value s with
          | error x => rfl
          | ok b =>
              simp only [bind, Except.bind]
              cases op.evaluate a.value b.value (.arithmetic op left right span) <;> rfl
  | _ => exact h.elim

end Evaluation

namespace Template

/-- Alone in a string, expressions that come to the same cannot be told apart. -/
theorem evaluateRoot_alone {n m : Node} {undefinedAsNull : Bool} {parameters : Fields Json}
    (h : evaluate undefinedAsNull n .value (.ofParameters parameters)
      = evaluate undefinedAsNull m .value (.ofParameters parameters)) (span : Span) :
    evaluateRoot (.template [.interpolation false [] n span] span) undefinedAsNull parameters
      = evaluateRoot (.template [.interpolation false [] m span] span) undefinedAsNull
          parameters := by
  simp only [evaluateRoot, evaluate, evaluateAll, h]
  cases evaluate undefinedAsNull m .value (.ofParameters parameters) <;> rfl

/-- The expression between brackets. -/
def grouped (e : String) : String := "( " ++ e ++ " )"

/-- Alone in an interpolation, the text is an expression, with no comment behind it. -/
structure IsExpressionText (e : String) (n : Node) : Prop where
  compiles : ∃ t, compile (.str (Loop.alone e)) = .ok t ∧
    t.tree.bare = .template [.interpolation false [] n (.empty 0)] (.empty 0)
  expression : n.IsExpression
  uncommented : ¬ "*/".toList <:+ e.toList.rdropWhile isGap

variable {e : String} {n : Node}

theorem toList_opening : "\x7b\x7b ".toList = "\x7b\x7b".toList ++ [' '] := rfl

theorem toList_closing : " \x7d\x7d".toList = ' ' :: "\x7d\x7d".toList := rfl

theorem toList_alone (e : String) :
    (Loop.alone e).toList
      = "\x7b\x7b".toList ++ (' ' :: (e.toList ++ [' ']) ++ "\x7d\x7d".toList) := by
  simp only [Loop.alone, String.toList_append, toList_opening, toList_closing, List.append_assoc,
    List.cons_append, List.nil_append]

theorem toList_grouped (e : String) :
    (grouped e).toList = '(' :: (' ' :: (e.toList ++ [' ']) ++ [')']) := by
  have hopen : "( ".toList = ['(', ' '] := rfl
  have hclose : " )".toList = [' ', ')'] := rfl
  simp only [grouped, String.toList_append, hopen, hclose, List.append_assoc, List.cons_append,
    List.nil_append]

theorem IsExpressionText.readText (h : IsExpressionText e n) :
    ∃ m, Rules.readText (Loop.alone e) = .ok m ∧
      m.bare = .template [.interpolation false [] n (.empty 0)] (.empty 0) := by
  obtain ⟨t, ht, hbare⟩ := h.compiles
  obtain ⟨k, hk, rfl⟩ := compile_eq_ok_iff.1 ht
  obtain ⟨m, hm, rfl⟩ := Failure.transport_eq_ok.1 (under_eq_ok.1 hk)
  exact ⟨m, hm, (m.bare_relocate _).symm.trans hbare⟩

/-- No comment ends where blanks are put around the text. -/
theorem IsExpressionText.uncommented_blanks (h : IsExpressionText e n) :
    ¬ "*/".toList <:+ (' ' :: (e.toList ++ [' '])).rdropWhile isGap := by
  intro hends
  have hblank : ∀ c ∈ [' '], isGap c = true := List.forall_mem_singleton.2 rfl
  rw [← List.cons_append, rdropWhile_append_gap _ hblank] at hends
  exact h.uncommented (comment_behind_blank hends)

/-- Between blanks, the expression is read as a statement. -/
theorem IsExpressionText.exists_reads (h : IsExpressionText e n) :
    ∃ a w b, ' ' :: (e.toList ++ [' ']) = a ++ (w ++ b) ∧ (∀ c ∈ a, isGap c = true) ∧
      Avoids isGap (w ++ b) ∧ (∀ c ∈ b, isGap c = true) ∧
      ReadsExpression n w (b ++ "\x7d\x7d".toList) := by
  obtain ⟨m, hm, hbare⟩ := h.readText
  have hread := reads_interpolation_of_readText hm hbare
  rw [toList_alone] at hread
  obtain ⟨a, w, b, htext, ha, hw, hb, hstatement⟩ :=
    reads_statement_of_interpolation hread h.uncommented_blanks
  exact ⟨a, w, b, htext, ha, hw, hb, hstatement, h.expression⟩

/-- With brackets around it, an operand is an operand. -/
theorem IsExpressionText.readText_grouped (h : IsExpressionText e n) (ho : n.IsOperand) :
    ∃ m, Rules.readText (Loop.alone (grouped e)) = .ok m ∧
      m.bare = .template [.interpolation false [] (.group n (.empty 0)) (.empty 0)] (.empty 0) := by
  obtain ⟨a, w, b, htext, ha, -, hb, hread⟩ := h.exists_reads
  have hgroup := SpellsOperand.group ha (hread.spells ho) hb
  have hspelled : '(' :: (a ++ (w ++ (b ++ [')']))) = (grouped e).toList := by
    rw [toList_grouped, htext]
    simp only [List.append_assoc]
  rw [hspelled] at hgroup
  have hopens : Opens (grouped e).toList := by
    rw [toList_grouped]
    exact opens_of_not_isLetter rfl rfl _
  have hflatten : firstWord (grouped e).toList ≠ "flatten" := fun hw =>
    hopens.2 (by rw [hw]; decide)
  have hstatement := reads_statement_operand hopens hgroup.read.2 before_close
  have halone := reads_between_blanks .no .none hopens.1 hflatten (List.nil_append [' '])
    (by rw [List.append_nil]; exact hstatement)
  apply readText_of_interpolation
  rw [toList_alone]
  simpa only [toList_opening, toList_closing, List.replicate_zero, List.nil_append,
    List.cons_append, List.append_assoc] using halone

/-- With brackets around it, nothing else is. -/
theorem IsExpressionText.readText_grouped_ne_ok (h : IsExpressionText e n) (ho : ¬ n.IsOperand)
    (m : Node) : Rules.readText (Loop.alone (grouped e)) ≠ .ok m := by
  obtain ⟨a, w, b, htext, ha, hw, hb, hread⟩ := h.exists_reads
  have hfinishes : ¬ Finishes (w ++ b) := by
    intro hf
    have hall := hf.append a
    rw [← htext, ← List.cons_append] at hall
    exact not_finishes gap_blank hall
  have hbalanced : Brackets.Balanced (' ' :: (e.toList ++ [' '])) := by
    rw [htext]
    exact (Brackets.balanced_blanks ha).append (hread.balanced.append (Brackets.balanced_blanks hb))
  have hgroup : Refuses (.ref .operandGroup)
      ('(' :: (a ++ (w ++ b)) ++ ')' :: " \x7d\x7d".toList) :=
    refuses_operandGroup_other hread ho ha hw hb hfinishes (avoids_cons rfl _)
      (endsValue_cons rfl rfl rfl _)
  rw [← htext] at hgroup
  have hstatement := refuses_statement_group hbalanced
    (by simpa only [List.cons_append, List.append_assoc, List.nil_append] using hgroup) before_close
  have hinterpolation := refuses_interpolation hstatement (avoids_cons rfl _) (avoids_cons rfl _)
    (by rw [List.cons_append, firstWord_of_avoids (avoids_cons rfl _)]; decide)
  refine readText_ne_ok ?_ hinterpolation
  rw [toList_alone, toList_grouped, toList_closing]
  simp only [List.nil_append, List.cons_append, List.append_assoc]

/-- Brackets around an operand change nothing: the string compiles as it does without them, and
comes to the same value, or fails and says the same. Around any other expression they are
refused. -/
theorem expand_grouped (h : IsExpressionText e n) :
    (n.IsOperand → (∃ t, compile (.str (Loop.alone (grouped e))) = .ok t) ∧
      ∀ (parameters : Fields Json) (o : Options),
        (expand (.str (Loop.alone (grouped e))) (.obj parameters) o).mapError TemplateError.describe
          = (expand (.str (Loop.alone e)) (.obj parameters) o).mapError TemplateError.describe) ∧
    (¬ n.IsOperand → ∀ t, compile (.str (Loop.alone (grouped e))) ≠ .ok t) := by
  obtain ⟨m, hm, hbare⟩ := h.readText
  refine ⟨fun ho => ?_, fun ho t ht => ?_⟩
  · obtain ⟨k, hk, hgroup⟩ := h.readText_grouped ho
    refine ⟨(compile_str_isOk_iff _).2 ⟨k, hk⟩, fun parameters o => ?_⟩
    rw [expand_of_read (read_str_of_readText hk), expand_of_read (read_str_of_readText hm),
      Node.bare_relocate, Node.bare_relocate, hgroup, hbare]
    apply congrArg
    apply evaluateRoot_alone
    rw [evaluate_group, evaluate_operand ho]
  · obtain ⟨k, hk⟩ := (compile_str_isOk_iff _).1 ⟨t, ht⟩
    exact h.readText_grouped_ne_ok ho k hk

/-- What is written as an expression is the text of one. -/
theorem isExpressionText_of_writes (h : Writing.WritesStatement n e.toList) (hn : n.IsExpression)
    (hu : ¬ "*/".toList <:+ e.toList.rdropWhile isGap) : IsExpressionText e n := by
  have hwritten : Writing.WritesInterpolation
      (.interpolation false (List.replicate 0 .flatten) n (.empty 0)) _ :=
    .mk gap_blank .no .none h gap_blank .none
  have hread : Reads interpolation (Loop.alone e).toList []
      (IsNode (.interpolation false [] n (.empty 0))) := by
    rw [toList_alone]
    simpa only [List.replicate_zero, List.nil_append, List.cons_append, List.append_assoc] using
      reads_interpolation hwritten []
  obtain ⟨m, hm, hbare⟩ := readText_of_interpolation hread
  refine ⟨⟨_, compile_of_read (read_str_of_readText hm), ?_⟩, hn, hu⟩
  exact (m.bare_relocate _).trans hbare

/-- A sum, and a word that is no operand. -/
theorem expand_grouped_sum :
    ∃ (e word : String) (n m : Node), e = "1 + a" ∧ word = "true" ∧
      IsExpressionText e n ∧ n.IsOperand ∧ IsExpressionText word m ∧ ¬ m.IsOperand ∧
      ((∃ t, compile (.str (Loop.alone (grouped e))) = .ok t) ∧
        ∀ (parameters : Fields Json) (o : Options),
          (expand (.str (Loop.alone (grouped e))) (.obj parameters) o).mapError
              TemplateError.describe
            = (expand (.str (Loop.alone e)) (.obj parameters) o).mapError TemplateError.describe) ∧
      ∀ t, compile (.str (Loop.alone (grouped word))) ≠ .ok t := by
  have hb := gap_blank
  have hone : Writing.Writes .atom (.number (.int 1 (by decide)) (.empty 0))
      (toString (1 : Int)).toList := .number rfl rfl
  have ha : Writing.WritesPath ⟨[⟨"a", false⟩]⟩ "a".toList :=
    .mk ⟨⟨'a', [], rfl, rfl⟩, List.forall_mem_singleton.2 rfl, by decide⟩ .nil (by decide)
  have hsum : Writing.WritesStatement _ "1 + a".toList :=
    .operand (.operation .add hone hb hb (.atom (.path ha)))
  have htrue : Writing.WritesStatement _ "true".toList := .literal (.bool true)
  have hoperand : Node.IsOperand (.arithmetic .add (.number (.int 1 (by decide)) (.empty 0))
      (.path ⟨[⟨"a", false⟩]⟩ (.empty 0)) (.empty 0)) := ⟨trivial, rfl, by decide, by decide⟩
  have htext := isExpressionText_of_writes hsum hoperand.isExpression (by decide)
  have hword := isExpressionText_of_writes htrue trivial (by decide)
  exact ⟨_, _, _, _, rfl, rfl, htext, hoperand, hword, id, (expand_grouped htext).1 hoperand,
    (expand_grouped hword).2 id⟩

/-- A truth value is none in brackets. -/
theorem compile_grouped_true :
    (∃ t, compile (.str (Loop.alone "true")) = .ok t) ∧
      ¬ ∃ t, compile (.str (Loop.alone (grouped "true"))) = .ok t := by
  have hok : (compile (.str (Loop.alone "true"))).isOk = true := by decide +kernel
  have hno : (compile (.str (Loop.alone (grouped "true")))).isOk = false := by decide +kernel
  constructor
  · cases h : compile (.str (Loop.alone "true")) with
    | ok t => exact ⟨t, rfl⟩
    | error x =>
        rw [h] at hok
        cases hok
  · rintro ⟨t, ht⟩
    rw [ht] at hno
    cases hno

end Template
end JsonTemplate
