import JsonTemplate.Proofs.Expression.Determinism
import JsonTemplate.Proofs.Expression.Interpolations
import JsonTemplate.Proofs.Expression.Spellings

/-!
Expressions as statements. A statement that is an expression takes a text whose brackets
balance, and an operand is spelled. With brackets around it, an operand is an operand again;
what is no operand cannot be read there, for a group is no statement, and only operators that
do not follow make it a part of one.
-/

namespace JsonTemplate
namespace Rules

open Rule Brackets

/-! What is no operand -/

section Yields

variable {tokens : Stream} {call : Symbol → Nat → Outcome Piece}

/-- A tree that is no operand. -/
def NoOperandNode : Payload Fragment → Prop := HasNode fun m => ¬ m.bare.IsOperand

/-- A tree that is no expression. -/
def NoExpressionNode : Payload Fragment → Prop := HasNode fun m => ¬ m.bare.IsExpression

theorem yields_built {parts : List TemplateRule} {build : Span → List Piece → Build Fragment}
    {P : Payload Fragment → Prop}
    (h : ∀ span pieces payload, build span pieces = .ok (some payload) → P payload) :
    Yields tokens call (.sequence parts (some build)) P := by
  intro start parsed hr
  obtain ⟨stop, pieces, -, hbuild, -⟩ := run_sequence_matched hr
  exact h _ pieces _ hbuild

theorem yields_ternary_node : Yields tokens call ternary NoOperandNode := by
  refine yields_built fun span pieces payload hb => ?_
  unfold buildTernary at hb
  split at hb
  · obtain ⟨n, hn, rfl⟩ := shaped_eq_ok hb
    simp only [Option.bind_eq_bind, Option.bind_eq_some_iff] at hn
    obtain ⟨_, -, _, -, _, -, hn⟩ := hn
    cases hn
    exact ⟨_, rfl, id⟩
  · cases hb

theorem yields_nullish_node : Yields tokens call nullish NoOperandNode := by
  refine yields_built fun span pieces payload hb => ?_
  unfold buildNullish at hb
  split at hb
  · obtain ⟨n, hn, rfl⟩ := shaped_eq_ok hb
    simp only [Option.bind_eq_bind, Option.bind_eq_some_iff] at hn
    obtain ⟨_, -, _, -, hn⟩ := hn
    cases hn
    exact ⟨_, rfl, id⟩
  · cases hb

theorem yields_comparison_node : Yields tokens call comparison NoOperandNode := by
  refine yields_built fun span pieces payload hb => ?_
  unfold buildComparison at hb
  split at hb
  · obtain ⟨n, hn, rfl⟩ := shaped_eq_ok hb
    simp only [Option.bind_eq_bind, Option.bind_eq_some_iff] at hn
    obtain ⟨_, -, _, -, _, -, hn⟩ := hn
    cases hn
    exact ⟨_, rfl, id⟩
  · cases hb

theorem yields_guarded_node {first : TemplateRule} {node : Node → Span → Node}
    (h : ∀ guard span, ¬ (node guard span).bare.IsExpression) :
    Yields tokens call (guarded first node) NoExpressionNode := by
  refine yields_built fun span pieces payload hb => ?_
  unfold buildGuard at hb
  split at hb
  · obtain ⟨n, hn, rfl⟩ := shaped_eq_ok hb
    obtain ⟨guard, -, rfl⟩ := Option.map_eq_some_iff.1 hn
    exact ⟨_, rfl, h guard span⟩
  · cases hb

theorem yields_conditional_node : Yields tokens call conditional NoExpressionNode := by
  refine yields_oneOf fun r hr => ?_
  simp only [List.mem_cons, List.not_mem_nil, or_false] at hr
  obtain rfl | rfl | rfl := hr
  · exact yields_guarded_node fun _ _ => id
  · exact yields_guarded_node fun _ _ => id
  · exact yields_made fun _ => ⟨_, rfl, id⟩

theorem yields_each_node : Yields tokens call each NoExpressionNode := by
  refine yields_built fun span pieces payload hb => ?_
  unfold buildEach at hb
  split at hb
  · split at hb
    · split at hb
      · cases hb
      · exact ⟨_, made_eq_ok hb, id⟩
    · cases hb
  · cases hb

theorem yields_comment_node : Yields tokens call comment NoExpressionNode :=
  yields_text fun _ _ => id

end Yields

/-! What statements take -/

/-- As an expression, the tree takes a text that balances; as an operand, one that spells it. -/
def IsExpressionOf (t : List Char) (payload : Payload Fragment) : Prop :=
  ∀ n, IsNode n payload → (n.IsExpression → Balanced t) ∧ (n.IsOperand → SpellsOperand n t)

theorem IsOperandOf.isExpressionOf {t : List Char} {payload : Payload Fragment}
    (h : IsOperandOf t payload) : IsExpressionOf t payload := by
  obtain ⟨n, hn, hs⟩ := h
  intro m hm
  obtain rfl := isNode_unique hn hm
  exact ⟨fun _ => hs.balanced, fun _ => hs⟩

section Takes

variable {tokens : Stream} {call : Symbol → Nat → Outcome Piece} {r : TemplateRule}

theorem takes_no_operand (h : Takes tokens call r fun t _ => Balanced t)
    (hn : Yields tokens call r NoOperandNode) : Takes tokens call r IsExpressionOf := by
  intro start parsed hr
  obtain ⟨t, rest, hrest, hspan, ht⟩ := h start parsed hr
  refine ⟨t, rest, hrest, hspan, ?_⟩
  rintro _ ⟨m, hm, rfl⟩
  obtain ⟨m', hm', hno⟩ := hn start parsed hr
  cases hm.symm.trans hm'
  exact ⟨fun _ => ht, fun ho => absurd ho hno⟩

theorem takes_no_expression (h : Takes tokens call r fun _ _ => True)
    (hn : Yields tokens call r NoExpressionNode) : Takes tokens call r IsExpressionOf := by
  intro start parsed hr
  obtain ⟨t, rest, hrest, hspan, -⟩ := h start parsed hr
  refine ⟨t, rest, hrest, hspan, ?_⟩
  rintro _ ⟨m, hm, rfl⟩
  obtain ⟨m', hm', hno⟩ := hn start parsed hr
  cases hm.symm.trans hm'
  exact ⟨fun he => absurd he hno, fun ho => absurd ho.isExpression hno⟩

end Takes

variable {tokens : Stream} {n : Node} {a b w s rest close : List Char}

theorem takes_statement (hc : tokens.Coherent) :
    Takes tokens (run tokens) statement IsExpressionOf := by
  have hcall : ∀ symbol, symbol ≠ .document →
      Takes tokens (run tokens) (.ref symbol) (SpelledAs symbol) := fun _ => parse_takes hc _
  have hbody : ∀ symbol, (body symbol).run tokens (run tokens)
      = (Rule.ref symbol : TemplateRule).run tokens (run tokens) := fun symbol =>
    (run_eq_body hc symbol).symm
  have hword : ∀ r ∈ literalRules, Yields tokens (run tokens) r NoOperandNode →
      Takes tokens (run tokens) r IsExpressionOf := fun r hr =>
    takes_no_operand (takes_literal r hr)
  refine takes_oneOf fun r hr => ?_
  simp only [List.mem_cons, List.not_mem_nil, or_false] at hr
  obtain rfl | rfl | rfl | rfl | rfl | rfl | rfl | rfl | rfl | rfl | rfl | rfl | rfl := hr
  · exact takes_no_expression (takes_any hc literary_conditional) yields_conditional_node
  · exact takes_no_expression (takes_any hc literary_each) yields_each_node
  · exact takes_no_operand (takes_ternary hc hcall) yields_ternary_node
  · refine takes_no_operand (takes_symbol hcall nofun) fun start parsed hr => ?_
    rw [← hbody] at hr
    exact yields_nullish_node start parsed hr
  · exact takes_no_expression (takes_any hc literary_comment) yields_comment_node
  · refine takes_no_operand (takes_symbol hcall nofun) fun start parsed hr => ?_
    rw [← hbody] at hr
    exact yields_comparison_node start parsed hr
  · exact (hcall .operand nofun).imp fun _ _ => IsOperandOf.isExpressionOf
  · exact hword null (by simp [literalRules]) (yields_made fun _ => ⟨_, rfl, id⟩)
  · exact hword undefined (by simp [literalRules]) (yields_made fun _ => ⟨_, rfl, id⟩)
  · exact hword boolean (by simp [literalRules]) (yields_text fun _ _ => id)
  · exact takes_number.imp fun _ _ h => h.isOperandOf.isExpressionOf
  · exact takes_path.imp fun _ _ h => h.isOperandOf.isExpressionOf
  · exact hword quoted (by simp [literalRules]) (yields_text fun _ _ => id)

/-- A statement that is an expression. -/
structure ReadsExpression (n : Node) (w rest : List Char) : Prop where
  read : Reads statement w rest (IsNode n)
  expression : n.IsExpression

theorem ReadsExpression.balanced (h : ReadsExpression n w rest) : Balanced w := by
  obtain ⟨payload, hn, ht⟩ := h.read.takes fun _ => takes_statement
  exact (ht n hn).1 h.expression

theorem ReadsExpression.spells (h : ReadsExpression n w rest) (ho : n.IsOperand) :
    SpellsOperand n w := by
  obtain ⟨payload, hn, ht⟩ := h.read.takes fun _ => takes_statement
  exact (ht n hn).2 ho

/-- An expression is read by a rule that does not stand for something else. -/
theorem refuses_of_no_expression {r : TemplateRule} {rules : List TemplateRule} (hr : Literary r)
    (h : Reads (.oneOf (r :: rules)) w rest (IsNode n)) (hn : n.IsExpression)
    (hno : ∀ tokens : Stream, Yields tokens (run tokens) r NoExpressionNode) :
    Refuses r (w ++ rest) := by
  obtain ⟨head, behind, p, he, hread⟩ | hrefuses := reads_or_refuses hr (w ++ rest)
  · have hfirst := hread.yields fun tokens _ => hno tokens
    obtain ⟨-, -, payload, ⟨m, hm, rfl⟩, m', hm', hbare⟩ :=
      h.unique (reads_oneOf_head hfirst) he
    cases hm.symm.trans hm'
    exact absurd hn hbare
  · exact hrefuses

/-- The rules for conditions and loops do not take part in what is read of an expression. -/
theorem ReadsExpression.read_value (h : ReadsExpression n w rest) :
    Reads (.oneOf [ternary, .ref .nullish, comment, .ref .comparison, .ref .operand, null,
      undefined, boolean, number, path, quoted]) w rest (IsNode n) := by
  have hconditional := refuses_of_no_expression literary_conditional h.read h.expression
    fun _ => yields_conditional_node
  have hrest := reads_oneOf_rest h.read hconditional
  exact reads_oneOf_rest hrest (refuses_of_no_expression literary_each hrest h.expression
    fun _ => yields_each_node)

/-! Brackets around statements -/

/-- A text that ends in a blank does not finish. -/
theorem not_finishes (hb : Gap b) : ¬ Finishes (w ++ b) := by
  rintro ⟨front, c, he, hc⟩
  rw [← List.dropLast_concat_getLast hb.ne_nil, ← List.append_assoc] at he
  obtain ⟨-, hlast⟩ := List.append_inj' he rfl
  rw [← List.singleton_inj.1 hlast, hb.all_isGap _ (List.getLast_mem hb.ne_nil)] at hc
  cases hc

/-- In brackets, what stands behind an expression is an operand only if the expression is. -/
theorem refuses_operandGroup_other (h : ReadsExpression n w (b ++ close)) (ho : ¬ n.IsOperand)
    (ha : ∀ c ∈ a, isGap c = true) (hw : Avoids isGap (w ++ b)) (hb : ∀ c ∈ b, isGap c = true)
    (hf : ¬ Finishes (w ++ b)) (hg : Avoids isGap close) (he : EndsValue close) :
    Refuses (.ref .operandGroup) ('(' :: (a ++ (w ++ b)) ++ ')' :: rest) := by
  apply refuses_ref
  refine (reads_or_refuses (@literary_body .operandGroup nofun) _).resolve_left ?_
  rintro ⟨head, behind, p, heq, hread⟩
  have hgroup := hread.takes fun tokens hc => takes_parenthesized hc (parse_takes hc _ nofun)
  obtain ⟨payload, -, a', s, b', content, rfl, ha', hb', ⟨m, -, hs⟩, -⟩ := hgroup
  -- The brackets close at the same place, so there are the same characters between them.
  have hclose : (a ++ (w ++ b)) ++ ')' :: rest = (a' ++ (s ++ b')) ++ ')' :: behind := by
    simpa only [List.cons_append, List.append_assoc, List.nil_append, List.cons.injEq, true_and]
      using heq
  have hinner : a ++ (w ++ b) = a' ++ (s ++ b') := by
    refine Balanced.unique ?_ ?_ hclose
    · exact (balanced_blanks ha).append (h.balanced.append (balanced_blanks hb))
    · exact (balanced_blanks ha').append (hs.balanced.append (balanced_blanks hb'))
  obtain ⟨rfl, hsame, -⟩ := (reads_blanks ha hw).unique
    (reads_blanks ha' (hs.starts.begins.avoids b')) hinner
  have hgap : Gap b' := by
    refine ⟨?_, hb'⟩
    rintro rfl
    rw [List.append_nil] at hsame
    exact hf (hsame ▸ hs.finishes)
  -- So the operand is what is read of the statement, too.
  have hends := before hgap hg he
  have hvalue := fun rules => reads_value hs.starts (read_term (read_operand hs.read.2)) hends
    (@reads_operand_unsigned m _ s rules hs.read.2 hends)
  have hall : w ++ (b ++ close) = s ++ (b' ++ close) := by
    rw [← List.append_assoc, hsame, List.append_assoc]
  obtain ⟨-, -, payload, hn, hm⟩ := h.read_value.unique (hvalue _) hall
  cases isNode_unique hn hm
  exact ho hs.isOperand

theorem refuses_literal_bracket (more : List Char) :
    ∀ r ∈ literalRules, Refuses r ('(' :: more) := by
  have hword : firstWord ('(' :: more) = "" := firstWord_of_avoids (avoids_cons rfl _)
  intro r hr
  simp only [literalRules, List.mem_cons, List.not_mem_nil, or_false] at hr
  obtain rfl | rfl | rfl | rfl | rfl | rfl := hr
  · exact refuses_number (avoids_cons rfl _)
  · exact refuses_boolean (by rw [hword]; decide) (by rw [hword]; decide)
  · exact refuses_null (by rw [hword]; decide)
  · exact refuses_undefined (by rw [hword]; decide)
  · exact refuses_path (avoids_cons rfl _)
  · exact refuses_quoted (avoids_cons rfl _)

/-- A group takes what its brackets enclose, if it takes anything. -/
theorem reads_or_refuses_group {inner : List Char} (hi : Balanced inner) (rest : List Char) :
    (∃ P, Reads (.ref .group) ('(' :: (inner ++ [')'])) rest P) ∨
      Refuses (.ref .group) ('(' :: (inner ++ [')']) ++ rest) := by
  apply (reads_or_refuses (@literary_ref .group nofun) _).imp_left
  rintro ⟨head, behind, p, heq, hread⟩
  obtain ⟨payload, -, other, rfl, ho⟩ := hread.takes fun tokens hc => parse_takes hc _ nofun
  have hclose : inner ++ ')' :: rest = other ++ ')' :: behind := by
    simpa only [List.cons_append, List.append_assoc, List.nil_append, List.cons.injEq, true_and]
      using heq
  obtain rfl := hi.unique ho hclose
  obtain rfl := List.append_cancel_left heq
  exact ⟨_, hread⟩

/-- A group that is no operand is no statement, nor does one begin with it where nothing
follows. -/
theorem refuses_statement_group {inner : List Char} (hi : Balanced inner)
    (h : Refuses (.ref .operandGroup) ('(' :: (inner ++ [')']) ++ rest))
    (hr : Before EndsValue rest) : Refuses statement ('(' :: (inner ++ [')']) ++ rest) := by
  have hliteral := refuses_literal_bracket (inner ++ [')'] ++ rest)
  have hoperand : Refuses (.ref .operand) ('(' :: (inner ++ [')']) ++ rest) :=
    refuses_operand h (hliteral _ List.mem_cons_self) (hliteral _ (by simp [literalRules]))
  -- On the left of an operator the group may stand, but no operator follows.
  have hoperators : Refuses (.ref .comparison) ('(' :: (inner ++ [')']) ++ rest) ∧
      Refuses (.ref .nullish) ('(' :: (inner ++ [')']) ++ rest) := by
    obtain ⟨P, hgroup⟩ | hgroup := reads_or_refuses_group hi rest
    · have hleft : Reads (body .leftOfComparison) ('(' :: (inner ++ [')'])) rest P :=
        reads_oneOf_tail hoperand (reads_oneOf_head hgroup)
      have hcomparison := refuses_comparison_unsigned hleft
        (hr.imp fun _ he => he.expression.sign)
      exact ⟨hcomparison, refuses_nullish_unmarked (reads_oneOf_tail hcomparison hleft)
        (hr.imp fun _ => EndsValue.mark)⟩
    · have hterm : ∀ r ∈ termRules, Refuses r ('(' :: (inner ++ [')']) ++ rest) :=
        List.forall_mem_cons.2 ⟨hoperand, List.forall_mem_cons.2 ⟨hgroup, hliteral⟩⟩
      have hcomparison := refuses_comparison (refuses_ref (refuses_oneOf hterm))
      have hexpression : Refuses expression ('(' :: (inner ++ [')']) ++ rest) :=
        refuses_oneOf (List.forall_mem_cons.2 ⟨hcomparison, hterm⟩)
      have hnullish : Refuses nullish ('(' :: (inner ++ [')']) ++ rest) :=
        refuses_sequence (refusesAll_head (refuses_ref hexpression))
      exact ⟨hcomparison, refuses_ref hnullish⟩
  have hword : firstWord ('(' :: (inner ++ [')']) ++ rest) = "" :=
    firstWord_of_avoids (avoids_cons rfl _)
  refine refuses_oneOf fun r hmem => ?_
  simp only [List.mem_cons, List.not_mem_nil, or_false] at hmem
  obtain rfl | rfl | rfl | rfl | rfl | rfl | rfl | hmem := hmem
  · exact refuses_conditional (by rw [hword]; decide)
  · exact refuses_each (by rw [hword]; decide)
  · exact refuses_ternary hoperators.1
  · exact hoperators.2
  · exact refuses_comment (avoids_cons rfl _)
  · exact hoperators.1
  · exact hoperand
  · apply hliteral r
    simp only [literalRules, List.mem_cons, List.not_mem_nil, or_false]
    grind

end Rules
end JsonTemplate
