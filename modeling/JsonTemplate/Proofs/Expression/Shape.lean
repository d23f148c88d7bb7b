import JsonTemplate.Proofs.Expression.WordRules
import JsonTemplate.Proofs.Rule.Yields
import JsonTemplate.Proofs.Tree.Shape

/-!
What the rules of expressions make. Each symbol stands for nodes of one shape; given that
the symbols a rule refers to keep to theirs, so does what the rule makes.
-/

namespace JsonTemplate

/-- The nodes that a symbol stands for. -/
def Symbol.Shape : Symbol → Node → Prop
  | .document => Node.IsDocument
  | .expression | .leftOfNullish => fun n => n.IsExpression ∧ n.IsSimple
  | .comparison => Node.IsCondition
  | .nullish => fun n => n.IsExpression ∧ n.isTernary = false
  | .operand | .operation => Node.IsOperand
  | .operandGroup | .leftOfOperation => Node.IsAtom
  | .group | .leftOfComparison => Node.IsTerm
  | .insideGroup => Node.IsExpression

theorem Rule.Yields.node {tokens : Stream} {call : Symbol → Nat → Outcome Rules.Piece}
    {r : Rules.TemplateRule} {p q : Node → Prop} (h : Yields tokens call r (Rules.HasNode p))
    (hpq : ∀ n, p n → q n) : Yields tokens call r (Rules.HasNode q) :=
  h.imp fun _ hn => hn.imp hpq

namespace Rules

open Rule Node

variable {tokens : Stream} {call : Symbol → Nat → Outcome Piece}

/-! Words -/

theorem yields_number : Yields tokens call number (HasNode IsAtom) := by
  refine yields_map (yields_any _) fun inner payload _ hb => ?_
  obtain ⟨s, -, hb⟩ := buildText_eq_ok hb
  split at hb
  · exact ⟨_, made_eq_ok hb, trivial, rfl⟩
  · cases hb

theorem Denotes.bounded {text : List Char} {p : VariablePath} (h : Denotes text p) :
    p.Bounded := by
  refine ⟨List.length_pos_iff.2 fun hnil => ?_, h.short⟩
  have hspells := Variable.spellsPath_of_path? h.whole
  rw [hnil] at hspells
  cases hspells

theorem buildVariable_eq_ok {text : List Char} {span : Span} {payload : Payload Fragment}
    (h : buildVariable text span = .ok (some payload)) :
    ∃ p, Denotes text p ∧ payload = .value (.node (.path p span)) := by
  simp only [buildVariable] at h
  split at h
  · cases h
  · next hfree =>
      split at h
      · next parts width hp =>
          split at h
          · cases h
          · next hl =>
              split at h
              · next hw =>
                  rw [hw] at hp
                  exact ⟨⟨parts⟩, ⟨hp, by simpa using hfree, Nat.le_of_not_lt hl⟩, made_eq_ok h⟩
              · cases h
      · cases h

/-- A path, for a place where a path must stand. -/
def IsPath (n : Node) : Prop := ∃ p span, n = .path p span ∧ p.Bounded

theorem yields_path_node : Yields tokens call path (HasNode IsPath) := by
  refine yields_map (yields_any _) fun inner payload _ hb => ?_
  obtain ⟨s, -, hb⟩ := buildText_eq_ok hb
  obtain ⟨p, hp, rfl⟩ := buildVariable_eq_ok hb
  exact ⟨_, rfl, p, inner.1, rfl, hp.bounded⟩

theorem yields_path : Yields tokens call path (HasNode IsAtom) := by
  apply yields_path_node.node
  intro n hp
  obtain ⟨p, span, rfl, hp⟩ := hp
  exact ⟨hp, rfl⟩

theorem yields_made {item : TemplateRule} {build : Piece → Build Fragment} {p : Node → Prop}
    (hb : ∀ inner, ∃ n, build inner = made n ∧ p n) :
    Yields tokens call (.map item build) (HasNode p) := by
  refine yields_map (yields_any _) fun inner payload _ h => ?_
  obtain ⟨n, hn, hp⟩ := hb inner
  rw [hn] at h
  exact ⟨n, made_eq_ok h, hp⟩

theorem yields_text {item : TemplateRule} {node : List Char → Span → Node} {p : Node → Prop}
    (hn : ∀ text span, p (node text span)) :
    Yields tokens call (.map item (buildText fun text span => made (node text span)))
      (HasNode p) := by
  refine yields_map (yields_any _) fun inner payload _ h => ?_
  obtain ⟨s, -, hb⟩ := buildText_eq_ok h
  exact ⟨_, made_eq_ok hb, hn _ _⟩

/-- Words and strings are terms. -/
theorem yields_literal : ∀ r ∈ literalRules, Yields tokens call r (HasNode IsTerm) := by
  intro r hr
  simp only [literalRules, List.mem_cons, List.not_mem_nil, or_false] at hr
  obtain rfl | rfl | rfl | rfl | rfl | rfl := hr
  · exact yields_number.node fun n hn => hn.1.isTerm
  · exact yields_text fun text span => ⟨trivial, rfl, rfl, rfl⟩
  · exact yields_made fun inner => ⟨_, rfl, trivial, rfl, rfl, rfl⟩
  · exact yields_made fun inner => ⟨_, rfl, trivial, rfl, rfl, rfl⟩
  · exact yields_path.node fun n hn => hn.1.isTerm
  · exact yields_text fun text span => ⟨trivial, rfl, rfl, rfl⟩

/-! Operators -/

theorem yields_parenthesized {inner : TemplateRule} {p : Node → Prop}
    (h : Yields tokens call inner (HasNode p)) :
    Yields tokens call (parenthesized inner) (HasNode fun n => ∃ m span, n = .group m span ∧ p m) := by
  refine yields_sequence (yieldsAll_cons (yields_any (.char '(')) (yieldsAll_cons (yields_any space)
    (yieldsAll_cons h (yieldsAll_cons (yields_any space)
      (yieldsAll_cons (yields_any (.char ')')) yieldsAll_nil))))) ?_
  rintro span _ payload ⟨_, _, rfl, -, _, _, rfl, -, inner, _, rfl, ⟨m, hm, hp⟩, _, _, rfl, -, _, _,
    rfl, -, rfl⟩ hb
  obtain ⟨n, hn, rfl⟩ := shaped_eq_ok hb
  rw [node?_of_payload hm] at hn
  cases hn
  exact ⟨_, rfl, m, span, rfl, hp⟩

section Symbols

variable (hcall : ∀ symbol, Yields tokens call (.ref symbol) (HasNode symbol.Shape))

include hcall

theorem yields_comparison : Yields tokens call comparison (HasNode IsCondition) := by
  refine yields_sequence (yieldsAll_cons (hcall .leftOfComparison) (yieldsAll_cons (yields_any space)
    (yieldsAll_cons (yields_any _) (yieldsAll_cons (yields_any space)
      (yieldsAll_cons (yields_required (hcall .expression) _) yieldsAll_nil))))) ?_
  rintro span _ payload ⟨left, _, rfl, ⟨l, hl, hleft⟩, _, _, rfl, -, sign, _, rfl, -, _, _, rfl, -,
    right, _, rfl, ⟨r, hr, hright⟩, rfl⟩ hb
  obtain ⟨n, hn, rfl⟩ := shaped_eq_ok hb
  simp only [node?_of_payload hl, node?_of_payload hr, Option.bind_eq_bind, Option.bind_some] at hn
  obtain ⟨op, -, hn⟩ := Option.bind_eq_some_iff.1 hn
  cases hn
  exact ⟨_, rfl, ⟨hleft, hright⟩, rfl⟩

theorem yields_operation : Yields tokens call operation (HasNode IsOperand) := by
  refine yields_sequence (yieldsAll_cons (hcall .leftOfOperation) (yieldsAll_cons (yields_any space)
    (yieldsAll_cons (yields_any _) (yieldsAll_cons (yields_any space)
      (yieldsAll_cons (hcall .operand) yieldsAll_nil))))) ?_
  rintro span _ payload ⟨left, _, rfl, ⟨l, hl, hleft⟩, _, _, rfl, -, sign, _, rfl, -, _, _, rfl, -,
    right, _, rfl, ⟨r, hr, hright⟩, rfl⟩ hb
  obtain ⟨n, hn, rfl⟩ := shaped_eq_ok hb
  simp only [node?_of_payload hl, node?_of_payload hr, Option.bind_eq_bind, Option.bind_some] at hn
  obtain ⟨op, -, hn⟩ := Option.bind_eq_some_iff.1 hn
  cases hn
  exact ⟨_, rfl, hleft.1, hleft.2, hright⟩

theorem yields_nullish :
    Yields tokens call nullish (HasNode fun n => n.IsExpression ∧ n.isTernary = false) := by
  have hright : Yields tokens call (.oneOf [.ref .nullish, .ref .expression])
      (HasNode fun n => n.IsExpression ∧ n.isTernary = false) := by
    apply yields_oneOf
    intro r hr
    simp only [List.mem_cons, List.not_mem_nil, or_false] at hr
    obtain rfl | rfl := hr
    · exact hcall .nullish
    · exact (hcall .expression).node fun n hn => ⟨hn.1, hn.2.1⟩
  refine yields_sequence (yieldsAll_cons (hcall .leftOfNullish) (yieldsAll_cons (yields_any space)
    (yieldsAll_cons (yields_any _) (yieldsAll_cons (yields_any space)
      (yieldsAll_cons hright yieldsAll_nil))))) ?_
  rintro span _ payload ⟨left, _, rfl, ⟨l, hl, hleft⟩, _, _, rfl, -, _, _, rfl, -, _, _, rfl, -,
    right, _, rfl, ⟨r, hr, hright⟩, rfl⟩ hb
  obtain ⟨n, hn, rfl⟩ := shaped_eq_ok hb
  rw [node?_of_payload hl, node?_of_payload hr] at hn
  cases hn
  exact ⟨_, rfl, ⟨hleft, hright⟩, rfl⟩

theorem yields_ternary : Yields tokens call ternary (HasNode IsExpression) := by
  refine yields_sequence (yieldsAll_cons (yields_required (hcall .comparison) _)
    (yieldsAll_cons (yields_any space) (yieldsAll_cons (yields_any _)
      (yieldsAll_cons (yields_any space) (yieldsAll_cons (yields_required (hcall .expression) _)
        (yieldsAll_cons (yields_any space) (yieldsAll_cons (yields_any _)
          (yieldsAll_cons (yields_any space)
            (yieldsAll_cons (yields_required (hcall .expression) _) yieldsAll_nil))))))))) ?_
  rintro span _ payload ⟨condition, _, rfl, ⟨c, hc, hcondition⟩, _, _, rfl, -, _, _, rfl, -, _, _,
    rfl, -, yes, _, rfl, ⟨y, hy, hyes⟩, _, _, rfl, -, _, _, rfl, -, _, _, rfl, -, no, _, rfl,
    ⟨k, hk, hno⟩, rfl⟩ hb
  obtain ⟨n, hn, rfl⟩ := shaped_eq_ok hb
  rw [node?_of_payload hc, node?_of_payload hy, node?_of_payload hk] at hn
  cases hn
  exact ⟨_, rfl, hcondition, hyes, hno⟩

theorem yields_term : ∀ r ∈ termRules, Yields tokens call r (HasNode IsTerm) := by
  intro r hr
  simp only [termRules, List.mem_cons] at hr
  obtain rfl | rfl | hr := hr
  · exact (hcall .operand).node fun n hn => IsOperand.isTerm hn
  · exact hcall .group
  · exact yields_literal r hr

theorem yields_expression :
    Yields tokens call expression (HasNode fun n => n.IsExpression ∧ n.IsSimple) := by
  rw [expression_eq]
  apply yields_oneOf
  intro r hr
  cases hr with
  | head => exact (hcall .comparison).node fun n hn => ⟨hn.1, IsCondition.isSimple hn⟩
  | tail _ hr => exact (yields_term hcall r hr).node fun n hn => ⟨hn.1, hn.2.2⟩

theorem yields_insideGroup : Yields tokens call (body .insideGroup) (HasNode IsExpression) := by
  apply yields_oneOf
  intro r hr
  simp only [List.mem_cons] at hr
  obtain rfl | rfl | hr := hr
  · exact (hcall .comparison).node fun n hn => hn.1
  · exact (hcall .operand).node fun n hn => IsOperand.isExpression hn
  · exact (yields_literal r hr).node fun n hn => hn.1

theorem yields_group : Yields tokens call group (HasNode IsTerm) := by
  have hinner : Yields tokens call (.oneOf [ternary, .ref .nullish, .ref .insideGroup])
      (HasNode IsExpression) := by
    apply yields_oneOf
    intro r hr
    simp only [List.mem_cons, List.not_mem_nil, or_false] at hr
    obtain rfl | rfl | rfl := hr
    · exact yields_ternary hcall
    · exact (hcall .nullish).node fun n hn => hn.1
    · exact hcall .insideGroup
  apply (yields_parenthesized hinner).node
  intro n hn
  obtain ⟨m, span, rfl, hm⟩ := hn
  exact ⟨hm, rfl, rfl, rfl⟩

theorem yields_operandGroup : Yields tokens call (body .operandGroup) (HasNode IsAtom) := by
  apply (yields_parenthesized (hcall .operand)).node
  intro n hn
  obtain ⟨m, span, rfl, hm⟩ := hn
  exact ⟨hm, rfl⟩

theorem yields_atom :
    ∀ r ∈ [.ref .operandGroup, number, path], Yields tokens call r (HasNode IsAtom) := by
  intro r hr
  simp only [List.mem_cons, List.not_mem_nil, or_false] at hr
  obtain rfl | rfl | rfl := hr
  · exact hcall .operandGroup
  · exact yields_number
  · exact yields_path

theorem yields_operand : Yields tokens call operand (HasNode IsOperand) := by
  apply yields_oneOf
  intro r hr
  cases hr with
  | head => exact hcall .operation
  | tail _ hr => exact (yields_atom hcall r hr).node fun n hn => hn.1

/-- Given what symbols stand for, the bodies of those of expressions make it. -/
theorem yields_body {symbol : Symbol} (hs : symbol ≠ .document) :
    Yields tokens call (body symbol) (HasNode symbol.Shape) := by
  cases symbol with
  | document => exact absurd rfl hs
  | expression | leftOfNullish => exact yields_expression hcall
  | comparison => exact yields_comparison hcall
  | nullish => exact yields_nullish hcall
  | group => exact yields_group hcall
  | operand => exact yields_operand hcall
  | operation => exact yields_operation hcall
  | operandGroup => exact yields_operandGroup hcall
  | leftOfComparison => exact yields_oneOf (yields_term hcall)
  | leftOfOperation => exact yields_oneOf (yields_atom hcall)
  | insideGroup => exact yields_insideGroup hcall

end Symbols

end Rules
end JsonTemplate
