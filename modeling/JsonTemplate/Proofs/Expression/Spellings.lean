import JsonTemplate.Proofs.Expression.OperandSyntax
import JsonTemplate.Proofs.Rule.Texts

/-!
How matches are spelled. The brackets of every text that a symbol of expressions takes balance,
and an operand takes a text that spells what it makes; the rules take this over from the
symbols that they call, so it holds by induction on the calls.
-/

namespace JsonTemplate
namespace Rules

open Rule Brackets

/-- An operand that the text spells. -/
def IsOperandOf (t : List Char) (payload : Payload Fragment) : Prop :=
  ∃ n, IsNode n payload ∧ SpellsOperand n t

/-- An operand that the text spells, and no operation. -/
def IsAtomOf (t : List Char) (payload : Payload Fragment) : Prop :=
  ∃ n, IsNode n payload ∧ SpellsOperand n t ∧ n.isArithmetic = false

/-- What the matches of a symbol take, and make of it. -/
def SpelledAs : Symbol → List Char → Payload Fragment → Prop
  | .operand, t | .operation, t => IsOperandOf t
  | .operandGroup, t | .leftOfOperation, t => IsAtomOf t
  | .group, t => fun _ => ∃ inner, t = '(' :: (inner ++ [')']) ∧ Balanced inner
  | _, t => fun _ => Balanced t

theorem IsOperandOf.balanced {t : List Char} {payload : Payload Fragment}
    (h : IsOperandOf t payload) : Balanced t := by
  obtain ⟨n, -, hn⟩ := h
  exact hn.balanced

theorem IsAtomOf.isOperandOf {t : List Char} {payload : Payload Fragment}
    (h : IsAtomOf t payload) : IsOperandOf t payload := by
  obtain ⟨n, hp, hn, -⟩ := h
  exact ⟨n, hp, hn⟩

theorem balanced_of_spelledAs {symbol : Symbol} {t : List Char} {payload : Payload Fragment}
    (h : SpelledAs symbol t payload) : Balanced t := by
  cases symbol with
  | operand | operation => exact IsOperandOf.balanced h
  | operandGroup | leftOfOperation => exact (IsAtomOf.isOperandOf h).balanced
  | group =>
      obtain ⟨inner, rfl, hinner⟩ := h
      exact balanced_group hinner
  | _ => exact h

variable {tokens : Stream} {call : Symbol → Nat → Outcome Piece}

/-! Words -/

theorem takes_space (hc : tokens.Coherent) :
    Takes tokens call space fun t payload =>
      (∀ c ∈ t, isGap c = true) ∧ (payload = .repeated [] → t = []) := by
  refine takes_many (L := fun t => ∀ c ∈ t, isGap c = true) (List.forall_mem_nil _)
    (fun hs ht => List.forall_mem_append.2 ⟨hs, ht⟩) hc ?_
  apply takes_oneOf
  intro r hr
  simp only [List.mem_cons, List.not_mem_nil, or_false] at hr
  obtain rfl | rfl | rfl | rfl := hr <;>
    exact (takes_char _).imp fun _ _ ht => by rw [ht]; exact List.forall_mem_singleton.2 rfl

theorem takes_blanks (hc : tokens.Coherent) :
    Takes tokens call space fun t _ => ∀ c ∈ t, isGap c = true :=
  (takes_space hc).imp fun _ _ => And.left

theorem takes_number : Takes tokens call number IsAtomOf := by
  refine takes_map (takes_pattern (P := fun t payload => Literal.SpellsNumber t ∧
    payload = .text (String.ofList t)) fun run hw => ?_) ?_
  · obtain ⟨t, rest, rfl, hwidth, ht⟩ := Literal.numberWidth_sound hw
    rw [hwidth, List.take_left]
    exact ⟨ht, rfl⟩
  · rintro span t _ built ⟨ht, rfl⟩ hb
    simp only [buildText, String.toList_ofList] at hb
    split at hb
    · next k hk => exact ⟨_, ⟨_, made_eq_ok hb, rfl⟩, .number ht hk, rfl⟩
    · cases hb

theorem takes_path : Takes tokens call path IsAtomOf := by
  refine takes_map (takes_pattern (P := fun t payload => payload = .text (String.ofList t))
    fun _ _ => rfl) ?_
  rintro span t _ built rfl hb
  rw [buildText, String.toList_ofList] at hb
  obtain ⟨p, hp, rfl⟩ := buildVariable_eq_ok hb
  exact ⟨_, ⟨_, rfl, rfl⟩, .path hp, rfl⟩

theorem takes_keyword_map (s : String) (hs : Balanced s.toList)
    (build : Piece → Build Fragment) :
    Takes tokens call (.map (.keyword s) build) fun t _ => Balanced t :=
  takes_map (takes_keyword s) fun _ _ _ _ ht _ => ht ▸ hs

theorem takes_boolean : Takes tokens call boolean fun t _ => Balanced t := by
  refine takes_map (takes_oneOf (P := fun t _ => Balanced t) fun r hr => ?_) fun _ _ _ _ ht _ => ht
  simp only [List.mem_cons, List.not_mem_nil, or_false] at hr
  obtain rfl | rfl := hr <;>
    exact (takes_keyword _).imp fun _ _ ht => ht ▸ fun _ => rfl

theorem takes_quoted : Takes tokens call quoted fun t _ => Balanced t := by
  refine takes_map (takes_oneOf (P := fun t _ => Balanced t) fun r hr => ?_) fun _ _ _ _ ht _ => ht
  simp only [List.mem_cons, List.not_mem_nil, or_false] at hr
  obtain rfl | rfl := hr
  · exact takes_pattern fun _ hw => balanced_quoted (.inl rfl) hw
  · exact takes_pattern fun _ hw => balanced_quoted (.inr rfl) hw

theorem takes_literal : ∀ r ∈ literalRules, Takes tokens call r fun t _ => Balanced t := by
  intro r hr
  simp only [literalRules, List.mem_cons, List.not_mem_nil, or_false] at hr
  obtain rfl | rfl | rfl | rfl | rfl | rfl := hr
  · exact takes_number.imp fun _ _ h => h.isOperandOf.balanced
  · exact takes_boolean
  · exact takes_keyword_map "null" (fun _ => rfl) _
  · exact takes_keyword_map "undefined" (fun _ => rfl) _
  · exact takes_path.imp fun _ _ h => h.isOperandOf.balanced
  · exact takes_quoted

/-! Operators -/

theorem takes_parenthesized (hc : tokens.Coherent) {inner : TemplateRule}
    {P : List Char → Payload Fragment → Prop} (h : Takes tokens call inner P) :
    Takes tokens call (parenthesized inner) fun t payload =>
      ∃ a s b content, t = '(' :: (a ++ (s ++ (b ++ [')']))) ∧ (∀ c ∈ a, isGap c = true) ∧
        (∀ c ∈ b, isGap c = true) ∧ P s content ∧
        ∀ n, IsNode n content → IsNode (.group n (.empty 0)) payload := by
  refine takes_sequence (takesAll_cons hc (takes_char '(') (takesAll_cons hc (takes_blanks hc)
    (takesAll_cons hc h (takesAll_cons hc (takes_blanks hc)
      (takesAll_cons hc (takes_char ')') takesAll_nil))))) ?_
  rintro span _ _ built ⟨_, _, opening, _, rfl, rfl, rfl, a, _, before, _, rfl, rfl, ha, s, _,
    inner, _, rfl, rfl, hs, b, _, behind, _, rfl, rfl, hb, _, _, closing, _, rfl, rfl, rfl, rfl, rfl⟩ hbuild
  refine ⟨a, s, b, inner.2, rfl, ha, hb, hs, ?_⟩
  rintro _ ⟨m, hm, rfl⟩
  obtain ⟨n, hn, rfl⟩ := shaped_eq_ok hbuild
  rw [node?_of_payload hm] at hn
  cases hn
  exact ⟨_, rfl, rfl⟩

/-- Where the texts of all parts balance, so does that of the sequence. -/
theorem takes_parts (hc : tokens.Coherent) {parts : List TemplateRule}
    (build : Span → List Piece → Build Fragment)
    (h : ∀ r ∈ parts, Takes tokens call r fun t _ => Balanced t) :
    Takes tokens call (.sequence parts (some build)) fun t _ => Balanced t :=
  takes_sequence_kind balanced_nil Balanced.append hc h

theorem takes_gap (hc : tokens.Coherent) : Takes tokens call space fun t _ => Balanced t :=
  (takes_blanks hc).imp fun _ _ => balanced_blanks

theorem takes_sign {s : String} (hs : Balanced s.toList) :
    Takes tokens call (.text s) fun t _ => Balanced t :=
  (takes_text s).imp fun _ _ ht => ht.1 ▸ hs

theorem takes_must {item : TemplateRule} {P : List Char → Payload Fragment → Prop}
    (h : Takes tokens call item P) (e : Expectation) : Takes tokens call (must item e) P :=
  takes_required h _

section Symbols

variable (hc : tokens.Coherent)
  (hcall : ∀ symbol, symbol ≠ .document → Takes tokens call (.ref symbol) (SpelledAs symbol))

include hcall

theorem takes_symbol {symbol : Symbol} (hs : symbol ≠ .document) :
    Takes tokens call (.ref symbol) fun t _ => Balanced t :=
  (hcall symbol hs).imp fun _ _ => balanced_of_spelledAs

theorem takes_term : ∀ r ∈ termRules, Takes tokens call r fun t _ => Balanced t := by
  intro r hr
  simp only [termRules, List.mem_cons] at hr
  obtain rfl | rfl | hr := hr
  · exact takes_symbol hcall (by decide)
  · exact takes_symbol hcall (by decide)
  · exact takes_literal r hr

theorem takes_expression : Takes tokens call expression fun t _ => Balanced t := by
  rw [expression_eq]
  refine takes_oneOf fun r hr => ?_
  cases hr with
  | head => exact takes_symbol hcall nofun
  | tail _ hr => exact takes_term hcall r hr

theorem takes_insideGroup : Takes tokens call (body .insideGroup) fun t _ => Balanced t := by
  refine takes_oneOf fun r hr => ?_
  simp only [List.mem_cons] at hr
  obtain rfl | rfl | hr := hr
  · exact takes_symbol hcall nofun
  · exact takes_symbol hcall nofun
  · exact takes_literal r hr

theorem takes_atom :
    ∀ r ∈ [.ref .operandGroup, number, path], Takes tokens call r IsAtomOf := by
  intro r hr
  simp only [List.mem_cons, List.not_mem_nil, or_false] at hr
  obtain rfl | rfl | rfl := hr
  · exact hcall .operandGroup nofun
  · exact takes_number
  · exact takes_path

theorem takes_operand : Takes tokens call operand IsOperandOf := by
  refine takes_oneOf fun r hr => ?_
  cases hr with
  | head => exact hcall .operation nofun
  | tail _ hr => exact (takes_atom hcall r hr).imp fun _ _ => IsAtomOf.isOperandOf

include hc

theorem takes_comparison : Takes tokens call comparison fun t _ => Balanced t := by
  have hsigns : Takes tokens call (.oneOf (Comparison.all.map fun op => .text op.sign))
      fun t _ => Balanced t := by
    refine takes_oneOf fun r hr => ?_
    obtain ⟨op, -, rfl⟩ := List.mem_map.1 hr
    exact takes_sign (by cases op <;> exact fun _ => rfl)
  refine takes_parts hc _ fun r hr => ?_
  simp only [List.mem_cons, List.not_mem_nil, or_false] at hr
  obtain rfl | rfl | rfl | rfl | rfl := hr
  · exact takes_symbol hcall nofun
  · exact takes_gap hc
  · exact takes_must hsigns _
  · exact takes_gap hc
  · exact takes_must (takes_symbol hcall (by decide)) _

theorem takes_nullish : Takes tokens call nullish fun t _ => Balanced t := by
  have hright : Takes tokens call (.oneOf [.ref .nullish, .ref .expression])
      fun t _ => Balanced t := by
    refine takes_oneOf fun r hr => ?_
    simp only [List.mem_cons, List.not_mem_nil, or_false] at hr
    obtain rfl | rfl := hr <;> exact takes_symbol hcall nofun
  refine takes_parts hc _ fun r hr => ?_
  simp only [List.mem_cons, List.not_mem_nil, or_false] at hr
  obtain rfl | rfl | rfl | rfl | rfl := hr
  · exact takes_symbol hcall nofun
  · exact takes_gap hc
  · exact takes_sign fun _ => rfl
  · exact takes_gap hc
  · exact hright

theorem takes_ternary : Takes tokens call ternary fun t _ => Balanced t := by
  have hexpression : Takes tokens call (.ref .expression) fun t _ => Balanced t :=
    takes_symbol hcall nofun
  refine takes_parts hc _ fun r hr => ?_
  simp only [List.mem_cons, List.not_mem_nil, or_false] at hr
  obtain rfl | rfl | rfl | rfl | rfl | rfl | rfl | rfl | rfl := hr
  · exact takes_must (takes_symbol hcall (by decide)) _
  · exact takes_gap hc
  · exact takes_must (takes_sign fun _ => rfl) _
  · exact takes_gap hc
  · exact takes_must hexpression _
  · exact takes_gap hc
  · exact takes_must (takes_sign fun _ => rfl) _
  · exact takes_gap hc
  · exact takes_must hexpression _

theorem takes_group : Takes tokens call group (SpelledAs .group) := by
  have hinner : Takes tokens call (.oneOf [ternary, .ref .nullish, .ref .insideGroup])
      fun t _ => Balanced t := by
    refine takes_oneOf fun r hr => ?_
    simp only [List.mem_cons, List.not_mem_nil, or_false] at hr
    obtain rfl | rfl | rfl := hr
    · exact takes_ternary hc hcall
    · exact takes_symbol hcall nofun
    · exact takes_symbol hcall nofun
  apply (takes_parenthesized hc hinner).imp
  rintro _ payload ⟨a, s, b, content, rfl, ha, hb, hs, -⟩
  refine ⟨a ++ (s ++ b), by simp only [List.append_assoc], ?_⟩
  exact (balanced_blanks ha).append (hs.append (balanced_blanks hb))

theorem takes_operandGroup : Takes tokens call (body .operandGroup) IsAtomOf := by
  apply (takes_parenthesized hc (hcall .operand nofun)).imp
  rintro _ payload ⟨a, s, b, content, rfl, ha, hb, ⟨n, hn, hs⟩, hgroup⟩
  exact ⟨_, hgroup n hn, .group ha hs hb, rfl⟩

theorem takes_operation : Takes tokens call operation IsOperandOf := by
  have hsigns : Takes tokens call (.oneOf (Arithmetic.all.map fun op => .text op.sign))
      fun t payload => ∃ op : Arithmetic, t = op.sign.toList ∧ payload = .text op.sign := by
    refine takes_oneOf fun r hr => ?_
    obtain ⟨op, -, rfl⟩ := List.mem_map.1 hr
    exact (takes_text op.sign).imp fun _ _ ht => ⟨op, ht⟩
  refine takes_sequence (takesAll_cons hc (hcall .leftOfOperation nofun)
    (takesAll_cons hc (takes_blanks hc) (takesAll_cons hc hsigns
      (takesAll_cons hc (takes_blanks hc) (takesAll_cons hc (hcall .operand nofun)
        takesAll_nil))))) ?_
  rintro span _ _ built ⟨s, _, left, _, rfl, rfl, ⟨_, ⟨l, hl, rfl⟩, hs, hatom⟩, a, _, _, _, rfl,
    rfl, ha, _, _, sign, _, rfl, rfl, ⟨op, rfl, hop⟩, b, _, _, _, rfl, rfl, hb, t, _, right, _, rfl, rfl,
    ⟨_, ⟨r, hr, rfl⟩, ht⟩, rfl, rfl⟩ hbuild
  obtain ⟨n, hn, rfl⟩ := shaped_eq_ok hbuild
  simp only [node?_of_payload hl, node?_of_payload hr, text?_of_payload hop, Option.bind_eq_bind,
    Option.bind_some, ofSign?_arithmetic] at hn
  cases hn
  rw [List.append_nil]
  exact ⟨_, ⟨_, rfl, rfl⟩, .operation op hs hatom ha hb ht⟩

/-- Given how the matches of symbols are spelled, those of their bodies are. -/
theorem takes_body {symbol : Symbol} (hs : symbol ≠ .document) :
    Takes tokens call (body symbol) (SpelledAs symbol) := by
  cases symbol with
  | document => exact absurd rfl hs
  | expression | leftOfNullish => exact takes_expression hcall
  | comparison => exact takes_comparison hc hcall
  | nullish => exact takes_nullish hc hcall
  | group => exact takes_group hc hcall
  | operand => exact takes_operand hcall
  | operation => exact takes_operation hc hcall
  | operandGroup => exact takes_operandGroup hc hcall
  | leftOfComparison => exact takes_oneOf (takes_term hcall)
  | leftOfOperation => exact takes_oneOf (takes_atom hcall)
  | insideGroup => exact takes_insideGroup hcall

end Symbols

/-- However deep the calls go, every symbol of an expression takes texts of its kind. -/
theorem parse_takes (hc : tokens.Coherent) (n : Nat) {symbol : Symbol} (hs : symbol ≠ .document) :
    Takes tokens (grammar.parse tokens n) (.ref symbol) (SpelledAs symbol) := by
  induction n generalizing symbol with
  | zero => nofun
  | succ n ih =>
      intro start parsed h
      exact takes_body hc (fun _ => ih) hs start parsed (parse_matched h)

end Rules
end JsonTemplate
