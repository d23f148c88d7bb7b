import JsonTemplate.Proofs.Expression.Constructs
import JsonTemplate.Proofs.Expression.Shape
import JsonTemplate.Proofs.Rule.Rejections

/-!
The rules of expressions and of strings are proper. Each builder finds in the pieces of its
sequence what it looks for, so that all that goes wrong in a string is what an expectation
says.
-/

namespace JsonTemplate
namespace Rules

open Rule

variable {tokens : Stream} {call : Symbol → Nat → Outcome Piece}

/-- A tree of any kind. -/
def IsTree : Payload Fragment → Prop := HasNode fun _ => True

theorem HasNode.isTree {p : Node → Prop} {payload : Payload Fragment} (h : HasNode p payload) :
    IsTree payload :=
  h.imp fun _ _ => trivial

theorem Proper.isTree {r : TemplateRule} {p : Node → Prop}
    (h : Proper tokens call r (HasNode p)) : Proper tokens call r IsTree :=
  h.imp fun _ => HasNode.isTree

theorem proper_made (n : Node) : (made n).Proper IsTree := ⟨n, rfl, trivial⟩

theorem proper_reject {P : Payload Fragment → Prop} (e : Expectation) (span : Span) :
    (reject e span).Proper P :=
  Failure.isRejection_rejected _ _

/-- Each of these pieces is read, so all of them are. -/
theorem exists_mapM {α : Type} {read? : Piece → Option α} {items : List Piece}
    (h : ∀ piece ∈ items, ∃ a, read? piece = some a) : ∃ found, items.mapM read? = some found := by
  induction items with
  | nil => exact ⟨[], rfl⟩
  | cons piece rest ih =>
      obtain ⟨a, ha⟩ := h piece List.mem_cons_self
      obtain ⟨found, hfound⟩ := ih fun other ho => h other (List.mem_cons_of_mem piece ho)
      refine ⟨a :: found, ?_⟩
      rw [List.mapM_cons, ha, hfound]
      rfl

/-! Words -/

theorem proper_must {item : TemplateRule} {P : Payload Fragment → Prop}
    (h : Proper tokens call item P) (e : Expectation) : Proper tokens call (must item e) P :=
  proper_required h _

/-- A word or a sign is worth its own text. -/
theorem proper_text (s : String) : Proper tokens call (.text s) (· = .text s) := by
  refine ⟨fun start parsed h => ?_, (proper_chars _).rejects⟩
  rw [(run_text_matched h).1]

/-- Signs of operators, each of which is the sign of one. -/
theorem proper_signs {α : Type} (ops : List α) (sign : α → String) :
    Proper tokens call (.oneOf (ops.map fun op => .text (sign op))) fun payload =>
      ∃ op, payload = .text (sign op) := by
  refine proper_oneOf fun r hr => ?_
  obtain ⟨op, -, rfl⟩ := List.mem_map.1 hr
  exact (proper_text (sign op)).imp fun payload hp => ⟨op, hp⟩

theorem proper_space : Proper tokens call space fun _ => True := by
  refine (proper_many (proper_oneOf (P := fun _ => True) fun r hr => ?_)).imp fun _ _ => trivial
  simp only [List.mem_cons, List.not_mem_nil, or_false] at hr
  obtain rfl | rfl | rfl | rfl := hr
  all_goals exact (proper_chars _).imp fun _ _ => trivial

theorem proper_buildText {item : TemplateRule} {node : List Char → Span → Build Fragment}
    {Q : Payload Fragment → Prop}
    (h : Proper tokens call item fun payload => ∃ s, payload = .text s)
    (hn : ∀ text span, (node text span).Proper Q) :
    Proper tokens call (.map item (buildText node)) Q := by
  refine proper_map h ?_
  rintro ⟨span, _⟩ ⟨s, rfl⟩
  exact hn s.toList span

theorem proper_keyword_made (s : String) (node : Span → Node) :
    Proper tokens call (.map (.keyword s) fun parsed => made (node parsed.1)) IsTree :=
  proper_map (proper_chars _) fun _ _ => proper_made _

theorem proper_number : Proper tokens call number IsTree := by
  refine proper_buildText (proper_chars _) fun text span => ?_
  split
  · exact proper_made _
  · exact proper_reject _ _

theorem proper_boolean : Proper tokens call boolean IsTree := by
  refine proper_buildText (proper_oneOf fun r hr => ?_) fun text span => proper_made _
  simp only [List.mem_cons, List.not_mem_nil, or_false] at hr
  obtain rfl | rfl := hr
  all_goals exact proper_chars _

theorem proper_quoted : Proper tokens call quoted IsTree := by
  refine proper_buildText (proper_oneOf fun r hr => ?_) fun text span => proper_made _
  simp only [List.mem_cons, List.not_mem_nil, or_false] at hr
  obtain rfl | rfl := hr
  all_goals exact proper_chars _

theorem proper_path : Proper tokens call path (HasNode IsPath) := by
  refine ⟨yields_path_node, (proper_buildText (Q := fun _ => True) (proper_chars _)
    fun text span => ?_).rejects⟩
  unfold buildVariable
  split
  · trivial
  · split
    · split
      · exact proper_reject _ _
      · split
        · trivial
        · exact proper_reject _ _
    · exact proper_reject _ _

theorem proper_comment : Proper tokens call comment IsTree :=
  proper_buildText (proper_chars _) fun _ _ => proper_made _

theorem proper_literal : ∀ r ∈ literalRules, Proper tokens call r IsTree := by
  intro r hr
  simp only [literalRules, List.mem_cons, List.not_mem_nil, or_false] at hr
  obtain rfl | rfl | rfl | rfl | rfl | rfl := hr
  · exact proper_number
  · exact proper_boolean
  · exact proper_keyword_made _ _
  · exact proper_keyword_made _ _
  · exact Proper.isTree proper_path
  · exact proper_quoted

/-! Operators -/

theorem proper_parenthesized {inner : TemplateRule} (h : Proper tokens call inner IsTree) :
    Proper tokens call (parenthesized inner) IsTree := by
  refine proper_sequence (properAll_cons (proper_chars _) (properAll_cons proper_space
    (properAll_cons h (properAll_cons proper_space
      (properAll_cons (proper_chars _) properAll_nil))))) ?_
  rintro span _ ⟨_, _, rfl, -, _, _, rfl, -, inner, _, rfl, ⟨m, hm, -⟩, _, _, rfl, -, _, _, rfl, -,
    rfl⟩
  rw [buildGroup, node?_of_payload hm]
  exact proper_made _

section Symbols

variable (hcall : ∀ symbol, symbol ≠ .document → Proper tokens call (.ref symbol) IsTree)

include hcall

theorem proper_comparison : Proper tokens call comparison IsTree := by
  refine proper_sequence (properAll_cons (hcall .leftOfComparison nofun)
    (properAll_cons proper_space (properAll_cons (proper_must (proper_signs _ _) _)
      (properAll_cons proper_space
        (properAll_cons (proper_must (hcall .expression nofun) _) properAll_nil))))) ?_
  rintro span _ ⟨left, _, rfl, ⟨l, hl, -⟩, _, _, rfl, -, sign, _, rfl, ⟨op, hop⟩, _, _, rfl, -,
    right, _, rfl, ⟨r, hr, -⟩, rfl⟩
  simp only [buildComparison, node?_of_payload hl, node?_of_payload hr, text?_of_payload hop,
    Option.bind_eq_bind, Option.bind_some, ofSign?_comparison]
  exact proper_made _

theorem proper_operation : Proper tokens call operation IsTree := by
  refine proper_sequence (properAll_cons (hcall .leftOfOperation nofun)
    (properAll_cons proper_space (properAll_cons (proper_signs _ _) (properAll_cons proper_space
      (properAll_cons (hcall .operand nofun) properAll_nil))))) ?_
  rintro span _ ⟨left, _, rfl, ⟨l, hl, -⟩, _, _, rfl, -, sign, _, rfl, ⟨op, hop⟩, _, _, rfl, -,
    right, _, rfl, ⟨r, hr, -⟩, rfl⟩
  simp only [buildOperation, node?_of_payload hl, node?_of_payload hr, text?_of_payload hop,
    Option.bind_eq_bind, Option.bind_some, ofSign?_arithmetic]
  exact proper_made _

theorem proper_nullish : Proper tokens call nullish IsTree := by
  have hright : Proper tokens call (.oneOf [.ref .nullish, .ref .expression]) IsTree := by
    refine proper_oneOf fun r hr => ?_
    simp only [List.mem_cons, List.not_mem_nil, or_false] at hr
    obtain rfl | rfl := hr
    · exact hcall .nullish nofun
    · exact hcall .expression nofun
  refine proper_sequence (properAll_cons (hcall .leftOfNullish nofun)
    (properAll_cons proper_space (properAll_cons (proper_text _) (properAll_cons proper_space
      (properAll_cons hright properAll_nil))))) ?_
  rintro span _ ⟨left, _, rfl, ⟨l, hl, -⟩, _, _, rfl, -, _, _, rfl, -, _, _, rfl, -, right, _, rfl,
    ⟨r, hr, -⟩, rfl⟩
  rw [buildNullish, node?_of_payload hl, node?_of_payload hr]
  exact proper_made _

theorem proper_ternary : Proper tokens call ternary IsTree := by
  refine proper_sequence (properAll_cons (proper_must (hcall .comparison nofun) _)
    (properAll_cons proper_space (properAll_cons (proper_must (proper_text _) _)
      (properAll_cons proper_space (properAll_cons (proper_must (hcall .expression nofun) _)
        (properAll_cons proper_space (properAll_cons (proper_must (proper_text _) _)
          (properAll_cons proper_space
            (properAll_cons (proper_must (hcall .expression nofun) _) properAll_nil))))))))) ?_
  rintro span _ ⟨condition, _, rfl, ⟨c, hc, -⟩, _, _, rfl, -, _, _, rfl, -, _, _, rfl, -, yes, _, rfl,
    ⟨y, hy, -⟩, _, _, rfl, -, _, _, rfl, -, _, _, rfl, -, no, _, rfl, ⟨k, hk, -⟩, rfl⟩
  rw [buildTernary, node?_of_payload hc, node?_of_payload hy, node?_of_payload hk]
  exact proper_made _

theorem proper_term : ∀ r ∈ termRules, Proper tokens call r IsTree := by
  intro r hr
  simp only [termRules, List.mem_cons] at hr
  obtain rfl | rfl | hr := hr
  · exact hcall .operand (by decide)
  · exact hcall .group (by decide)
  · exact proper_literal r hr

theorem proper_expression : Proper tokens call expression IsTree := by
  rw [expression_eq]
  refine proper_oneOf fun r hr => ?_
  cases hr with
  | head => exact hcall .comparison nofun
  | tail _ hr => exact proper_term hcall r hr

theorem proper_group : Proper tokens call group IsTree := by
  refine proper_parenthesized (proper_oneOf fun r hr => ?_)
  simp only [List.mem_cons, List.not_mem_nil, or_false] at hr
  obtain rfl | rfl | rfl := hr
  · exact proper_ternary hcall
  · exact hcall .nullish nofun
  · exact hcall .insideGroup nofun

theorem proper_insideGroup : Proper tokens call (body .insideGroup) IsTree := by
  refine proper_oneOf fun r hr => ?_
  simp only [List.mem_cons] at hr
  obtain rfl | rfl | hr := hr
  · exact hcall .comparison nofun
  · exact hcall .operand nofun
  · exact proper_literal r hr

theorem proper_atom : ∀ r ∈ [.ref .operandGroup, number, path], Proper tokens call r IsTree := by
  intro r hr
  simp only [List.mem_cons, List.not_mem_nil, or_false] at hr
  obtain rfl | rfl | rfl := hr
  · exact hcall .operandGroup nofun
  · exact proper_number
  · exact Proper.isTree proper_path

theorem proper_operand : Proper tokens call operand IsTree := by
  refine proper_oneOf fun r hr => ?_
  cases hr with
  | head => exact hcall .operation nofun
  | tail _ hr => exact proper_atom hcall r hr

/-- Given that the symbols are proper, their bodies are. -/
theorem proper_body {symbol : Symbol} (hs : symbol ≠ .document) :
    Proper tokens call (body symbol) IsTree := by
  cases symbol with
  | document => exact absurd rfl hs
  | expression | leftOfNullish => exact proper_expression hcall
  | comparison => exact proper_comparison hcall
  | nullish => exact proper_nullish hcall
  | group => exact proper_group hcall
  | operand => exact proper_operand hcall
  | operation => exact proper_operation hcall
  | operandGroup => exact proper_parenthesized (hcall .operand nofun)
  | leftOfComparison => exact proper_oneOf (proper_term hcall)
  | leftOfOperation => exact proper_oneOf (proper_atom hcall)
  | insideGroup => exact proper_insideGroup hcall

end Symbols

/-- Every symbol of an expression is proper, however deep its calls go. -/
theorem parse_proper (n : Nat) {symbol : Symbol} (hs : symbol ≠ .document) :
    Proper tokens (grammar.parse tokens n) (.ref symbol) IsTree := by
  induction n generalizing symbol with
  | zero => exact ⟨nofun, nofun⟩
  | succ n ih =>
      have hbody : Proper tokens (grammar.parse tokens n) (body symbol) IsTree :=
        proper_body (fun _ => ih) hs
      exact ⟨fun start parsed h => hbody.yields start parsed (parse_matched h),
        fun start x h => hbody.rejects start x (parse_committed h)⟩

end Rules
end JsonTemplate
