import JsonTemplate.Proofs.Expression.Shape
import JsonTemplate.Proofs.Rule.Nesting
import JsonTemplate.Proofs.Tree.Nesting

/-!
What builders make nests. The nodes among the pieces of a match stand in order, so a node
that is made of some of them encloses these; with that the rules of expressions keep what
they make inside the tokens that they take.
-/

namespace JsonTemplate

/-- A nested node or entry on tokens of a span. -/
def Fragment.Inside (outer : Span) : Fragment → Prop
  | .flatten => True
  | .node n => Node.Inside outer n
  | .entry e =>
      (outer.start ≤ e.span.start ∧ e.span.start < e.span.stop ∧ e.span.stop ≤ outer.stop) ∧
        e.span.Encloses [e.key.span, e.value.span] ∧ e.key.Nested ∧ e.value.Nested

namespace Payload

variable {β : Type} {inside : Span → β → Prop}

theorem FitAll.mono {first start stop last : Nat} {pieces : List (Parsed β)}
    (h : FitAll inside start pieces stop) (hs : first ≤ start) (ht : stop ≤ last) :
    FitAll inside first pieces last := by
  induction pieces generalizing first start with
  | nil => exact Nat.le_trans hs (Nat.le_trans h ht)
  | cons piece rest ih =>
      exact ⟨Nat.le_trans hs h.1, h.2.1, h.2.2.1, ih h.2.2.2 (Nat.le_refl _)⟩

theorem FitAll.sublist {start stop : Nat} {pieces chosen : List (Parsed β)}
    (h : FitAll inside start pieces stop) (hs : chosen.Sublist pieces) :
    FitAll inside start chosen stop := by
  induction hs generalizing start with
  | slnil => exact h
  | cons piece _ ih => exact (ih h.2.2.2).mono (Nat.le_trans h.1 h.2.1) (Nat.le_refl _)
  | cons_cons piece _ ih => exact ⟨h.1, h.2.1, h.2.2.1, ih h.2.2.2⟩

end Payload

namespace Rules

open Rule Node Payload

/-! Nodes among pieces -/

theorem inside_of_node? {span : Span} {payload : Payload Fragment} {n : Node}
    (h : payload.Fits Fragment.Inside span) (hn : node? (span, payload) = some n) :
    Node.Inside span n := by
  cases payload with
  | value v =>
      cases v with
      | node m => cases hn; exact h
      | flatten | entry _ => cases hn
  | _ => cases hn

theorem inside_of_entryOf? {span : Span} {payload : Payload Fragment} {e : Entry}
    (h : payload.Fits Fragment.Inside span) (he : entryOf? (span, payload) = some e) :
    Fragment.Inside span (.entry e) := by
  cases payload with
  | value v =>
      cases v with
      | entry found => cases he; exact h
      | flatten | node _ => cases he
  | _ => cases he

/-- What is read from pieces in order stands in order, if each piece holds what is read
from it. -/
theorem inOrder_of_mapM {α : Type} {read? : Piece → Option α} {spanOf : α → Span} {P : α → Prop}
    (hread : ∀ place payload a, payload.Fits Fragment.Inside place →
      read? (place, payload) = some a →
      (place.start ≤ (spanOf a).start ∧ (spanOf a).start < (spanOf a).stop ∧
        (spanOf a).stop ≤ place.stop) ∧ P a)
    {start stop : Nat} {pieces : List Piece} {found : List α}
    (h : FitAll Fragment.Inside start pieces stop) (hm : pieces.mapM read? = some found) :
    Span.InOrder start (found.map spanOf) stop ∧ ∀ a ∈ found, P a := by
  induction pieces generalizing start found with
  | nil =>
      cases hm
      exact ⟨h, nofun⟩
  | cons piece rest ih =>
      obtain ⟨place, payload⟩ := piece
      obtain ⟨hstart, -, hfits, hrest⟩ := h
      rw [List.mapM_cons] at hm
      obtain ⟨a, hpiece, hm⟩ := Option.bind_eq_some_iff.1 hm
      obtain ⟨more, hmore, hm⟩ := Option.bind_eq_some_iff.1 hm
      cases hm
      obtain ⟨hspan, ha⟩ := hread place payload a hfits hpiece
      obtain ⟨horder, hall⟩ := ih (hrest.mono hspan.2.2 (Nat.le_refl _)) hmore
      exact ⟨⟨Nat.le_trans hstart hspan.1, hspan.2.1, horder⟩, List.forall_mem_cons.2 ⟨ha, hall⟩⟩

theorem inOrder_of_mapM_node? {start stop : Nat} {pieces : List Piece} {ns : List Node}
    (h : FitAll Fragment.Inside start pieces stop) (hn : pieces.mapM node? = some ns) :
    Span.InOrder start (ns.map span) stop ∧ ∀ n ∈ ns, n.Nested :=
  inOrder_of_mapM (fun _ _ _ => inside_of_node?) h hn

theorem inOrder_of_mapM_entryOf? {start stop : Nat} {pieces : List Piece} {entries : List Entry}
    (h : FitAll Fragment.Inside start pieces stop) (he : pieces.mapM entryOf? = some entries) :
    Span.InOrder start (entries.map Entry.span) stop ∧
      ∀ e ∈ entries, e.span.Encloses [e.key.span, e.value.span] ∧ e.key.Nested ∧ e.value.Nested :=
  inOrder_of_mapM (fun _ _ _ => inside_of_entryOf?) h he

/-- A nested node on all tokens of a match. -/
theorem fits_node {span : Span} {n : Node} (hlt : span.start < span.stop) (hspan : n.span = span)
    (hn : n.Nested) : Fits Fragment.Inside span (.value (.node n)) := by
  subst hspan
  exact ⟨⟨Nat.le_refl _, hlt, Nat.le_refl _⟩, hn⟩

/-- A node that is made of some of the pieces has them for children. -/
theorem fits_of_children {span : Span} {pieces chosen : List Piece} {ns : List Node} {n : Node}
    (hlt : span.start < span.stop) (hfit : FitAll Fragment.Inside span.start pieces span.stop)
    (hs : chosen.Sublist pieces) (hns : chosen.mapM node? = some ns) (hspan : n.span = span)
    (hn : span.Encloses (ns.map Node.span) → (∀ m ∈ ns, m.Nested) → n.Nested) :
    Fits Fragment.Inside span (.value (.node n)) := by
  obtain ⟨henc, hall⟩ := inOrder_of_mapM_node? (hfit.sublist hs) hns
  exact fits_node hlt hspan (hn henc hall)

theorem fits_of_operands {span : Span} {left gap sign gap' right : Piece} {l r n : Node}
    (hlt : span.start < span.stop)
    (hfit : FitAll Fragment.Inside span.start [left, gap, sign, gap', right] span.stop)
    (hl : node? left = some l) (hr : node? right = some r) (hspan : n.span = span)
    (hn : span.Encloses [l.span, r.span] ∧ l.Nested ∧ r.Nested → n.Nested) :
    Fits Fragment.Inside span (.value (.node n)) := by
  have hs : [left, right].Sublist [left, gap, sign, gap', right] := by simp
  have hns : [left, right].mapM node? = some [l, r] := by simp [hl, hr]
  exact fits_of_children hlt hfit hs hns hspan fun henc hall =>
    hn ⟨henc, hall l (by simp), hall r (by simp)⟩

theorem fits_of_inner {span : Span} {pieces : List Piece} {piece : Piece} {inner n : Node}
    (hlt : span.start < span.stop) (hfit : FitAll Fragment.Inside span.start pieces span.stop)
    (hm : piece ∈ pieces) (hi : node? piece = some inner) (hspan : n.span = span)
    (hn : span.Encloses [inner.span] ∧ inner.Nested → n.Nested) :
    Fits Fragment.Inside span (.value (.node n)) := by
  have hns : [piece].mapM node? = some [inner] := by simp [hi]
  exact fits_of_children hlt hfit (List.singleton_sublist.2 hm) hns hspan fun henc hall =>
    hn ⟨henc, hall inner (by simp)⟩

/-! Builders -/

theorem keepsInside_comparison : KeepsInside Fragment.Inside buildComparison := by
  intro span pieces payload hlt hfit hb
  simp only [buildComparison] at hb
  split at hb
  · obtain ⟨n, hn, rfl⟩ := shaped_eq_ok hb
    obtain ⟨l, hl, hn⟩ := Option.bind_eq_some_iff.1 hn
    obtain ⟨op, -, hn⟩ := Option.bind_eq_some_iff.1 hn
    obtain ⟨r, hr, hn⟩ := Option.bind_eq_some_iff.1 hn
    cases hn
    exact fits_of_operands hlt hfit hl hr rfl id
  · cases hb

theorem keepsInside_operation : KeepsInside Fragment.Inside buildOperation := by
  intro span pieces payload hlt hfit hb
  simp only [buildOperation] at hb
  split at hb
  · obtain ⟨n, hn, rfl⟩ := shaped_eq_ok hb
    obtain ⟨l, hl, hn⟩ := Option.bind_eq_some_iff.1 hn
    obtain ⟨op, -, hn⟩ := Option.bind_eq_some_iff.1 hn
    obtain ⟨r, hr, hn⟩ := Option.bind_eq_some_iff.1 hn
    cases hn
    exact fits_of_operands hlt hfit hl hr rfl id
  · cases hb

theorem keepsInside_nullish : KeepsInside Fragment.Inside buildNullish := by
  intro span pieces payload hlt hfit hb
  simp only [buildNullish] at hb
  split at hb
  · obtain ⟨n, hn, rfl⟩ := shaped_eq_ok hb
    obtain ⟨l, hl, hn⟩ := Option.bind_eq_some_iff.1 hn
    obtain ⟨r, hr, hn⟩ := Option.bind_eq_some_iff.1 hn
    cases hn
    exact fits_of_operands hlt hfit hl hr rfl id
  · cases hb

theorem keepsInside_ternary : KeepsInside Fragment.Inside buildTernary := by
  intro span pieces payload hlt hfit hb
  simp only [buildTernary] at hb
  split at hb
  · next condition a mark b yes c colon d no =>
      obtain ⟨n, hn, rfl⟩ := shaped_eq_ok hb
      obtain ⟨i, hi, hn⟩ := Option.bind_eq_some_iff.1 hn
      obtain ⟨j, hj, hn⟩ := Option.bind_eq_some_iff.1 hn
      obtain ⟨k, hk, hn⟩ := Option.bind_eq_some_iff.1 hn
      cases hn
      have hs : [condition, yes, no].Sublist [condition, a, mark, b, yes, c, colon, d, no] :=
        .cons_cons _ (.cons _ (.cons _ (.cons _ (.cons_cons _ (List.singleton_sublist.2 (by simp))))))
      have hns : [condition, yes, no].mapM node? = some [i, j, k] := by simp [hi, hj, hk]
      exact fits_of_children hlt hfit hs hns rfl fun henc hall =>
        ⟨henc, hall i (by simp), hall j (by simp), hall k (by simp)⟩
  · cases hb

theorem keepsInside_guard {node : Node → Span → Node}
    (hspan : ∀ guard span, (node guard span).span = span)
    (hn : ∀ guard span, span.Encloses [guard.span] ∧ guard.Nested → (node guard span).Nested) :
    KeepsInside Fragment.Inside (buildGuard node) := by
  intro span pieces payload hlt hfit hb
  simp only [buildGuard] at hb
  split at hb
  · next start gap guard =>
      obtain ⟨n, hnode, rfl⟩ := shaped_eq_ok hb
      obtain ⟨g, hg, rfl⟩ := Option.map_eq_some_iff.1 hnode
      have hm : guard ∈ [start, gap, guard] := by simp
      exact fits_of_inner hlt hfit hm hg (hspan g span) (hn g span)
  · cases hb

theorem keepsInside_group : KeepsInside Fragment.Inside buildGroup := by
  intro span pieces payload hlt hfit hb
  simp only [buildGroup] at hb
  split at hb
  · next opening gap inner gap' closing =>
      obtain ⟨n, hnode, rfl⟩ := shaped_eq_ok hb
      obtain ⟨i, hi, rfl⟩ := Option.map_eq_some_iff.1 hnode
      have hm : inner ∈ [opening, gap, inner, gap', closing] := by simp
      exact fits_of_inner hlt hfit hm hi rfl id
  · cases hb

/-- The filter of a loop is the condition of the branch that was read for it. -/
theorem nestedFilter_of_filterOf? {outer span : Span} {payload : Payload Fragment}
    {found : Option Node} (h : payload.Fits Fragment.Inside span)
    (hf : filterOf? (span, payload) = some found)
    (hs : outer.start ≤ span.start ∧ span.stop ≤ outer.stop) : NestedFilter outer found := by
  cases payload with
  | optional item =>
      cases item with
      | none =>
          cases hf
          trivial
      | some inner =>
          simp only [filterOf?, optional?] at hf
          split at hf
          · next guard place hi =>
              cases hf
              obtain ⟨hplace, hfits⟩ := h
              obtain ⟨hspan, henc, hguard⟩ := inside_of_node? hfits hi
              have := henc.of_mem (List.mem_singleton_self _)
              simp only [Node.span] at hspan
              exact ⟨⟨by omega, this.2.1, by simp only [Span.InOrder]; omega⟩, hguard⟩
          · cases hf
  | _ => cases hf

theorem keepsInside_each : KeepsInside Fragment.Inside buildEach := by
  intro span pieces payload hlt hfit hb
  simp only [buildEach] at hb
  split at hb
  · next word a source b link c name d filter =>
      split at hb
      · next hsource hname hfilter =>
          split at hb
          · cases hb
          · cases made_eq_ok hb
            have hs : [filter].Sublist [word, a, source, b, link, c, name, d, filter] := by simp
            obtain ⟨hstart, -, hfits, hstop⟩ := hfit.sublist hs
            exact fits_node hlt rfl (nestedFilter_of_filterOf? hfits hfilter ⟨hstart, hstop⟩)
      · cases hb
  · cases hb

theorem keepsInside_interpolation : KeepsInside Fragment.Inside buildInterpolation := by
  intro span pieces payload hlt hfit hb
  simp only [buildInterpolation] at hb
  split at hb
  · next a b spread c calls d value e f g h =>
      obtain ⟨n, hn, rfl⟩ := shaped_eq_ok hb
      obtain ⟨item, -, hn⟩ := Option.bind_eq_some_iff.1 hn
      obtain ⟨modifiers, -, hn⟩ := Option.bind_eq_some_iff.1 hn
      obtain ⟨v, hv, hn⟩ := Option.bind_eq_some_iff.1 hn
      cases hn
      have hm : value ∈ [a, b, spread, c, calls, d, value, e, f, g, h] := by simp
      exact fits_of_inner hlt hfit hm hv rfl id
  · cases hb

theorem keepsInside_flatten :
    KeepsInside Fragment.Inside fun _ _ => .ok (some (.value .flatten)) := by
  intro span pieces payload hlt hfit hb
  cases hb
  trivial

/-- A leaf on the tokens of the text that it was read from. -/
theorem keepsPieceInside_leaf {build : Piece → Build Fragment}
    (hb : ∀ span inner payload, build (span, inner) = .ok (some payload) →
      ∃ n : Node, payload = .value (.node n) ∧ n.span = span ∧ n.Nested) :
    KeepsPieceInside Fragment.Inside build := by
  intro span inner payload hlt hfit h
  obtain ⟨n, rfl, hspan, hn⟩ := hb span inner payload h
  exact fits_node hlt hspan hn

theorem keepsPieceInside_text {node : List Char → Span → Build Fragment}
    (hn : ∀ text span payload, node text span = .ok (some payload) →
      ∃ n : Node, payload = .value (.node n) ∧ n.span = span ∧ n.Nested) :
    KeepsPieceInside Fragment.Inside (buildText node) := by
  refine keepsPieceInside_leaf fun span inner payload h => ?_
  obtain ⟨s, -, hb⟩ := buildText_eq_ok h
  exact hn _ _ _ hb

/-! Rules -/

/-- What the rule makes nests. -/
def Nests (r : TemplateRule) : Prop := r.Fitting Fragment.Inside

theorem nests_oneOf {rules : List TemplateRule} (h : ∀ r ∈ rules, Nests r) : Nests (.oneOf rules) :=
  (allFitting_iff _ rules).2 h

theorem nests_sequence {parts : List TemplateRule} {build : Span → List Piece → Build Fragment}
    (h : ∀ r ∈ parts, Nests r) (he : SomeEager parts) (hb : KeepsInside Fragment.Inside build) :
    Nests (.sequence parts (some build)) := by
  refine ⟨(allFitting_iff _ parts).2 h, fun b hmem => ?_⟩
  cases hmem
  exact ⟨he, hb⟩

theorem nests_map {item : TemplateRule} {build : Piece → Build Fragment} (h : Nests item)
    (he : item.Eager) (hb : KeepsPieceInside Fragment.Inside build) : Nests (.map item build) :=
  ⟨h, he, hb⟩

theorem nests_space : Nests space := by
  refine nests_oneOf fun r hr => ?_
  simp only [List.mem_cons, List.not_mem_nil, or_false] at hr
  obtain rfl | rfl | rfl | rfl := hr <;> trivial

theorem nests_signs {α : Type} (signs : List α) (sign : α → String) :
    Nests (.oneOf (signs.map fun s => .text (sign s))) := by
  refine nests_oneOf fun r hr => ?_
  obtain ⟨s, -, rfl⟩ := List.mem_map.1 hr
  trivial

theorem nests_number : Nests number := by
  refine nests_map trivial eager_number (keepsPieceInside_text fun text span payload hb => ?_)
  split at hb
  · exact ⟨_, made_eq_ok hb, rfl, trivial⟩
  · cases hb

theorem nests_path : Nests path := by
  refine nests_map trivial eager_path (keepsPieceInside_text fun text span payload hb => ?_)
  obtain ⟨p, -, rfl⟩ := buildVariable_eq_ok hb
  exact ⟨_, rfl, rfl, trivial⟩

theorem nests_null : Nests null :=
  nests_map trivial eager_null (keepsPieceInside_leaf fun _ _ _ hb =>
    ⟨_, made_eq_ok hb, rfl, trivial⟩)

theorem nests_undefined : Nests undefined :=
  nests_map trivial eager_undefined (keepsPieceInside_leaf fun _ _ _ hb =>
    ⟨_, made_eq_ok hb, rfl, trivial⟩)

theorem nests_boolean : Nests boolean :=
  nests_map ⟨trivial, trivial, trivial⟩ eager_boolean (keepsPieceInside_text fun _ _ _ hb =>
    ⟨_, made_eq_ok hb, rfl, trivial⟩)

theorem nests_quoted : Nests quoted :=
  nests_map ⟨trivial, trivial, trivial⟩ eager_quoted (keepsPieceInside_text fun _ _ _ hb =>
    ⟨_, made_eq_ok hb, rfl, trivial⟩)

theorem nests_literal : ∀ r ∈ literalRules, Nests r := by
  intro r hr
  simp only [literalRules, List.mem_cons, List.not_mem_nil, or_false] at hr
  obtain rfl | rfl | rfl | rfl | rfl | rfl := hr
  · exact nests_number
  · exact nests_boolean
  · exact nests_null
  · exact nests_undefined
  · exact nests_path
  · exact nests_quoted

theorem nests_comparison : Nests comparison := by
  refine nests_sequence (fun r hr => ?_) (.inl trivial) keepsInside_comparison
  simp only [List.mem_cons, List.not_mem_nil, or_false] at hr
  obtain rfl | rfl | rfl | rfl | rfl := hr
  · trivial
  · exact nests_space
  · exact nests_signs Comparison.all Comparison.sign
  · exact nests_space
  · trivial

theorem nests_operation : Nests operation := by
  refine nests_sequence (fun r hr => ?_) (.inl trivial) keepsInside_operation
  simp only [List.mem_cons, List.not_mem_nil, or_false] at hr
  obtain rfl | rfl | rfl | rfl | rfl := hr
  · trivial
  · exact nests_space
  · exact nests_signs Arithmetic.all Arithmetic.sign
  · exact nests_space
  · trivial

theorem nests_nullish : Nests nullish := by
  refine nests_sequence (fun r hr => ?_) (.inl trivial) keepsInside_nullish
  simp only [List.mem_cons, List.not_mem_nil, or_false] at hr
  obtain rfl | rfl | rfl | rfl | rfl := hr
  · trivial
  · exact nests_space
  · trivial
  · exact nests_space
  · exact ⟨trivial, trivial, trivial⟩

theorem nests_ternary : Nests ternary := by
  refine nests_sequence (fun r hr => ?_) (.inl trivial) keepsInside_ternary
  simp only [List.mem_cons, List.not_mem_nil, or_false] at hr
  obtain rfl | rfl | rfl | rfl | rfl | rfl | rfl | rfl | rfl := hr
  · trivial
  · exact nests_space
  · trivial
  · exact nests_space
  · trivial
  · exact nests_space
  · trivial
  · exact nests_space
  · trivial

theorem nests_parenthesized {inner : TemplateRule} (h : Nests inner) : Nests (parenthesized inner) := by
  refine nests_sequence (fun r hr => ?_) (.inl (eager_char '(')) keepsInside_group
  simp only [List.mem_cons, List.not_mem_nil, or_false] at hr
  obtain rfl | rfl | rfl | rfl | rfl := hr
  · trivial
  · exact nests_space
  · exact h
  · exact nests_space
  · trivial

theorem nests_group : Nests group :=
  nests_parenthesized ⟨nests_ternary, trivial, trivial, trivial⟩

theorem nests_term : ∀ r ∈ termRules, Nests r := by
  intro r hr
  simp only [termRules, List.mem_cons] at hr
  obtain rfl | rfl | hr := hr
  · trivial
  · trivial
  · exact nests_literal r hr

theorem nests_atom : ∀ r ∈ [.ref .operandGroup, number, path], Nests r := by
  intro r hr
  simp only [List.mem_cons, List.not_mem_nil, or_false] at hr
  obtain rfl | rfl | rfl := hr
  · trivial
  · exact nests_number
  · exact nests_path

theorem nests_expression : Nests expression := by
  rw [expression_eq]
  exact nests_oneOf (List.forall_mem_cons.2 ⟨trivial, nests_term⟩)

/-- The rules of expressions make trees that nest. -/
theorem nests_body {symbol : Symbol} (hs : symbol ≠ .document) : Nests (body symbol) := by
  cases symbol with
  | document => exact absurd rfl hs
  | expression | leftOfNullish => exact nests_expression
  | comparison => exact nests_comparison
  | nullish => exact nests_nullish
  | group => exact nests_group
  | operand => exact nests_oneOf (List.forall_mem_cons.2 ⟨trivial, nests_atom⟩)
  | operation => exact nests_operation
  | operandGroup => exact nests_parenthesized trivial
  | leftOfComparison => exact nests_oneOf nests_term
  | leftOfOperation => exact nests_oneOf nests_atom
  | insideGroup =>
      exact nests_oneOf (List.forall_mem_cons.2 ⟨trivial, List.forall_mem_cons.2
        ⟨trivial, nests_literal⟩⟩)

end Rules
end JsonTemplate
