import JsonTemplate.Proofs.Expression.Shape
import JsonTemplate.Proofs.Template.RoundTrip

/-!
The shape of compiled templates. Text runs up to the next brackets, so that no two texts
meet; everything else follows from the shapes that the symbols stand for, by induction on
the calls.
-/

namespace JsonTemplate

/-! Text up to a mark -/

theorem widthUntil_le (stop run : List Char) : widthUntil stop run ≤ run.length := by
  induction run with
  | nil => exact Nat.le_refl 0
  | cons c run ih =>
      rw [widthUntil]
      split
      · exact Nat.zero_le _
      · exact Nat.succ_le_succ ih

/-- Behind the text the mark stands, or nothing. -/
theorem widthUntil_drop (stop run : List Char) :
    widthUntil stop (run.drop (widthUntil stop run)) = 0 := by
  induction run with
  | nil => rfl
  | cons c run ih =>
      rw [widthUntil]
      split
      · next hp => rw [List.drop_zero, widthUntil, if_pos hp]
      · exact ih

theorem not_infix_take_widthUntil {stop : List Char} (h : stop ≠ []) (run : List Char) :
    ¬ stop <:+: run.take (widthUntil stop run) := by
  induction run with
  | nil =>
      intro hi
      exact h (List.infix_nil.1 hi)
  | cons c run ih =>
      rw [widthUntil]
      split
      · intro hi
        exact h (List.infix_nil.1 hi)
      · next hp =>
          intro hi
          rw [List.take_succ_cons] at hi
          obtain hstart | hlater := List.infix_cons_iff.1 hi
          · refine hp (List.isPrefixOf_iff_prefix.2 (hstart.trans ?_))
            exact List.cons_prefix_cons.2 ⟨rfl, List.take_prefix _ _⟩
          · exact ih hlater

theorem takeUntil_eq_some {stop run : List Char} {count : Nat} (h : takeUntil stop run = some count) :
    count = widthUntil stop run ∧ count ≠ 0 := by
  simp only [takeUntil] at h
  split at h
  · cases h
  · next hn =>
      cases h
      exact ⟨rfl, hn⟩

namespace Node

theorem separated_cons {n : Node} {nodes : List Node} (h : Separated nodes)
    (hn : ∀ m ∈ nodes.head?, ¬ (n.isText = true ∧ m.isText = true)) : Separated (n :: nodes) := by
  cases nodes with
  | nil => trivial
  | cons m rest => exact ⟨hn m rfl, h⟩

theorem IsExpression.isValue {n : Node} (h : n.IsExpression) : n.IsValue := by
  cases n <;> first | exact h | exact h.elim

end Node

namespace Rules

open Rule Node

variable {tokens : Stream} {call : Symbol → Nat → Outcome Piece}

/-! Statements -/

theorem pathOf?_eq_some {piece : Piece} {p : VariablePath} {place : Span}
    (h : HasNode IsPath piece.2) (hp : pathOf? piece = some (p, place)) : p.Bounded := by
  obtain ⟨m, hm, q, span, rfl, hq⟩ := h
  rw [pathOf?, node?_of_payload hm] at hp
  cases hp
  exact hq

theorem filterOf?_eq_some {piece : Piece} {found : Option Node}
    (h : ∃ inner : Option Piece, piece.2 = .optional inner ∧ ∀ parsed ∈ inner,
      HasNode (fun n => ∃ guard span, n = .onlyIf guard span ∧ guard.IsCondition) parsed.2)
    (hf : filterOf? piece = some found) : ∀ guard ∈ found, guard.IsCondition := by
  obtain ⟨inner, hp, hinner⟩ := h
  cases inner with
  | none =>
      rw [filterOf?, optional?_of_payload hp] at hf
      cases hf
      intro guard hguard
      cases hguard
  | some parsed =>
      obtain ⟨m, hm, guard, span, rfl, hguard⟩ := hinner parsed rfl
      simp only [filterOf?, optional?_of_payload hp, node?_of_payload hm, Option.some.injEq] at hf
      subst hf
      rintro other ho
      cases ho
      exact hguard

section Symbols

variable (hcall : ∀ symbol, Yields tokens call (.ref symbol) (HasNode symbol.Shape))

include hcall

theorem yields_guarded {start : TemplateRule} {node : Node → Span → Node} :
    Yields tokens call (guarded start node)
      (HasNode fun n => ∃ guard span, n = node guard span ∧ guard.IsCondition) := by
  refine yields_sequence (yieldsAll_cons (yields_any start) (yieldsAll_cons (yields_any space)
    (yieldsAll_cons (yields_required (hcall .comparison) _) yieldsAll_nil))) ?_
  rintro span _ payload ⟨_, _, rfl, -, _, _, rfl, -, guard, _, rfl, ⟨m, hm, hguard⟩, rfl⟩ hb
  obtain ⟨n, hn, rfl⟩ := shaped_eq_ok hb
  rw [node?_of_payload hm] at hn
  cases hn
  exact ⟨_, rfl, m, span, rfl, hguard⟩

theorem yields_conditional : Yields tokens call conditional (HasNode IsValue) := by
  apply yields_oneOf
  intro r hr
  simp only [List.mem_cons, List.not_mem_nil, or_false] at hr
  obtain rfl | rfl | rfl := hr
  · apply (yields_guarded hcall).node
    intro n hn
    obtain ⟨guard, span, rfl, hguard⟩ := hn
    exact hguard
  · apply (yields_guarded hcall).node
    intro n hn
    obtain ⟨guard, span, rfl, hguard⟩ := hn
    exact hguard
  · exact yields_made fun inner => ⟨_, rfl, trivial⟩

theorem yields_each : Yields tokens call each (HasNode IsValue) := by
  refine yields_sequence (yieldsAll_cons (yields_any _) (yieldsAll_cons (yields_any space)
    (yieldsAll_cons yields_path_node (yieldsAll_cons (yields_any space)
      (yieldsAll_cons (yields_any _) (yieldsAll_cons (yields_any space)
        (yieldsAll_cons (yields_any path) (yieldsAll_cons (yields_any space)
          (yieldsAll_cons (yields_maybe (yields_guarded hcall)) yieldsAll_nil))))))))) ?_
  rintro span _ payload ⟨_, _, rfl, -, _, _, rfl, -, source, _, rfl, hsource, _, _, rfl, -, _, _, rfl,
    -, _, _, rfl, -, name, _, rfl, -, _, _, rfl, -, filter, _, rfl, hfilter, rfl⟩ hb
  simp only [buildEach] at hb
  split at hb
  · next p place q name found hp hq hf =>
      split at hb
      · cases hb
      · exact ⟨_, made_eq_ok hb, pathOf?_eq_some hsource hp, filterOf?_eq_some hfilter hf⟩
  · cases hb

theorem yields_statement : Yields tokens call statement (HasNode IsValue) := by
  apply yields_oneOf
  intro r hr
  have hword : ∀ r ∈ literalRules, Yields tokens call r (HasNode IsValue) := fun r hr =>
    (yields_literal r hr).node fun n hn => hn.1.isValue
  simp only [List.mem_cons, List.not_mem_nil, or_false] at hr
  obtain rfl | rfl | rfl | rfl | rfl | rfl | rfl | hr := hr
  · exact yields_conditional hcall
  · exact yields_each hcall
  · exact (yields_ternary hcall).node fun n hn => hn.isValue
  · exact (hcall .nullish).node fun n hn => hn.1.isValue
  · exact yields_text fun text span => trivial
  · exact (hcall .comparison).node fun n hn => hn.1.isValue
  · exact (hcall .operand).node fun n hn => (IsOperand.isExpression hn).isValue
  · apply hword r
    simp only [literalRules, List.mem_cons, List.not_mem_nil, or_false]
    grind

/-- An interpolation is no text. -/
theorem yields_interpolation :
    Yields tokens call interpolation (HasNode fun n => n.IsPart ∧ n.isText = false) := by
  refine yields_sequence (yieldsAll_cons (yields_any _) (yieldsAll_cons (yields_any space)
    (yieldsAll_cons (yields_any _) (yieldsAll_cons (yields_any space)
      (yieldsAll_cons (yields_any _) (yieldsAll_cons (yields_any space)
        (yieldsAll_cons (yields_required (yields_statement hcall) _)
          (yieldsAll_cons (yields_any space) (yieldsAll_cons (yields_any _)
            (yieldsAll_cons (yields_any space) (yieldsAll_cons (yields_any _) yieldsAll_nil)))))))))))
    ?_
  rintro span _ payload ⟨_, _, rfl, -, _, _, rfl, -, spread, _, rfl, -, _, _, rfl, -, calls, _, rfl, -,
    _, _, rfl, -, value, _, rfl, ⟨m, hm, hvalue⟩, _, _, rfl, -, _, _, rfl, -, _, _, rfl, -, _, _, rfl,
    -, rfl⟩ hb
  obtain ⟨n, hn, rfl⟩ := shaped_eq_ok hb
  obtain ⟨item, -, hn⟩ := Option.bind_eq_some_iff.1 hn
  obtain ⟨modifiers, -, hn⟩ := Option.bind_eq_some_iff.1 hn
  rw [node?_of_payload hm] at hn
  cases hn
  exact ⟨_, rfl, hvalue, rfl⟩

end Symbols

/-! Strings -/

/-- Text is followed by no further text. -/
theorem run_plainText_matched (hc : tokens.Coherent) {start : Nat} {parsed : Piece}
    (h : plainText.run tokens call start = .matched parsed) :
    HasNode (fun n => n.IsPart ∧ n.isText = true) parsed.2 ∧
      ∀ other, plainText.run tokens call parsed.1.stop ≠ .matched other := by
  obtain ⟨inner, hi, hb, hspan⟩ := run_map_matched h
  obtain ⟨count, ht, rfl⟩ := run_chars_matched hi
  obtain ⟨hcount, hne⟩ := takeUntil_eq_some ht
  have hle : count ≤ (tokens.charsAt start).length := hcount ▸ widthUntil_le _ _
  obtain ⟨s, hs, hb⟩ := buildText_eq_ok hb
  cases hs
  refine ⟨⟨_, made_eq_ok hb, ⟨?_, ?_⟩, rfl⟩, fun other ho => ?_⟩
  · rw [String.toList_ofList]
    intro he
    have hlength := congrArg (fun s : String => s.toList.length) he
    simp only [String.toList_ofList, List.length_take_of_le hle] at hlength
    exact hne hlength
  · have hno := not_infix_take_widthUntil (List.cons_ne_nil '\x7b' ['\x7b']) (tokens.charsAt start)
    simp only [String.toList_ofList, hcount]
    exact hno
  · obtain ⟨inner, hi, -⟩ := run_map_matched ho
    obtain ⟨more, hm, -⟩ := run_chars_matched hi
    obtain ⟨hmore, hpos⟩ := takeUntil_eq_some hm
    rw [hspan, List.length_take_of_le hle, hc.charsAt_drop _ _ hle, hcount, widthUntil_drop] at hmore
    exact hpos hmore

variable (hcall : ∀ symbol, Yields tokens call (.ref symbol) (HasNode symbol.Shape))

include hcall

/-- By induction on the parts; behind a text the next part is known to be no text. -/
theorem parts_of_consecutive (hc : tokens.Coherent) {start stop : Nat} {items : List Piece}
    (h : Consecutive (Rule.run tokens call (.oneOf [interpolation, plainText])) start items stop) :
    ∃ nodes, items.mapM node? = some nodes ∧ (∀ part ∈ nodes, part.IsPart) ∧ Separated nodes ∧
      ((∀ other, plainText.run tokens call start ≠ .matched other) →
        ∀ n ∈ nodes.head?, n.isText = false) := by
  induction items generalizing start with
  | nil => exact ⟨[], rfl, nofun, trivial, nofun⟩
  | cons parsed items ih =>
      obtain ⟨hp, -, hs⟩ := h
      obtain ⟨nodes, hm, hall, hseparated, hhead⟩ := ih hs
      obtain ⟨r, hr, hp⟩ := run_oneOf_matched hp
      have hcons : ∀ n, parsed.2 = .value (.node n) →
          (parsed :: items).mapM node? = some (n :: nodes) := by
        intro n hn
        rw [List.mapM_cons, node?_of_payload hn, hm]
        rfl
      simp only [List.mem_cons, List.not_mem_nil, or_false] at hr
      obtain rfl | rfl := hr
      · obtain ⟨n, hn, hpart, htext⟩ := yields_interpolation hcall start parsed hp
        refine ⟨n :: nodes, hcons n hn, List.forall_mem_cons.2 ⟨hpart, hall⟩, ?_, fun _ m hm => ?_⟩
        · apply separated_cons hseparated
          intro m _ ht
          rw [htext] at ht
          cases ht.1
        · cases hm
          exact htext
      · obtain ⟨⟨n, hn, hpart, htext⟩, hnext⟩ := run_plainText_matched hc hp
        refine ⟨n :: nodes, hcons n hn, List.forall_mem_cons.2 ⟨hpart, hall⟩, ?_, fun hno => ?_⟩
        · apply separated_cons hseparated
          intro m hm ht
          rw [hhead hnext m hm] at ht
          cases ht.2
        · exact absurd hp (hno parsed)

theorem yields_template (hc : tokens.Coherent) : Yields tokens call template (HasNode IsTemplate) := by
  have hparts : Yields tokens call (must (.many (.oneOf [interpolation, plainText])) .stringParts)
      fun payload => ∃ items nodes, payload = .repeated items ∧ items.mapM node? = some nodes ∧
        (∀ part ∈ nodes, part.IsPart) ∧ Separated nodes := by
    refine yields_required (fun start parsed hr => ?_) _
    obtain ⟨stop, items, hs, rfl⟩ := run_many_matched hr
    obtain ⟨nodes, hm, hall, hseparated, -⟩ := parts_of_consecutive hcall hc hs
    exact ⟨items, nodes, rfl, hm, hall, hseparated⟩
  refine yields_sequence (yieldsAll_cons (yields_any _) (yieldsAll_cons hparts
    (yieldsAll_cons (yields_any _) yieldsAll_nil))) ?_
  rintro span _ payload ⟨_, _, rfl, -, parts, _, rfl, ⟨items, nodes, hp, hm, hshape⟩, _, _, rfl, -,
    rfl⟩ hb
  obtain ⟨n, hn, rfl⟩ := shaped_eq_ok hb
  rw [items?_of_payload hp, Option.bind_some, hm] at hn
  cases hn
  exact ⟨_, rfl, hshape⟩

/-! Documents -/

omit hcall in
theorem mapM_all {α : Type} {read? : Piece → Option α} {q : α → Prop} {items : List Piece}
    {found : List α} (h : ∀ piece ∈ items, ∀ a, read? piece = some a → q a)
    (hm : items.mapM read? = some found) : ∀ a ∈ found, q a := by
  induction items generalizing found with
  | nil =>
      cases hm
      nofun
  | cons piece items ih =>
      rw [List.mapM_cons] at hm
      obtain ⟨a, ha, hm⟩ := Option.bind_eq_some_iff.1 hm
      obtain ⟨rest, hrest, hm⟩ := Option.bind_eq_some_iff.1 hm
      cases hm
      exact List.forall_mem_cons.2 ⟨h piece List.mem_cons_self a ha,
        ih (fun other ho => h other (List.mem_cons_of_mem piece ho)) hrest⟩

theorem yields_arrayEntry : Yields tokens call arrayEntry (HasNode IsDocument) := by
  refine yields_sequence (yieldsAll_cons (yields_any _) (yieldsAll_cons (hcall .document)
    (yieldsAll_cons (yields_any _) yieldsAll_nil))) ?_
  rintro span _ payload ⟨_, _, rfl, -, item, _, rfl, ⟨m, hm, hitem⟩, _, _, rfl, -, rfl⟩ hb
  obtain ⟨n, hn, rfl⟩ := shaped_eq_ok hb
  rw [node?_of_payload hm] at hn
  cases hn
  exact ⟨_, rfl, hitem⟩

theorem yields_array : Yields tokens call array (HasNode IsDocument) := by
  refine yields_sequence (yieldsAll_cons (yields_any _)
    (yieldsAll_cons (yields_required (yields_many (yields_arrayEntry hcall)) _)
      (yieldsAll_cons (yields_any _) yieldsAll_nil))) ?_
  rintro span _ payload ⟨_, _, rfl, -, list, _, rfl, ⟨items, hp, hitems⟩, _, _, rfl, -, rfl⟩ hb
  obtain ⟨n, hn, rfl⟩ := shaped_eq_ok hb
  rw [items?_of_payload hp, Option.bind_some] at hn
  obtain ⟨nodes, hm, rfl⟩ := Option.map_eq_some_iff.1 hn
  refine ⟨_, rfl, areDocuments_iff.2 (mapM_all (fun piece hpiece n hn => ?_) hm)⟩
  obtain ⟨m, hpayload, hdocument⟩ := hitems piece hpiece
  rw [node?_of_payload hpayload] at hn
  cases hn
  exact hdocument

/-- An entry with a template for its key. -/
def HasEntry (payload : Payload Fragment) : Prop :=
  ∃ e, payload = .value (.entry e) ∧ e.key.IsTemplate ∧ e.value.IsDocument

theorem yields_objectEntry (hc : tokens.Coherent) : Yields tokens call objectEntry HasEntry := by
  refine yields_sequence (yieldsAll_cons (yields_any _) (yieldsAll_cons (yields_any _)
    (yieldsAll_cons (yields_required (yields_template hcall hc) _) (yieldsAll_cons (yields_any _)
      (yieldsAll_cons (yields_any _) (yieldsAll_cons (hcall .document)
        (yieldsAll_cons (yields_any _) (yieldsAll_cons (yields_any _) yieldsAll_nil)))))))) ?_
  rintro span _ payload ⟨_, _, rfl, -, _, _, rfl, -, key, _, rfl, ⟨k, hk, hkey⟩, _, _, rfl, -, _, _,
    rfl, -, value, _, rfl, ⟨v, hv, hvalue⟩, _, _, rfl, -, _, _, rfl, -, rfl⟩ hb
  simp only [buildObjectEntry, node?_of_payload hk, node?_of_payload hv] at hb
  cases hb
  exact ⟨_, rfl, hkey, hvalue⟩

theorem yields_object (hc : tokens.Coherent) : Yields tokens call object (HasNode IsDocument) := by
  refine yields_sequence (yieldsAll_cons (yields_any _)
    (yieldsAll_cons (yields_required (yields_many (yields_objectEntry hcall hc)) _)
      (yieldsAll_cons (yields_any _) yieldsAll_nil))) ?_
  rintro span _ payload ⟨_, _, rfl, -, list, _, rfl, ⟨items, hp, hitems⟩, _, _, rfl, -, rfl⟩ hb
  obtain ⟨n, hn, rfl⟩ := shaped_eq_ok hb
  rw [items?_of_payload hp, Option.bind_some] at hn
  obtain ⟨entries, hm, rfl⟩ := Option.map_eq_some_iff.1 hn
  refine ⟨_, rfl, areEntries_iff.2 (mapM_all (fun piece hpiece e he => ?_) hm)⟩
  obtain ⟨found, hpayload, hentry⟩ := hitems piece hpiece
  obtain ⟨place, payload⟩ := piece
  cases hpayload
  cases he
  exact hentry

omit hcall in
theorem yields_scalar : Yields tokens call scalar (HasNode IsDocument) := by
  intro start parsed hr
  obtain ⟨token, v, -, hv, rfl⟩ := run_scalar_matched hr
  split at hv <;> cases hv <;> exact ⟨_, rfl, trivial⟩

theorem yields_document (hc : tokens.Coherent) : Yields tokens call document (HasNode IsDocument) := by
  refine yields_required (yields_oneOf fun r hr => ?_) _
  simp only [List.mem_cons, List.not_mem_nil, or_false] at hr
  obtain rfl | rfl | rfl | rfl := hr
  · apply (yields_template hcall hc).node
    intro n hn
    cases n with
    | template parts span => exact hn
    | _ => exact hn.elim
  · exact yields_scalar
  · exact yields_array hcall
  · exact yields_object hcall hc

omit hcall in
/-- Every symbol makes what it stands for, however deep its calls go. -/
theorem parse_shape (hc : tokens.Coherent) (n : Nat) (symbol : Symbol) :
    Yields tokens (grammar.parse tokens n) (.ref symbol) (HasNode symbol.Shape) := by
  induction n generalizing symbol with
  | zero =>
      intro start parsed h
      cases h
  | succ n ih =>
      intro start parsed h
      have hb := parse_matched h
      by_cases hs : symbol = .document
      · subst hs
        exact yields_document ih hc start parsed hb
      · exact yields_body ih hs start parsed hb

end Rules

namespace Template

/-- Whatever compiles has a tree of this shape. -/
theorem isDocument_of_compile {document : Json} {t : Template} (h : compile document = .ok t) :
    t.tree.IsDocument := by
  have hc := Stream.coherent_ofJson document
  simp only [compile] at h
  split at h
  · next tree ht =>
      cases h
      simp only [Stream.tree] at ht
      split at ht
      · next span payload hr =>
          obtain ⟨n, hn, hshape⟩ := Rules.parse_shape hc _ .document 0 _ hr
          split at ht
          · cases ht
          · cases hn
            cases ht
            exact hshape
      · cases ht
      · cases ht
      · cases ht
  · cases h

/-- A list of a scalar and a string. -/
theorem isDocument_of_compile_list :
    ∃ t, compile (.arr [.null, .str "\x7b\x7b 1 + 2 \x7d\x7d"]) = .ok t ∧ t.tree.IsDocument := by
  have hb := gap_blank
  have hone : Writing.Writes .atom (.number (.int 1 (by decide)) (.empty 0))
      (toString (1 : Int)).toList := .number rfl rfl
  have htwo : Writing.Writes .atom (.number (.int 2 (by decide)) (.empty 0))
      (toString (2 : Int)).toList := .number rfl rfl
  have hsum : Writing.WritesInterpolation (.interpolation false [] _ (.empty 0))
      "\x7b\x7b 1 + 2 \x7d\x7d".toList :=
    .mk hb .no .none (.operand (.operation .add hone hb hb (.atom htwo))) hb .none
  obtain ⟨n, hn, -⟩ := Rules.readText_of_interpolation (Rules.reads_interpolation hsum [])
  have hr : ∃ tree, Rules.read 0 (.arr [.null, .str "\x7b\x7b 1 + 2 \x7d\x7d"]) = .ok tree := by
    simp only [Rules.read, Rules.readItems, Rules.readTextAt_of_readText hn]
    exact ⟨_, rfl⟩
  obtain ⟨tree, hr⟩ := hr
  exact ⟨_, compile_of_read hr, isDocument_of_compile (compile_of_read hr)⟩

end Template
end JsonTemplate
