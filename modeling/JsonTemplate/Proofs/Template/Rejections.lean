import JsonTemplate.Proofs.Evaluation.Failures
import JsonTemplate.Proofs.Expression.Rejections
import JsonTemplate.Proofs.Template.Containers

/-!
Every error is well formed. A document that does not compile is rejected, by an expectation
and those around it, at a token of the document; a template that cannot be rendered fails at
one node of its tree.
-/

namespace JsonTemplate
namespace Rules

open Rule

variable {tokens : Stream} {call : Symbol → Nat → Outcome Piece}

theorem proper_around {inner : TemplateRule} {P : Payload Fragment → Prop}
    (h : Proper tokens call inner P) : Proper tokens call (around inner) fun _ => True :=
  proper_sequence_none (properAll_cons proper_space (properAll_cons h
    (properAll_cons proper_space properAll_nil)))

theorem proper_flatten : Proper tokens call flatten (· = .value .flatten) :=
  proper_sequence (properAll_cons (proper_chars _) (properAll_cons proper_space
    (properAll_cons (proper_around (proper_text _)) properAll_nil))) fun _ _ _ => rfl

section Symbols

variable (hcall : ∀ symbol, symbol ≠ .document → Proper tokens call (.ref symbol) IsTree)

include hcall

theorem proper_guarded {start : TemplateRule} {P : Payload Fragment → Prop}
    (h : Proper tokens call start P) (node : Node → Span → Node) :
    Proper tokens call (guarded start node)
      (HasNode fun n => ∃ guard span, n = node guard span) := by
  refine proper_sequence (properAll_cons h (properAll_cons proper_space
    (properAll_cons (proper_must (hcall .comparison nofun) _) properAll_nil))) ?_
  rintro span _ ⟨_, _, rfl, -, _, _, rfl, -, guard, _, rfl, ⟨m, hm, -⟩, rfl⟩
  rw [buildGuard, node?_of_payload hm]
  exact ⟨_, rfl, m, span, rfl⟩

theorem proper_onlyIf :
    Proper tokens call onlyIf (HasNode fun n => ∃ guard span, n = .onlyIf guard span) :=
  proper_guarded hcall (proper_chars _) .onlyIf

theorem proper_conditional : Proper tokens call conditional IsTree := by
  have hword : Proper tokens call
      (.oneOf [.keyword "ifelse", .sequence [.keyword "else", space, .keyword "if"] none])
      fun _ => True := by
    refine proper_oneOf fun r hr => ?_
    simp only [List.mem_cons, List.not_mem_nil, or_false] at hr
    obtain rfl | rfl := hr
    · exact (proper_chars _).imp fun _ _ => trivial
    · exact proper_sequence_none (properAll_cons (proper_chars _) (properAll_cons proper_space
        (properAll_cons (proper_chars _) properAll_nil)))
  refine proper_oneOf fun r hr => ?_
  simp only [List.mem_cons, List.not_mem_nil, or_false] at hr
  obtain rfl | rfl | rfl := hr
  · exact Proper.isTree (proper_onlyIf hcall)
  · exact Proper.isTree (proper_guarded hcall hword .elseIf)
  · exact proper_keyword_made _ _

omit hcall in
theorem pathOf?_of_isPath {piece : Piece} (h : HasNode IsPath piece.2) :
    ∃ p span, pathOf? piece = some (p, span) := by
  obtain ⟨m, hm, p, span, rfl, -⟩ := h
  refine ⟨p, span, ?_⟩
  rw [pathOf?, node?_of_payload hm]

omit hcall in
theorem filterOf?_of_optional {piece : Piece}
    (h : ∃ inner : Option Piece, piece.2 = .optional inner ∧ ∀ parsed ∈ inner,
      HasNode (fun n => ∃ guard span, n = .onlyIf guard span) parsed.2) :
    ∃ filter, filterOf? piece = some filter := by
  obtain ⟨inner, hp, hinner⟩ := h
  cases inner with
  | none =>
      refine ⟨none, ?_⟩
      rw [filterOf?, optional?_of_payload hp]
  | some parsed =>
      obtain ⟨m, hm, guard, span, rfl⟩ := hinner parsed rfl
      refine ⟨some guard, ?_⟩
      simp only [filterOf?, optional?_of_payload hp, node?_of_payload hm]

theorem proper_each : Proper tokens call each IsTree := by
  refine proper_sequence (properAll_cons (proper_chars _) (properAll_cons proper_space
    (properAll_cons proper_path (properAll_cons proper_space
      (properAll_cons (proper_chars _) (properAll_cons proper_space
        (properAll_cons proper_path (properAll_cons proper_space
          (properAll_cons (proper_maybe (proper_onlyIf hcall)) properAll_nil))))))))) ?_
  rintro span _ ⟨_, _, rfl, -, _, _, rfl, -, source, _, rfl, hsource, _, _, rfl, -, _, _, rfl, -, _, _,
    rfl, -, name, _, rfl, hname, _, _, rfl, -, filter, _, rfl, hfilter, rfl⟩
  obtain ⟨p, place, hp⟩ := pathOf?_of_isPath hsource
  obtain ⟨q, other, hq⟩ := pathOf?_of_isPath hname
  obtain ⟨found, hf⟩ := filterOf?_of_optional hfilter
  simp only [buildEach, hp, hq, hf]
  split
  · exact proper_reject _ _
  · exact proper_made _

theorem proper_statement : Proper tokens call statement IsTree := by
  refine proper_oneOf fun r hr => ?_
  simp only [List.mem_cons, List.not_mem_nil, or_false] at hr
  obtain rfl | rfl | rfl | rfl | rfl | rfl | rfl | hr := hr
  · exact proper_conditional hcall
  · exact proper_each hcall
  · exact proper_ternary hcall
  · exact hcall .nullish nofun
  · exact proper_comment
  · exact hcall .comparison nofun
  · exact hcall .operand nofun
  · apply proper_literal r
    simp only [literalRules, List.mem_cons, List.not_mem_nil, or_false]
    grind

theorem proper_interpolation : Proper tokens call interpolation IsTree := by
  refine proper_sequence (properAll_cons (proper_text _) (properAll_cons proper_space
    (properAll_cons (proper_maybe (proper_around (proper_text _))) (properAll_cons proper_space
      (properAll_cons (proper_many proper_flatten) (properAll_cons proper_space
        (properAll_cons (proper_must (proper_statement hcall) _) (properAll_cons proper_space
          (properAll_cons (proper_maybe proper_comment) (properAll_cons proper_space
            (properAll_cons (proper_text _) properAll_nil))))))))))) ?_
  rintro span _ ⟨_, _, rfl, -, _, _, rfl, -, spread, _, rfl, ⟨inner, hs, -⟩, _, _, rfl, -, calls, _,
    rfl, ⟨items, hcalls, hitems⟩, _, _, rfl, -, value, _, rfl, ⟨m, hm, -⟩, _, _, rfl, -, _, _, rfl, -,
    _, _, rfl, -, _, _, rfl, -, rfl⟩
  have hmodifier : ∀ piece ∈ items, ∃ modifier, modifier? piece = some modifier := by
    rintro ⟨place, payload⟩ hpiece
    cases hitems _ hpiece
    exact ⟨.flatten, rfl⟩
  obtain ⟨modifiers, hmodifiers⟩ := exists_mapM hmodifier
  simp only [buildInterpolation, optional?_of_payload hs, items?_of_payload hcalls,
    node?_of_payload hm, Option.bind_eq_bind, Option.bind_some, hmodifiers]
  exact proper_made _

theorem proper_template : Proper tokens call template IsTree := by
  have hpart : Proper tokens call (.oneOf [interpolation, plainText]) IsTree := by
    refine proper_oneOf fun r hr => ?_
    simp only [List.mem_cons, List.not_mem_nil, or_false] at hr
    obtain rfl | rfl := hr
    · exact proper_interpolation hcall
    · exact proper_buildText (proper_chars _) fun _ _ => proper_made _
  refine proper_sequence (properAll_cons (proper_tag _)
    (properAll_cons (proper_must (proper_many hpart) _)
      (properAll_cons (proper_must (proper_tag _) _) properAll_nil))) ?_
  rintro span _ ⟨_, _, rfl, -, parts, _, rfl, ⟨items, hp, hitems⟩, _, _, rfl, -, rfl⟩
  have hnode : ∀ piece ∈ items, ∃ n, node? piece = some n := fun piece hpiece =>
    have ⟨n, hn, _⟩ := hitems piece hpiece
    ⟨n, node?_of_payload hn⟩
  obtain ⟨nodes, hnodes⟩ := exists_mapM hnode
  simp only [buildNodes, items?_of_payload hp, Option.bind_some, hnodes, Option.map_some]
  exact proper_made _

end Symbols

/-! Documents -/

/-- What is read here fails with rejections only. -/
def Rejects {α : Type} (r : Except Failure α) : Prop := ∀ x, r = .error x → x.IsRejection

section Rejects

variable {α β : Type}

theorem rejects_under {r : Except Failure α} (h : Rejects r) (e : Expectation) :
    Rejects (under e r) := by
  intro x hx
  cases r with
  | ok a => cases hx
  | error y =>
      cases hx
      exact (h y rfl).under _

theorem rejects_map {r : Except Failure α} (h : Rejects r) (f : α → β) : Rejects (r.map f) := by
  intro x hx
  cases r with
  | ok a => cases hx
  | error y =>
      cases hx
      exact h x rfl

theorem rejects_bind {r : Except Failure α} {next : α → Except Failure β} (h : Rejects r)
    (hn : ∀ a, Rejects (next a)) : Rejects (r >>= next) := by
  intro x hx
  cases r with
  | ok a => exact hn a x hx
  | error y =>
      cases hx
      exact h x rfl

end Rejects

theorem rejects_readText (s : String) : Rejects (readText s) := by
  intro x hx
  have hr := run_template_alone s
  rw [hx] at hr
  exact (proper_template fun _ => parse_proper _).rejects 0 x hr

theorem rejects_readTextAt (start : Nat) (s : String) : Rejects (readTextAt start s) := by
  intro x hx
  rw [readTextAt] at hx
  cases hr : readText s with
  | ok n =>
      rw [hr] at hx
      cases hx
  | error y =>
      rw [hr] at hx
      cases hx
      exact (rejects_readText s y hr).relocate _

theorem rejects_entryOf (span : Span) {key value : Except Failure Node} (hk : Rejects key)
    (hv : Rejects value) : Rejects (entryOf span key value) :=
  rejects_bind (rejects_under hk _) fun k => rejects_map hv (Entry.mk k · span)

mutual

theorem rejects_read (start : Nat) : (v : Json) → Rejects (read start v)
  | .null | .bool _ | .num _ => nofun
  | .str s => rejects_under (rejects_readTextAt start s) _
  | .arr items => rejects_map (rejects_under (rejects_under (rejects_readItems _ items) _) _) _
  | .obj fields => rejects_map (rejects_under (rejects_under (rejects_readFields _ fields) _) _) _

theorem rejects_readItems (start : Nat) : (items : List Json) → Rejects (readItems start items)
  | [] => nofun
  | item :: rest =>
      rejects_bind (rejects_read _ item) fun node =>
        rejects_map (rejects_readItems _ rest) (node :: ·)

theorem rejects_readFields (start : Nat) : (fields : List (String × Json)) →
    Rejects (readFields start fields)
  | [] => nofun
  | (name, v) :: rest =>
      rejects_bind (rejects_entryOf _ (rejects_readTextAt _ name) (rejects_read _ v)) fun entry =>
        rejects_map (rejects_readFields _ rest) (entry :: ·)

end

/-- What goes wrong in a document goes wrong at one of its tokens. -/
theorem start_of_read_error {document : Json} {x : Failure} (h : read 0 document = .error x) :
    x.head.span.start < (Stream.ofJson document).size := by
  have ht := traverses_read 0 document
  rw [h] at ht
  obtain ⟨front, start, s, back, y, hs, -, hy, hspan, -⟩ := ht
  have hmem : (start, s) ∈ document.strings 0 := by simp [hs]
  have hspells := Json.spells_of_mem_strings .root 0 document (Stream.holds_ofJson document) hmem
  have hin := span_of_readText_error hy
  have hsize := hspells.size
  omega

end Rules

namespace Template

/-- A document that does not compile is rejected at one of its tokens, and a template that
cannot be rendered fails at one of its nodes. -/
theorem errors_wellFormed :
    (∀ document e, compile document = .error e → ∃ x,
      e = .locate x (Stream.ofJson document) document ∧ x.IsRejection ∧
      x.head.span.start < (Stream.ofJson document).size) ∧
    ∀ document t, compile document = .ok t → ∀ parameters o e,
      t.render (.obj parameters) o = .error e → ∃ x,
        e = .locate x t.tokens document ∧ x.RaisedIn t.tree.nodes := by
  constructor
  · intro document e h
    obtain ⟨x, hx, rfl⟩ := compile_eq_error_iff.1 h
    exact ⟨x, rfl, Rules.rejects_read 0 document x hx, Rules.start_of_read_error hx⟩
  · intro document t ht parameters o e h
    obtain ⟨n, -, rfl⟩ := compile_eq_ok_iff.1 ht
    obtain ⟨x, hx, rfl⟩ := render_eq_error_iff.1 h
    exact ⟨x, rfl, Evaluation.raises_evaluate _ n (List.Subset.refl _) .value _ x hx⟩

/-- Brackets that are left open, and a key that is read on nothing. -/
theorem errors_wellFormed_open :
    (∃ x, compile (.str "\x7b\x7b")
        = .error (.locate x (Stream.ofJson (.str "\x7b\x7b")) (.str "\x7b\x7b")) ∧
      x.IsRejection ∧ x.head.span.start < (Stream.ofJson (.str "\x7b\x7b")).size) ∧
    ∃ t x, compile (.str "\x7b\x7b a.b \x7d\x7d") = .ok t ∧
      t.render (.obj []) .none = .error (.locate x t.tokens (.str "\x7b\x7b a.b \x7d\x7d")) ∧
      x.RaisedIn t.tree.nodes := by
  have hopen : (compile (.str "\x7b\x7b")).isOk = false := by decide +kernel
  have hmissing : (expand (.str "\x7b\x7b a.b \x7d\x7d") (.obj []) .none).isOk = false := by
    decide +kernel
  have hcompiles : (compile (.str "\x7b\x7b a.b \x7d\x7d")).isOk = true := by decide +kernel
  constructor
  · cases h : compile (.str "\x7b\x7b") with
    | ok t =>
        rw [h] at hopen
        cases hopen
    | error e =>
        obtain ⟨x, rfl, hx⟩ := errors_wellFormed.1 _ e h
        exact ⟨x, rfl, hx⟩
  · cases ht : compile (.str "\x7b\x7b a.b \x7d\x7d") with
    | error e =>
        rw [ht] at hcompiles
        cases hcompiles
    | ok t =>
        rw [expand, ht] at hmissing
        cases h : t.render (.obj []) .none with
        | ok v =>
            have hok : (t.render (.obj []) .none).isOk = false := hmissing
            rw [h] at hok
            cases hok
        | error e =>
            obtain ⟨x, rfl, hx⟩ := errors_wellFormed.2 _ t ht [] .none e h
            exact ⟨t, x, rfl, h, hx⟩

end Template
end JsonTemplate
