import JsonTemplate.Proofs.Expression.Recursion

/-!
What rules read off text. `Reads r text rest P` says that `r` takes exactly `text` when
`rest` follows it, in whatever string the two stand, and that `P` holds of the match;
`Refuses r text` says that `r` does not match there, `Declines` that it does not even fail.
Each form of rule has one lemma for what it reads and one for what it refuses, and no
later proof runs a rule.
-/

namespace JsonTemplate
namespace Rules

/-- A rule takes `text` before `rest`, with a match of this kind. -/
def Reads (r : TemplateRule) (text rest : List Char) (P : Payload Fragment → Prop) : Prop :=
  ∀ tokens : Stream, tokens.Coherent → ∀ start, tokens.charsAt start = text ++ rest →
    ∃ payload, r.run tokens (run tokens) start = .matched (⟨start, start + text.length⟩, payload) ∧
      P payload

def ReadsAll (parts : List TemplateRule) (text rest : List Char) (P : List Piece → Prop) : Prop :=
  ∀ tokens : Stream, tokens.Coherent → ∀ start, tokens.charsAt start = text ++ rest →
    ∃ pieces, Rule.runAll tokens (run tokens) parts start
      = .matched (start + text.length, pieces) ∧ P pieces

/-- The outcome is no match, with or without a failure. -/
def Barren {α : Type} (o : Outcome α) : Prop := o = .noMatch ∨ ∃ x, o = .committed x

def Refuses (r : TemplateRule) (text : List Char) : Prop :=
  ∀ tokens : Stream, tokens.Coherent → ∀ start, tokens.charsAt start = text →
    Barren (r.run tokens (run tokens) start)

def RefusesAll (parts : List TemplateRule) (text : List Char) : Prop :=
  ∀ tokens : Stream, tokens.Coherent → ∀ start, tokens.charsAt start = text →
    Barren (Rule.runAll tokens (run tokens) parts start)

def Declines (r : TemplateRule) (text : List Char) : Prop :=
  ∀ tokens : Stream, tokens.Coherent → ∀ start, tokens.charsAt start = text →
    r.run tokens (run tokens) start = .noMatch

variable {r item part : TemplateRule} {rules parts : List TemplateRule}
  {text more rest : List Char} {P Q : Payload Fragment → Prop}

theorem Declines.refuses (h : Declines r text) : Refuses r text :=
  fun tokens hc start ht => .inl (h tokens hc start ht)

theorem Reads.imp (h : Reads r text rest P) (hp : ∀ payload, P payload → Q payload) :
    Reads r text rest Q := by
  intro tokens hc start ht
  obtain ⟨payload, hr, hpayload⟩ := h tokens hc start ht
  exact ⟨payload, hr, hp payload hpayload⟩

theorem ReadsAll.imp {R S : List Piece → Prop} (h : ReadsAll parts text rest R)
    (hp : ∀ pieces, R pieces → S pieces) : ReadsAll parts text rest S := by
  intro tokens hc start ht
  obtain ⟨pieces, hr, hpieces⟩ := h tokens hc start ht
  exact ⟨pieces, hr, hp pieces hpieces⟩

/-! Symbols -/

theorem reads_ref {symbol : Symbol} (h : Reads (body symbol) text rest P) :
    Reads (.ref symbol) text rest P := by
  intro tokens hc start ht
  rw [Rule.run, run_eq_body hc]
  exact h tokens hc start ht

theorem refuses_ref {symbol : Symbol} (h : Refuses (body symbol) text) :
    Refuses (.ref symbol) text := by
  intro tokens hc start ht
  rw [Rule.run, run_eq_body hc]
  exact h tokens hc start ht

/-! Terminals -/

theorem reads_chars {take? : List Char → Option Nat}
    (h : take? (text ++ rest) = some text.length) :
    Reads (.chars take?) text rest (· = .text (String.ofList text)) := by
  intro tokens hc start ht
  exact ⟨_, by simp only [Rule.run, ht, h, List.take_left], rfl⟩

theorem declines_chars {take? : List Char → Option Nat} (h : take? text = none) :
    Declines (.chars take?) text := by
  intro tokens hc start ht
  simp only [Rule.run, ht, h]

/-! Alternatives -/

theorem reads_oneOf_head (h : Reads r text rest P) : Reads (.oneOf (r :: rules)) text rest P := by
  intro tokens hc start ht
  obtain ⟨payload, hr, hp⟩ := h tokens hc start ht
  exact ⟨payload, by simp only [Rule.run, Rule.runFirst, hr], hp⟩

theorem reads_oneOf_tail (hr : Refuses r (text ++ rest)) (h : Reads (.oneOf rules) text rest P) :
    Reads (.oneOf (r :: rules)) text rest P := by
  intro tokens hc start ht
  obtain ⟨payload, hm, hp⟩ := h tokens hc start ht
  rw [Rule.run] at hm
  refine ⟨payload, ?_, hp⟩
  obtain hn | ⟨x, hx⟩ := hr tokens hc start ht
  · simp only [Rule.run, Rule.runFirst, hn, hm]
  · simp only [Rule.run, Rule.runFirst, hx, hm]

theorem refuses_oneOf (h : ∀ r ∈ rules, Refuses r text) : Refuses (.oneOf rules) text := by
  intro tokens hc start ht
  rw [Rule.run]
  induction rules with
  | nil => exact .inl rfl
  | cons r rules ih =>
      have hrest := ih fun s hs => h s (List.mem_cons_of_mem r hs)
      rw [Rule.runFirst]
      obtain hn | ⟨x, hx⟩ := h r List.mem_cons_self tokens hc start ht
      · rw [hn]
        exact hrest
      · rw [hx]
        obtain hn | ⟨y, hy⟩ := hrest
        · exact .inr ⟨x, by rw [hn]⟩
        · exact .inr ⟨y, by rw [hy]⟩

theorem declines_oneOf (h : ∀ r ∈ rules, Declines r text) : Declines (.oneOf rules) text := by
  intro tokens hc start ht
  rw [Rule.run]
  induction rules with
  | nil => rfl
  | cons r rules ih =>
      rw [Rule.runFirst, h r List.mem_cons_self tokens hc start ht]
      exact ih fun s hs => h s (List.mem_cons_of_mem r hs)

/-- If each alternative reads the text alike or refuses it, and one reads it, so do all
together. -/
theorem reads_oneOf (h : ∀ r ∈ rules, Reads r text rest P ∨ Refuses r (text ++ rest))
    (hr : ∃ r ∈ rules, Reads r text rest P) : Reads (.oneOf rules) text rest P := by
  induction rules with
  | nil =>
      obtain ⟨r, hr, -⟩ := hr
      cases hr
  | cons r rules ih =>
      obtain ⟨s, hs, hread⟩ := hr
      cases hs with
      | head => exact reads_oneOf_head hread
      | tail _ hs =>
          obtain hhead | hhead := h r List.mem_cons_self
          · exact reads_oneOf_head hhead
          · refine reads_oneOf_tail hhead (ih (fun q hq => h q (List.mem_cons_of_mem r hq)) ?_)
            exact ⟨s, hs, hread⟩

theorem reads_oneOf_after {front back : List TemplateRule}
    (hf : ∀ r ∈ front, Refuses r (text ++ rest)) (h : Reads r text rest P) :
    Reads (.oneOf (front ++ r :: back)) text rest P := by
  induction front with
  | nil => exact reads_oneOf_head h
  | cons s front ih =>
      exact reads_oneOf_tail (hf s List.mem_cons_self)
        (ih fun q hq => hf q (List.mem_cons_of_mem s hq))

/-! Rules around one item -/

theorem reads_must (h : Reads item text rest P) (e : Expectation) :
    Reads (must item e) text rest P := by
  intro tokens hc start ht
  obtain ⟨payload, hr, hp⟩ := h tokens hc start ht
  exact ⟨payload, by simp only [must, Rule.run, hr], hp⟩

theorem refuses_must (h : Refuses item text) (e : Expectation) : Refuses (must item e) text := by
  intro tokens hc start ht
  obtain hn | ⟨x, hx⟩ := h tokens hc start ht
  · exact .inr ⟨_, by simp only [must, Rule.run, hn]; rfl⟩
  · exact .inr ⟨_, by simp only [must, Rule.run, hx]; rfl⟩

/-- An optional item that is there. -/
def IsSome (P : Payload Fragment → Prop) (payload : Payload Fragment) : Prop :=
  ∃ piece, payload = .optional (some piece) ∧ P piece.2

theorem reads_maybe (h : Reads item text rest P) : Reads (.maybe item) text rest (IsSome P) := by
  intro tokens hc start ht
  obtain ⟨payload, hr, hp⟩ := h tokens hc start ht
  exact ⟨_, by simp only [Rule.run, hr], (⟨start, start + text.length⟩, payload), rfl, hp⟩

theorem reads_maybe_nothing (h : Refuses item rest) :
    Reads (.maybe item) [] rest (· = .optional none) := by
  intro tokens hc start ht
  obtain hn | ⟨x, hx⟩ := h tokens hc start ht
  · exact ⟨_, by simp only [Rule.run, hn]; rfl, rfl⟩
  · exact ⟨_, by simp only [Rule.run, hx]; rfl, rfl⟩

theorem reads_map {build : Piece → Build Fragment} (h : Reads item text rest P)
    (hb : ∀ span payload, P payload → ∃ built, build (span, payload) = .ok (some built) ∧ Q built) :
    Reads (.map item build) text rest Q := by
  intro tokens hc start ht
  obtain ⟨payload, hr, hp⟩ := h tokens hc start ht
  obtain ⟨built, hbuilt, hq⟩ := hb ⟨start, start + text.length⟩ payload hp
  exact ⟨built, by simp only [Rule.run, hr, Outcome.matched_bind, hbuilt, Outcome.ofBuild], hq⟩

theorem refuses_map {build : Piece → Build Fragment} (h : Refuses item text) :
    Refuses (.map item build) text := by
  intro tokens hc start ht
  obtain hn | ⟨x, hx⟩ := h tokens hc start ht
  · exact .inl (by simp only [Rule.run, hn, Outcome.noMatch_bind])
  · exact .inr ⟨x, by simp only [Rule.run, hx, Outcome.committed_bind]⟩

theorem declines_map {build : Piece → Build Fragment} (h : Declines item text) :
    Declines (.map item build) text := by
  intro tokens hc start ht
  simp only [Rule.run, h tokens hc start ht, Outcome.noMatch_bind]

/-- A builder may decline what its rule reads. -/
theorem refuses_map_build {build : Piece → Build Fragment} (h : Reads item text rest P)
    (hb : ∀ span payload, P payload → build (span, payload) = .ok none) :
    Refuses (.map item build) (text ++ rest) := by
  intro tokens hc start ht
  obtain ⟨payload, hr, hp⟩ := h tokens hc start ht
  exact .inl (by simp only [Rule.run, hr, Outcome.matched_bind, hb _ payload hp, Outcome.ofBuild])

/-! Sequences -/

theorem readsAll_cons {R : List Piece → Prop} (h : Reads part text (more ++ rest) P)
    (hs : ReadsAll parts more rest R) :
    ReadsAll (part :: parts) (text ++ more) rest
      fun pieces => ∃ piece pieces', pieces = piece :: pieces' ∧ P piece.2 ∧ R pieces' := by
  intro tokens hc start ht
  rw [List.append_assoc] at ht
  obtain ⟨payload, hr, hp⟩ := h tokens hc start ht
  obtain ⟨pieces, ha, hpieces⟩ := hs tokens hc _ (hc.charsAt_add _ _ _ ht)
  refine ⟨_, ?_, (⟨start, start + text.length⟩, payload), pieces, rfl, hp, hpieces⟩
  simp only [Rule.runAll, hr, Outcome.matched_bind, ha, Outcome.matched_map, List.length_append,
    Nat.add_assoc]

theorem readsAll_cons_nil {R : List Piece → Prop} (h : Reads part [] (text ++ rest) P)
    (hs : ReadsAll parts text rest R) :
    ReadsAll (part :: parts) text rest
      fun pieces => ∃ piece pieces', pieces = piece :: pieces' ∧ P piece.2 ∧ R pieces' :=
  readsAll_cons h hs

theorem readsAll_last (h : Reads part text rest P) :
    ReadsAll [part] text rest fun pieces => ∃ piece, pieces = [piece] ∧ P piece.2 := by
  intro tokens hc start ht
  obtain ⟨payload, hr, hp⟩ := h tokens hc start ht
  refine ⟨[(⟨start, start + text.length⟩, payload)], ?_, _, rfl, hp⟩
  simp only [Rule.runAll, hr, Outcome.matched_bind, Outcome.matched_map]

theorem refusesAll_head (h : Refuses part text) : RefusesAll (part :: parts) text := by
  intro tokens hc start ht
  obtain hn | ⟨x, hx⟩ := h tokens hc start ht
  · exact .inl (by simp only [Rule.runAll, hn, Outcome.noMatch_bind])
  · exact .inr ⟨x, by simp only [Rule.runAll, hx, Outcome.committed_bind]⟩

theorem refusesAll_tail (h : Reads part text rest P) (hs : RefusesAll parts rest) :
    RefusesAll (part :: parts) (text ++ rest) := by
  intro tokens hc start ht
  obtain ⟨payload, hr, -⟩ := h tokens hc start ht
  obtain hn | ⟨x, hx⟩ := hs tokens hc _ (hc.charsAt_add _ _ _ ht)
  · exact .inl (by simp only [Rule.runAll, hr, Outcome.matched_bind, hn, Outcome.noMatch_map])
  · exact .inr ⟨x, by simp only [Rule.runAll, hr, Outcome.matched_bind, hx,
      Outcome.committed_map]⟩

theorem refusesAll_tail_nil (h : Reads part [] text P) (hs : RefusesAll parts text) :
    RefusesAll (part :: parts) text :=
  refusesAll_tail h hs

theorem reads_sequence {build : Span → List Piece → Build Fragment} {R : List Piece → Prop}
    (h : ReadsAll parts text rest R)
    (hb : ∀ span pieces, R pieces → ∃ built, build span pieces = .ok (some built) ∧ Q built) :
    Reads (.sequence parts (some build)) text rest Q := by
  intro tokens hc start ht
  obtain ⟨pieces, ha, hr⟩ := h tokens hc start ht
  obtain ⟨built, hbuilt, hq⟩ := hb ⟨start, start + text.length⟩ pieces hr
  exact ⟨built, by simp only [Rule.run, ha, Outcome.matched_bind, hbuilt, Outcome.ofBuild], hq⟩

theorem reads_sequence_unit {R : List Piece → Prop} (h : ReadsAll parts text rest R) :
    Reads (.sequence parts none) text rest (· = .unit) := by
  intro tokens hc start ht
  obtain ⟨pieces, ha, -⟩ := h tokens hc start ht
  exact ⟨.unit, by simp only [Rule.run, ha, Outcome.matched_bind], rfl⟩

theorem refuses_sequence {build : Option (Span → List Piece → Build Fragment)}
    (h : RefusesAll parts text) : Refuses (.sequence parts build) text := by
  intro tokens hc start ht
  obtain hn | ⟨x, hx⟩ := h tokens hc start ht
  · exact .inl (by simp only [Rule.run, hn, Outcome.noMatch_bind])
  · exact .inr ⟨x, by simp only [Rule.run, hx, Outcome.committed_bind]⟩

theorem declines_sequence {build : Option (Span → List Piece → Build Fragment)}
    (h : Declines part text) : Declines (.sequence (part :: parts) build) text := by
  intro tokens hc start ht
  simp only [Rule.run, Rule.runAll, h tokens hc start ht, Outcome.noMatch_bind]

/-! Repetitions -/

/-- Repeated items, all of this kind, so many of them. -/
def IsRepeated (P : Payload Fragment → Prop) (count : Nat) (payload : Payload Fragment) : Prop :=
  ∃ pieces : List Piece, payload = .repeated pieces ∧ pieces.length = count ∧
    ∀ piece ∈ pieces, P piece.2

theorem reads_many_nil (h : Declines item rest) :
    Reads (.many item) [] rest (IsRepeated P 0) := by
  intro tokens hc start ht
  have hn := h tokens hc start ht
  exact ⟨.repeated [], by simp only [Rule.run, repeatedly, hn, Outcome.matched_map]; rfl, [], rfl,
    rfl, nofun⟩

/-- One item more before the repeated ones. -/
theorem reads_many_more {R : List Piece → Prop} (ht : text ≠ [])
    (h : Reads item text (more ++ rest) P)
    (hs : Reads (.many item) more rest fun payload => ∃ pieces, payload = .repeated pieces ∧ R pieces) :
    Reads (.many item) (text ++ more) rest fun payload =>
      ∃ piece pieces, payload = .repeated (piece :: pieces) ∧ P piece.2 ∧ R pieces := by
  intro tokens hc start hstart
  rw [List.append_assoc] at hstart
  obtain ⟨payload, hr, hp⟩ := h tokens hc start hstart
  obtain ⟨_, hm, pieces, rfl, hpieces⟩ := hs tokens hc _ (hc.charsAt_add _ _ _ hstart)
  have hpos := List.length_pos_iff.2 ht
  have hw := Rule.run_within hc (run_within hc) item
  have hlt : start < tokens.size := by
    cases text with
    | nil => exact absurd rfl ht
    | cons c text => exact Stream.lt_size_of_charsAt hstart
  have hne : Span.isEmpty ⟨start, start + text.length⟩ = false :=
    (Span.isEmpty_eq_false_iff _).2 (Nat.lt_add_of_pos_right hpos)
  obtain ⟨stop, items, hrest, hspan⟩ :
      ∃ stop items, repeatedly (item.run tokens (run tokens))
        (tokens.size - (start + text.length) + 1) (start + text.length) = .matched (stop, items) ∧
        (⟨start + text.length, stop⟩, Payload.repeated items)
          = (Span.mk (start + text.length) (start + text.length + more.length),
              Payload.repeated pieces) := by
    rw [Rule.run] at hm
    obtain ⟨⟨stop, items⟩, hi, he⟩ := Outcome.map_eq_matched.1 hm
    exact ⟨stop, items, hi, he⟩
  rw [Rule.repeatedly_budget hw (by omega) (by omega : _ < tokens.size - start)] at hrest
  simp only [Prod.mk.injEq, Span.mk.injEq, true_and, Payload.repeated.injEq] at hspan
  obtain ⟨rfl, rfl⟩ := hspan
  refine ⟨_, ?_, (⟨start, start + text.length⟩, payload), items, rfl, hp, hpieces⟩
  simp only [Rule.run, repeatedly, hr, hne, Bool.false_eq_true, if_false, hrest,
    Outcome.matched_map, List.length_append, Nat.add_assoc]

theorem reads_many_cons {count : Nat} (ht : text ≠ []) (h : Reads item text (more ++ rest) P)
    (hs : Reads (.many item) more rest (IsRepeated P count)) :
    Reads (.many item) (text ++ more) rest (IsRepeated P (count + 1)) := by
  apply (reads_many_more ht h hs).imp
  rintro _ ⟨piece, pieces, rfl, hp, hlength, hall⟩
  exact ⟨_, rfl, congrArg (· + 1) hlength, List.forall_mem_cons.2 ⟨hp, hall⟩⟩

end Rules
end JsonTemplate
