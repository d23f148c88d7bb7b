import JsonTemplate.Proofs.Document.Coherence
import JsonTemplate.Proofs.Rule.Extent

/-!
The texts that matches take. `Takes r P` says that every match of `r` takes characters only,
and that they are worth what `P` says; what a rule takes is put together from what its parts
take.
-/

namespace JsonTemplate
namespace Rule

variable {ν β : Type} {tokens : Stream} {call : ν → Nat → Outcome (Parsed β)}
  {P Q : List Char → Payload β → Prop}

/-- Every match takes a text that stands there, and has `P` with it. -/
def Takes (tokens : Stream) (call : ν → Nat → Outcome (Parsed β)) (r : Rule ν β)
    (P : List Char → Payload β → Prop) : Prop :=
  ∀ start parsed, run tokens call r start = .matched parsed →
    ∃ text rest, tokens.charsAt start = text ++ rest ∧
      parsed.1 = ⟨start, start + text.length⟩ ∧ P text parsed.2

def TakesAll (tokens : Stream) (call : ν → Nat → Outcome (Parsed β)) (parts : List (Rule ν β))
    (R : List Char → List (Parsed β) → Prop) : Prop :=
  ∀ start stop pieces, runAll tokens call parts start = .matched (stop, pieces) →
    ∃ text rest, tokens.charsAt start = text ++ rest ∧ stop = start + text.length ∧ R text pieces

theorem Takes.imp {r : Rule ν β} (h : Takes tokens call r P)
    (hpq : ∀ text payload, P text payload → Q text payload) : Takes tokens call r Q := by
  intro start parsed hr
  obtain ⟨text, rest, hrest, hspan, hp⟩ := h start parsed hr
  exact ⟨text, rest, hrest, hspan, hpq text _ hp⟩

theorem takes_chars {take? : List Char → Option Nat}
    (h : ∀ run count, take? run = some count →
      P (run.take count) (.text (String.ofList (run.take count)))) :
    Takes tokens call (.chars take?) P := by
  intro start parsed hr
  obtain ⟨count, ht, rfl⟩ := run_chars_matched hr
  exact ⟨_, _, (List.take_append_drop count _).symm, rfl, h _ count ht⟩

theorem takes_pattern {width : List Char → Nat}
    (h : ∀ run, width run ≠ 0 →
      P (run.take (width run)) (.text (String.ofList (run.take (width run))))) :
    Takes tokens call (.pattern width) P := by
  refine takes_chars fun run count ht => ?_
  simp only [takeSome] at ht
  split at ht
  · cases ht
  · next hn =>
      cases ht
      exact h run hn

theorem takes_text (s : String) :
    Takes tokens call (.text s) fun text payload => text = s.toList ∧ payload = .text s := by
  intro start parsed hr
  obtain ⟨rfl, rest, hrest⟩ := run_text_matched hr
  exact ⟨s.toList, rest, hrest, rfl, rfl, rfl⟩

theorem takes_char (c : Char) : Takes tokens call (.char c) fun text _ => text = [c] := by
  refine takes_chars fun run count ht => ?_
  simp only [takeText, Option.ite_none_right_eq_some, Option.some.injEq] at ht
  obtain ⟨hp, rfl⟩ := ht
  exact (List.prefix_iff_eq_take.1 (List.isPrefixOf_iff_prefix.1 hp)).symm

theorem takes_keyword (s : String) :
    Takes tokens call (.keyword s) fun text _ => text = s.toList := by
  refine takes_chars fun run count ht => ?_
  simp only [takeWord, Option.ite_none_right_eq_some, Option.some.injEq, Bool.and_eq_true] at ht
  obtain ⟨⟨hp, -⟩, rfl⟩ := ht
  exact (List.prefix_iff_eq_take.1 (List.isPrefixOf_iff_prefix.1 hp)).symm

theorem takes_oneOf {alternatives : List (Rule ν β)}
    (h : ∀ r ∈ alternatives, Takes tokens call r P) :
    Takes tokens call (.oneOf alternatives) P := by
  intro start parsed hr
  obtain ⟨r, hmem, hr⟩ := run_oneOf_matched hr
  exact h r hmem start parsed hr

theorem takes_required {item : Rule ν β} (h : Takes tokens call item P)
    (reason : Nat → Nat → String) : Takes tokens call (.required item reason) P :=
  fun start parsed hr => h start parsed (run_required_matched hr)

theorem takes_map {item : Rule ν β} {build : Parsed β → Build β} (h : Takes tokens call item P)
    (hb : ∀ span text payload built, P text payload →
      build (span, payload) = .ok (some built) → Q text built) :
    Takes tokens call (.map item build) Q := by
  intro start parsed hr
  obtain ⟨inner, hi, hbuild, hspan⟩ := run_map_matched hr
  obtain ⟨text, rest, hrest, hinner, hp⟩ := h start inner hi
  exact ⟨text, rest, hrest, hspan.trans hinner, hb inner.1 text inner.2 _ hp hbuild⟩

/-- An item that is missing takes nothing. -/
theorem takes_maybe {item : Rule ν β} (h : Takes tokens call item P) :
    Takes tokens call (.maybe item) fun text payload =>
      (text = [] ∧ payload = .optional none) ∨
        ∃ inner : Parsed β, payload = .optional (some inner) ∧ P text inner.2 := by
  intro start parsed hr
  obtain ⟨inner, hi, rfl⟩ | rfl := run_maybe_matched hr
  · obtain ⟨text, rest, hrest, hspan, hp⟩ := h start inner hi
    exact ⟨text, rest, hrest, hspan, .inr ⟨inner, rfl, hp⟩⟩
  · exact ⟨[], _, rfl, rfl, .inl ⟨rfl, rfl⟩⟩

/-! One after another -/

theorem takesAll_nil : TakesAll tokens call [] fun text pieces => text = [] ∧ pieces = [] := by
  intro start stop pieces hr
  obtain ⟨rfl, rfl⟩ := runAll_nil_matched hr
  exact ⟨[], _, rfl, rfl, rfl, rfl⟩

theorem takesAll_cons (hc : tokens.Coherent) {part : Rule ν β} {parts : List (Rule ν β)}
    {R : List Char → List (Parsed β) → Prop} (h : Takes tokens call part P)
    (hs : TakesAll tokens call parts R) :
    TakesAll tokens call (part :: parts) fun text pieces =>
      ∃ head tail piece more, text = head ++ tail ∧ pieces = piece :: more ∧ P head piece.2 ∧
        R tail more := by
  intro start stop pieces hr
  obtain ⟨piece, more, hp, hm, rfl⟩ := runAll_cons_matched hr
  obtain ⟨head, behind, hbehind, hspan, hpiece⟩ := h start piece hp
  rw [hspan] at hm
  obtain ⟨tail, rest, hrest, rfl, htail⟩ := hs _ stop more hm
  rw [hc.charsAt_add _ _ _ hbehind] at hrest
  refine ⟨head ++ tail, rest, ?_, ?_, head, tail, piece, more, rfl, rfl, hpiece, htail⟩
  · rw [hbehind, hrest, List.append_assoc]
  · rw [List.length_append, Nat.add_assoc]

theorem takes_sequence {parts : List (Rule ν β)} {build : Span → List (Parsed β) → Build β}
    {R : List Char → List (Parsed β) → Prop} (h : TakesAll tokens call parts R)
    (hb : ∀ span text pieces built, R text pieces → build span pieces = .ok (some built) →
      Q text built) : Takes tokens call (.sequence parts (some build)) Q := by
  intro start parsed hr
  obtain ⟨stop, pieces, ha, hbuild, hspan⟩ := run_sequence_matched hr
  obtain ⟨text, rest, hrest, rfl, hpieces⟩ := h start stop pieces ha
  exact ⟨text, rest, hrest, hspan, hb _ text pieces _ hpieces hbuild⟩

/-! Texts of one kind, which hold with two texts the one behind the other -/

section Kind

variable {L : List Char → Prop} (hnil : L []) (happend : ∀ {s t}, L s → L t → L (s ++ t))

include hnil happend

theorem consecutive_takes (hc : tokens.Coherent) {item : Rule ν β}
    (h : Takes tokens call item fun text _ => L text) {start stop : Nat} {items : List (Parsed β)}
    (hs : Consecutive (run tokens call item) start items stop) :
    ∃ text rest, tokens.charsAt start = text ++ rest ∧ stop = start + text.length ∧ L text ∧
      (items = [] → text = []) := by
  induction items generalizing start with
  | nil =>
      obtain ⟨rfl, -⟩ := hs
      exact ⟨[], _, rfl, rfl, hnil, fun _ => rfl⟩
  | cons parsed items ih =>
      obtain ⟨hp, -, hs⟩ := hs
      obtain ⟨head, behind, hbehind, hspan, hhead⟩ := h start parsed hp
      rw [hspan] at hs
      obtain ⟨tail, rest, hrest, rfl, htail, -⟩ := ih hs
      rw [hc.charsAt_add _ _ _ hbehind] at hrest
      refine ⟨head ++ tail, rest, ?_, ?_, happend hhead htail, nofun⟩
      · rw [hbehind, hrest, List.append_assoc]
      · rw [List.length_append, Nat.add_assoc]

/-- Repeated items take a text of the kind, and none takes no text. -/
theorem takes_many (hc : tokens.Coherent) {item : Rule ν β}
    (h : Takes tokens call item fun text _ => L text) :
    Takes tokens call (.many item) fun text payload =>
      L text ∧ (payload = .repeated [] → text = []) := by
  intro start parsed hr
  obtain ⟨stop, items, hs, rfl⟩ := run_many_matched hr
  obtain ⟨text, rest, hrest, rfl, htext, hnone⟩ := consecutive_takes hnil happend hc h hs
  refine ⟨text, rest, hrest, rfl, htext, fun hp => hnone ?_⟩
  cases hp
  rfl

theorem takesAll_kind (hc : tokens.Coherent) {parts : List (Rule ν β)}
    (h : ∀ r ∈ parts, Takes tokens call r fun text _ => L text) :
    TakesAll tokens call parts fun text _ => L text := by
  induction parts with
  | nil =>
      intro start stop pieces hr
      obtain ⟨rfl, rfl⟩ := runAll_nil_matched hr
      exact ⟨[], _, rfl, rfl, hnil⟩
  | cons part parts ih =>
      obtain ⟨hpart, hparts⟩ := List.forall_mem_cons.1 h
      intro start stop pieces hr
      obtain ⟨text, rest, hrest, hstop, head, tail, -, -, rfl, -, hhead, htail⟩ :=
        takesAll_cons hc hpart (ih hparts) start stop pieces hr
      exact ⟨_, rest, hrest, hstop, happend hhead htail⟩

theorem takes_sequence_kind (hc : tokens.Coherent) {parts : List (Rule ν β)}
    {build : Option (Span → List (Parsed β) → Build β)}
    (h : ∀ r ∈ parts, Takes tokens call r fun text _ => L text) :
    Takes tokens call (.sequence parts build) fun text _ => L text := by
  have hall := takesAll_kind hnil happend hc h
  cases build with
  | some build => exact takes_sequence hall fun _ _ _ _ hl _ => hl
  | none =>
      intro start parsed hr
      obtain ⟨stop, pieces, ha, rfl⟩ := run_sequence_none_matched hr
      obtain ⟨text, rest, hrest, rfl, hl⟩ := hall start stop pieces ha
      exact ⟨text, rest, hrest, rfl, hl⟩

end Kind

end Rule
end JsonTemplate
