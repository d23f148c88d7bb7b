import JsonTemplate.Proofs.Document.Strings
import JsonTemplate.Proofs.Expression.Payloads
import JsonTemplate.Proofs.Expression.Reads
import JsonTemplate.Proofs.Expression.Relocation
import JsonTemplate.Proofs.Expression.Termination
import JsonTemplate.Proofs.Rule.Texts
import JsonTemplate.Proofs.Rule.Yields

/-!
What is read is determined by the text. A rule that looks at characters alone and matches in
one string reads the same wherever the same text stands; so before any text it either reads
a part of it, and always the same one, or refuses it.
-/

namespace JsonTemplate

theorem Fragment.bare_relocate (f : Span → Span) : (x : Fragment) →
    (x.relocate f).relocate (fun _ => .empty 0) = x.relocate fun _ => .empty 0
  | flatten => rfl
  | node n => congrArg node (n.bare_relocate f)
  | entry (.mk key value _) => by
      have hkey := key.bare_relocate f
      have hvalue := value.bare_relocate f
      simp only [Node.bare] at hkey hvalue
      simp only [relocate, Entry.relocate, hkey, hvalue]

namespace Payload

/-- A payload whose spans are all the same. -/
def bare (p : Payload Fragment) : Payload Fragment := p.relocate Fragment.relocate fun _ => .empty 0

variable (f : Span → Span)

mutual

theorem bare_relocate : (p : Payload Fragment) → (p.relocate Fragment.relocate f).bare = p.bare
  | unit | text _ | optional none => rfl
  | repeated items => congrArg repeated (bareAll_relocateAll items)
  | optional (some (_, p)) => congrArg (fun q => optional (some (_, q))) (bare_relocate p)
  | value x => congrArg value (x.bare_relocate f)

theorem bareAll_relocateAll : (items : List Rules.Piece) →
    relocateAll Fragment.relocate (fun _ => .empty 0) (relocateAll Fragment.relocate f items)
      = relocateAll Fragment.relocate (fun _ => .empty 0) items
  | [] => rfl
  | (_, p) :: rest => by
      have hp := bare_relocate p
      simp only [bare] at hp
      simp only [relocateAll, hp, bareAll_relocateAll rest]

end

end Payload

namespace Rules

/-- Worth the same, but for spans. -/
def Alike (p q : Payload Fragment) : Prop := q.bare = p.bare

theorem Alike.isNode {n : Node} {q : Payload Fragment} (h : Alike (.value (.node n)) q) :
    IsNode n.bare q := by
  cases q with
  | value v =>
      cases v with
      | node m =>
          simp only [Alike, Payload.bare, Payload.relocate, Fragment.relocate, Payload.value.injEq,
            Fragment.node.injEq] at h
          exact ⟨m, rfl, h⟩
      | _ => cases h
  | optional item =>
      cases item <;> cases h
  | _ => cases h

theorem Alike.eq_nothing {q : Payload Fragment} (h : Alike (.optional none) q) :
    q = .optional none := by
  cases q with
  | optional item =>
      cases item with
      | none => rfl
      | some => cases h
  | _ => cases h

theorem Alike.eq_no_items {q : Payload Fragment} (h : Alike (.repeated []) q) :
    q = .repeated [] := by
  cases q with
  | repeated items =>
      cases items with
      | nil => rfl
      | cons => cases h
  | optional item => cases item <;> cases h
  | _ => cases h

variable {tokens : Stream} {r : TemplateRule} {rules parts : List TemplateRule}
  {text rest s t : List Char} {P Q : Payload Fragment → Prop}

/-- Every text stands in some stream. -/
theorem exists_charsAt (text : List Char) :
    ∃ tokens : Stream, tokens.Coherent ∧ ∃ start, tokens.charsAt start = text := by
  have hs := Stream.spells_str (String.ofList text)
  exact ⟨_, Stream.coherent_ofJson _, _, hs.charsAt.trans (String.toList_ofList)⟩

theorem not_refuses_of_reads (h : Reads r text rest P) : ¬ Refuses r (text ++ rest) := by
  intro hno
  obtain ⟨tokens, hc, start, hchars⟩ := exists_charsAt (text ++ rest)
  obtain ⟨payload, hr, -⟩ := h tokens hc start hchars
  obtain hn | ⟨x, hx⟩ := hno tokens hc start hchars
  · rw [hn] at hr
    cases hr
  · rw [hx] at hr
    cases hr

/-- No text is read in two ways. -/
theorem Reads.unique {a b : List Char} (h : Reads r s a P) (h' : Reads r t b Q)
    (he : s ++ a = t ++ b) : s = t ∧ a = b ∧ ∃ payload, P payload ∧ Q payload := by
  obtain ⟨tokens, hc, start, hchars⟩ := exists_charsAt (s ++ a)
  obtain ⟨payload, hr, hp⟩ := h tokens hc start hchars
  obtain ⟨payload', hr', hq⟩ := h' tokens hc start (hchars.trans he)
  rw [hr] at hr'
  simp only [Outcome.matched.injEq, Prod.mk.injEq, Span.mk.injEq, Nat.add_left_cancel_iff,
    true_and] at hr'
  obtain ⟨hlength, rfl⟩ := hr'
  obtain ⟨rfl, rfl⟩ := List.append_inj he hlength
  exact ⟨rfl, rfl, payload, hp, hq⟩

theorem Reads.yields (h : Reads r text rest P)
    (hy : ∀ tokens : Stream, tokens.Coherent → Rule.Yields tokens (run tokens) r Q) :
    Reads r text rest Q := by
  intro tokens hc start ht
  obtain ⟨payload, hr, -⟩ := h tokens hc start ht
  exact ⟨payload, hr, hy tokens hc start _ hr⟩

theorem Reads.takes {T : List Char → Payload Fragment → Prop} (h : Reads r text rest P)
    (ht : ∀ tokens : Stream, tokens.Coherent → Rule.Takes tokens (run tokens) r T) :
    ∃ payload, P payload ∧ T text payload := by
  obtain ⟨tokens, hc, start, hchars⟩ := exists_charsAt (text ++ rest)
  obtain ⟨payload, hr, hp⟩ := h tokens hc start hchars
  obtain ⟨taken, behind, hbehind, hspan, htaken⟩ := ht tokens hc start _ hr
  simp only [Span.mk.injEq, Nat.add_left_cancel_iff, true_and] at hspan
  obtain ⟨rfl, -⟩ := List.append_inj (hchars.symm.trans hbehind) hspan
  exact ⟨payload, hp, htaken⟩

/-- What the first alternative refuses is left to the others. -/
theorem reads_oneOf_rest (h : Reads (.oneOf (r :: rules)) text rest P)
    (hr : Refuses r (text ++ rest)) : Reads (.oneOf rules) text rest P := by
  intro tokens hc start ht
  obtain ⟨payload, hm, hp⟩ := h tokens hc start ht
  refine ⟨payload, ?_, hp⟩
  rw [Rule.run, Rule.runFirst] at hm
  rw [Rule.run]
  obtain hn | ⟨x, hx⟩ := hr tokens hc start ht
  · rw [hn] at hm
    exact hm
  · rw [hx] at hm
    cases hrest : Rule.runFirst tokens (run tokens) rules start with
    | noMatch =>
        rw [hrest] at hm
        cases hm
    | _ =>
        rw [hrest] at hm
        exact hm

theorem reads_of_must {e : Expectation} (h : Reads (must r e) text rest P) :
    Reads r text rest P := by
  intro tokens hc start ht
  obtain ⟨payload, hr, hp⟩ := h tokens hc start ht
  exact ⟨payload, Rule.run_required_matched hr, hp⟩

/-! Wherever the same text stands -/

/-- The outcomes at two places with the same text are alike. -/
theorem run_transport (hr : Literary r) {first second : Stream} (hf : first.Coherent)
    (hs : second.Coherent) {start distance : Nat}
    (ht : first.charsAt (start + distance) = second.charsAt start) :
    r.run first (run first) (start + distance)
      = (r.run second (run second) start).transport (Span.shift distance)
          (Piece.relocate (Span.shift distance)) :=
  run_shift hf hs (Rule.moves_shift distance start _) hr start (Nat.le_refl _) (Nat.le_refl _) ht

theorem matched_alike (hr : Literary r) {first second : Stream} (hf : first.Coherent)
    (hs : second.Coherent) {start place : Nat} (ht : second.charsAt place = first.charsAt start)
    {length : Nat} {p : Payload Fragment}
    (h : r.run first (run first) start = .matched (⟨start, start + length⟩, p)) :
    ∃ q, r.run second (run second) place = .matched (⟨place, place + length⟩, q) ∧ Alike p q := by
  obtain ⟨distance, rfl⟩ | ⟨distance, rfl⟩ := (Nat.le_total start place).imp Nat.exists_eq_add_of_le
    Nat.exists_eq_add_of_le
  · rw [run_transport hr hs hf ht, h]
    refine ⟨_, ?_, Payload.bare_relocate (Span.shift distance) p⟩
    simp only [Outcome.transport, Piece.relocate, Parsed.relocate, Span.shift, Nat.add_right_comm]
  · rw [run_transport hr hf hs ht.symm] at h
    cases hq : r.run second (run second) place with
    | matched found =>
        obtain ⟨⟨first, last⟩, q⟩ := found
        rw [hq] at h
        simp only [Outcome.transport, Piece.relocate, Parsed.relocate, Span.shift,
          Outcome.matched.injEq, Prod.mk.injEq, Span.mk.injEq] at h
        obtain ⟨⟨hstart, hstop⟩, rfl⟩ := h
        refine ⟨q, ?_, (Payload.bare_relocate _ q).symm⟩
        obtain rfl : first = place := by omega
        obtain rfl : last = first + length := by omega
        rfl
    | _ =>
        rw [hq] at h
        cases h

/-- A match in one string is one in all. -/
theorem reads_of_run (hr : Literary r) (hc : tokens.Coherent) {start : Nat} {parsed : Piece}
    (h : r.run tokens (run tokens) start = .matched parsed) :
    ∃ text rest, tokens.charsAt start = text ++ rest ∧ parsed.1 = ⟨start, start + text.length⟩ ∧
      Reads r text rest (Alike parsed.2) := by
  obtain ⟨⟨first, stop⟩, payload⟩ := parsed
  obtain ⟨rfl, hle, hge⟩ := run_inside hc hr start _ h
  simp only at hle hge
  obtain ⟨length, rfl⟩ := Nat.exists_eq_add_of_le hle
  have hlength : ((tokens.charsAt first).take length).length = length := by
    rw [List.length_take]
    omega
  refine ⟨(tokens.charsAt first).take length, (tokens.charsAt first).drop length,
    (List.take_append_drop _ _).symm, by rw [hlength], fun other ho place hplace => ?_⟩
  rw [hlength]
  rw [List.take_append_drop] at hplace
  exact matched_alike hr hc ho hplace h

theorem takes_any (hc : tokens.Coherent) (hr : Literary r) :
    Rule.Takes tokens (run tokens) r fun _ _ => True := by
  intro start parsed h
  obtain ⟨text, rest, hrest, hspan, -⟩ := reads_of_run hr hc h
  exact ⟨text, rest, hrest, hspan, trivial⟩

/-- Each rule takes its part of the text, one behind the other. -/
def ReadsEach : List TemplateRule → List Char → List Char → List Piece → Prop
  | [], text, _, pieces => text = [] ∧ pieces = []
  | part :: parts, text, rest, pieces => ∃ head tail piece more, text = head ++ tail ∧
      pieces = piece :: more ∧ Reads part head (tail ++ rest) (Alike piece.2) ∧
      ReadsEach parts tail rest more

theorem readsEach_of_runAll (hc : tokens.Coherent) (hp : ∀ part ∈ parts, Literary part)
    {start stop : Nat} {pieces : List Piece}
    (h : Rule.runAll tokens (run tokens) parts start = .matched (stop, pieces)) :
    ∃ text rest, tokens.charsAt start = text ++ rest ∧ stop = start + text.length ∧
      ReadsEach parts text rest pieces := by
  induction parts generalizing start pieces with
  | nil =>
      obtain ⟨rfl, rfl⟩ := Rule.runAll_nil_matched h
      exact ⟨[], _, rfl, rfl, rfl, rfl⟩
  | cons part parts ih =>
      obtain ⟨hpart, hparts⟩ := List.forall_mem_cons.1 hp
      obtain ⟨piece, more, hfirst, hmore, rfl⟩ := Rule.runAll_cons_matched h
      obtain ⟨head, behind, hbehind, hspan, hread⟩ := reads_of_run hpart hc hfirst
      rw [hspan] at hmore
      obtain ⟨tail, rest, hrest, rfl, heach⟩ := ih hparts hmore
      obtain rfl := (hc.charsAt_add _ _ _ hbehind).symm.trans hrest
      refine ⟨head ++ tail, rest, ?_, ?_, head, tail, piece, more, rfl, rfl, hread, heach⟩
      · rw [hbehind, List.append_assoc]
      · rw [List.length_append, Nat.add_assoc]

/-- A sequence reads what its parts read. -/
theorem Reads.each {build : Span → List Piece → Build Fragment}
    (h : Reads (.sequence parts (some build)) text rest P) (hp : ∀ part ∈ parts, Literary part) :
    ∃ span pieces built, build span pieces = .ok (some built) ∧ P built ∧
      ReadsEach parts text rest pieces := by
  obtain ⟨tokens, hc, start, hchars⟩ := exists_charsAt (text ++ rest)
  obtain ⟨payload, hr, hpayload⟩ := h tokens hc start hchars
  obtain ⟨stop, pieces, hall, hbuild, hspan⟩ := Rule.run_sequence_matched hr
  obtain ⟨taken, behind, hbehind, rfl, heach⟩ := readsEach_of_runAll hc hp hall
  simp only [Span.mk.injEq, Nat.add_left_cancel_iff, true_and] at hspan
  obtain ⟨rfl, rfl⟩ := List.append_inj (hchars.symm.trans hbehind) hspan
  exact ⟨_, pieces, payload, hbuild, hpayload, heach⟩

/-- Before every text a rule reads a part of it or refuses it. -/
theorem reads_or_refuses (hr : Literary r) (text : List Char) :
    (∃ head behind p, text = head ++ behind ∧ Reads r head behind (Alike p)) ∨ Refuses r text := by
  obtain ⟨tokens, hc, start, hchars⟩ := exists_charsAt text
  cases h : r.run tokens (run tokens) start with
  | matched parsed =>
      obtain ⟨head, behind, hbehind, -, hread⟩ := reads_of_run hr hc h
      exact .inl ⟨head, behind, parsed.2, hchars.symm.trans hbehind, hread⟩
  | unfinished =>
      have hfinished := rule_isFinished hc r start
      rw [h] at hfinished
      cases hfinished
  | noMatch | committed x =>
      refine .inr fun other ho place hplace => ?_
      cases hother : r.run other (run other) place with
      | matched parsed =>
          obtain ⟨head, behind, hbehind, -, hread⟩ := reads_of_run hr ho hother
          obtain ⟨payload, hm, -⟩ := hread tokens hc start (by rw [hchars, ← hplace, hbehind])
          rw [h] at hm
          cases hm
      | unfinished =>
          have hfinished := rule_isFinished ho r place
          rw [hother] at hfinished
          cases hfinished
      | noMatch => exact .inl rfl
      | committed y => exact .inr ⟨y, rfl⟩

end Rules
end JsonTemplate
