import JsonTemplate.Rule.Run

/-!
What a match of a rule consists of. Each form of rule matches in one way only, given by
the matches of its parts; these lemmas take a match apart, so that no later proof opens a
run.
-/

namespace JsonTemplate

namespace Outcome

variable {α γ : Type}

@[simp] theorem unfinished_bind (next : α → Outcome γ) : unfinished.bind next = unfinished := rfl

@[simp] theorem noMatch_bind (next : α → Outcome γ) : noMatch.bind next = noMatch := rfl

@[simp] theorem matched_bind (a : α) (next : α → Outcome γ) : (matched a).bind next = next a := rfl

@[simp] theorem committed_bind (x : Failure) (next : α → Outcome γ) :
    (committed x).bind next = committed x := rfl

@[simp] theorem unfinished_map (f : α → γ) : unfinished.map f = unfinished := rfl

@[simp] theorem noMatch_map (f : α → γ) : noMatch.map f = noMatch := rfl

@[simp] theorem matched_map (a : α) (f : α → γ) : (matched a).map f = matched (f a) := rfl

@[simp] theorem committed_map (x : Failure) (f : α → γ) :
    (committed x).map f = committed x := rfl

theorem bind_eq_matched {o : Outcome α} {next : α → Outcome γ} {b : γ} :
    o.bind next = .matched b ↔ ∃ a, o = .matched a ∧ next a = .matched b := by
  cases o <;> simp [bind]

theorem map_eq_matched {o : Outcome α} {f : α → γ} {b : γ} :
    o.map f = .matched b ↔ ∃ a, o = .matched a ∧ f a = b := by
  simp [map, bind_eq_matched]

theorem bind_eq_committed {o : Outcome α} {next : α → Outcome γ} {x : Failure} :
    o.bind next = .committed x ↔
      o = .committed x ∨ ∃ a, o = .matched a ∧ next a = .committed x := by
  cases o <;> simp [bind]

theorem map_eq_committed {o : Outcome α} {f : α → γ} {x : Failure} :
    o.map f = .committed x ↔ o = .committed x := by
  simp [map, bind_eq_committed]

theorem ofBuild_eq_matched {β : Type} {span : Span} {b : Build β} {parsed : Parsed β} :
    ofBuild span b = .matched parsed ↔ b = .ok (some parsed.2) ∧ parsed.1 = span := by
  obtain ⟨s, payload⟩ := parsed
  rcases b with f | (_ | p) <;> simp [ofBuild, eq_comm, and_comm]

end Outcome

namespace Rule

variable {ν β : Type}

/-- Induction over rules, with the claim for every part of a list. -/
theorem induct {motive : Rule ν β → Prop}
    (tag : ∀ t, motive (.tag t))
    (scalar : ∀ value?, motive (.scalar value?))
    (chars : ∀ take?, motive (.chars take?))
    (sequence : ∀ parts build, (∀ part ∈ parts, motive part) → motive (.sequence parts build))
    (oneOf : ∀ alternatives, (∀ r ∈ alternatives, motive r) → motive (.oneOf alternatives))
    (many : ∀ item, motive item → motive (.many item))
    (maybe : ∀ item, motive item → motive (.maybe item))
    (required : ∀ item reason, motive item → motive (.required item reason))
    (map : ∀ item build, motive item → motive (.map item build))
    (named : ∀ name item, motive item → motive (.named name item))
    (commit : ∀ message, motive (.commit message))
    (ref : ∀ symbol, motive (.ref symbol)) (r : Rule ν β) : motive r := by
  refine @Rule.rec ν β motive (fun rules => ∀ r ∈ rules, motive r) tag scalar chars sequence
    oneOf many maybe required map named commit ref (by simp) ?_ r
  intro head tail hhead htail r hr
  cases hr with
  | head => exact hhead
  | tail _ hr => exact htail r hr

variable {tokens : Stream} {call : ν → Nat → Outcome (Parsed β)}

theorem run_tag_matched {t : Tag} {start : Nat} {parsed : Parsed β}
    (h : run tokens call (.tag t) start = .matched parsed) :
    tokens.tagAt? start = some t ∧ parsed = (⟨start, start + 1⟩, .unit) := by
  simp only [run] at h
  split at h
  · next ht => cases h; exact ⟨ht, rfl⟩
  · cases h

example : (tag .null : Rule Nat Unit).run (Stream.ofJson .null) (fun _ _ => .noMatch) 0
    = .matched (⟨0, 1⟩, .unit) := by cbv

theorem run_scalar_matched {value? : Kind → Span → Option β} {start : Nat} {parsed : Parsed β}
    (h : run tokens call (.scalar value?) start = .matched parsed) :
    ∃ token v, tokens[start]? = some token ∧ value? token.kind ⟨start, start + 1⟩ = some v ∧
      parsed = (⟨start, start + 1⟩, .value v) := by
  simp only [run] at h
  split at h
  · cases h
  · next token ht =>
      split at h
      · next v hv => cases h; exact ⟨token, v, ht, hv, rfl⟩
      · cases h

theorem run_chars_matched {take? : List Char → Option Nat} {start : Nat} {parsed : Parsed β}
    (h : run tokens call (.chars take?) start = .matched parsed) :
    ∃ count, take? (tokens.charsAt start) = some count ∧
      parsed = (⟨start, start + ((tokens.charsAt start).take count).length⟩,
        .text (String.ofList ((tokens.charsAt start).take count))) := by
  simp only [run] at h
  split at h
  · cases h
  · next count hc => cases h; exact ⟨count, hc, rfl⟩

theorem run_sequence_matched {parts : List (Rule ν β)}
    {build : Span → List (Parsed β) → Build β} {start : Nat} {parsed : Parsed β}
    (h : run tokens call (.sequence parts (some build)) start = .matched parsed) :
    ∃ stop pieces, runAll tokens call parts start = .matched (stop, pieces) ∧
      build ⟨start, stop⟩ pieces = .ok (some parsed.2) ∧ parsed.1 = ⟨start, stop⟩ := by
  obtain ⟨⟨stop, pieces⟩, ha, hb⟩ := Outcome.bind_eq_matched.1 h
  exact ⟨stop, pieces, ha, Outcome.ofBuild_eq_matched.1 hb⟩

theorem run_sequence_none_matched {parts : List (Rule ν β)} {start : Nat} {parsed : Parsed β}
    (h : run tokens call (.sequence parts none) start = .matched parsed) :
    ∃ stop pieces, runAll tokens call parts start = .matched (stop, pieces) ∧
      parsed = (⟨start, stop⟩, .unit) := by
  obtain ⟨⟨stop, pieces⟩, ha, hb⟩ := Outcome.bind_eq_matched.1 h
  cases hb
  exact ⟨stop, pieces, ha, rfl⟩

theorem runAll_nil_matched {start stop : Nat} {pieces : List (Parsed β)}
    (h : runAll tokens call [] start = .matched (stop, pieces)) : start = stop ∧ pieces = [] := by
  cases h
  exact ⟨rfl, rfl⟩

theorem runAll_cons_matched {part : Rule ν β} {rest : List (Rule ν β)} {start stop : Nat}
    {pieces : List (Parsed β)}
    (h : runAll tokens call (part :: rest) start = .matched (stop, pieces)) :
    ∃ piece more, run tokens call part start = .matched piece ∧
      runAll tokens call rest piece.1.stop = .matched (stop, more) ∧ pieces = piece :: more := by
  obtain ⟨piece, hp, hr⟩ := Outcome.bind_eq_matched.1 h
  obtain ⟨⟨last, more⟩, hm, he⟩ := Outcome.map_eq_matched.1 hr
  cases he
  exact ⟨piece, more, hp, hm, rfl⟩

theorem runAll_append_matched {front back : List (Rule ν β)} {start stop : Nat}
    {pieces : List (Parsed β)}
    (h : runAll tokens call (front ++ back) start = .matched (stop, pieces)) :
    ∃ place first second, runAll tokens call front start = .matched (place, first) ∧
      runAll tokens call back place = .matched (stop, second) ∧ pieces = first ++ second := by
  induction front generalizing start pieces with
  | nil => exact ⟨start, [], pieces, rfl, h, rfl⟩
  | cons part front ih =>
      obtain ⟨piece, more, hp, hr, rfl⟩ := runAll_cons_matched h
      obtain ⟨place, first, second, hf, hs, rfl⟩ := ih hr
      refine ⟨place, piece :: first, second, ?_, hs, rfl⟩
      rw [runAll, hp, Outcome.matched_bind, hf, Outcome.matched_map]

theorem runFirst_matched {alternatives : List (Rule ν β)} {start : Nat} {parsed : Parsed β}
    (h : runFirst tokens call alternatives start = .matched parsed) :
    ∃ r ∈ alternatives, run tokens call r start = .matched parsed := by
  induction alternatives with
  | nil => cases h
  | cons r rest ih =>
      have later : runFirst tokens call rest start = .matched parsed →
          ∃ r' ∈ r :: rest, run tokens call r' start = .matched parsed := fun hr =>
        have ⟨r', hm, hr'⟩ := ih hr
        ⟨r', List.mem_cons_of_mem r hm, hr'⟩
      simp only [runFirst] at h
      split at h
      · exact later h
      · split at h
        · cases h
        · exact later h
      · exact ⟨r, List.mem_cons_self, h⟩

theorem run_oneOf_matched {alternatives : List (Rule ν β)} {start : Nat} {parsed : Parsed β}
    (h : run tokens call (.oneOf alternatives) start = .matched parsed) :
    ∃ r ∈ alternatives, run tokens call r start = .matched parsed :=
  runFirst_matched h

theorem run_maybe_matched {item : Rule ν β} {start : Nat} {parsed : Parsed β}
    (h : run tokens call (.maybe item) start = .matched parsed) :
    (∃ inner, run tokens call item start = .matched inner ∧
      parsed = (inner.1, .optional (some inner))) ∨
    parsed = (.empty start, .optional none) := by
  simp only [run] at h
  split at h
  · next inner hi => cases h; exact .inl ⟨inner, hi, rfl⟩
  · cases h; exact .inr rfl
  · cases h; exact .inr rfl
  · cases h

theorem run_required_matched {item : Rule ν β} {reason : Nat → Nat → String} {start : Nat}
    {parsed : Parsed β} (h : run tokens call (.required item reason) start = .matched parsed) :
    run tokens call item start = .matched parsed := by
  simp only [run] at h
  split at h <;> simp_all

theorem run_map_matched {item : Rule ν β} {build : Parsed β → Build β} {start : Nat}
    {parsed : Parsed β} (h : run tokens call (.map item build) start = .matched parsed) :
    ∃ inner, run tokens call item start = .matched inner ∧
      build inner = .ok (some parsed.2) ∧ parsed.1 = inner.1 := by
  obtain ⟨inner, hi, hb⟩ := Outcome.bind_eq_matched.1 h
  exact ⟨inner, hi, Outcome.ofBuild_eq_matched.1 hb⟩

/-- Matches of an item one after another, each of at least one token, up to a place where
the item takes none. -/
def Consecutive (item : Nat → Outcome (Parsed β)) : Nat → List (Parsed β) → Nat → Prop
  | start, [], stop =>
      start = stop ∧ ∀ parsed, item stop = .matched parsed → parsed.1.isEmpty = true
  | start, parsed :: rest, stop =>
      item start = .matched parsed ∧ parsed.1.isEmpty = false ∧
        Consecutive item parsed.1.stop rest stop

theorem repeatedly_matched {item : Nat → Outcome (Parsed β)} {budget start stop : Nat}
    {items : List (Parsed β)} (h : repeatedly item budget start = .matched (stop, items)) :
    Consecutive item start items stop := by
  induction budget generalizing start items with
  | zero => cases h
  | succ budget ih =>
      simp only [repeatedly] at h
      split at h
      · next parsed hp =>
          split at h
          · next he =>
              cases h
              refine ⟨rfl, fun other ho => ?_⟩
              rw [hp] at ho
              cases ho
              exact he
          · next he =>
              obtain ⟨⟨last, more⟩, hm, hc⟩ := Outcome.map_eq_matched.1 h
              cases hc
              exact ⟨hp, by simpa using he, ih hm⟩
      · next hn =>
          cases h
          exact ⟨rfl, fun other ho => by rw [hn] at ho; cases ho⟩
      · cases h
      · cases h

theorem run_many_matched {item : Rule ν β} {start : Nat} {parsed : Parsed β}
    (h : run tokens call (.many item) start = .matched parsed) :
    ∃ stop items, Consecutive (run tokens call item) start items stop ∧
      parsed = (⟨start, stop⟩, .repeated items) := by
  simp only [run] at h
  obtain ⟨⟨stop, items⟩, hr, he⟩ := Outcome.map_eq_matched.1 h
  exact ⟨stop, items, repeatedly_matched hr, he.symm⟩

end Rule
end JsonTemplate
