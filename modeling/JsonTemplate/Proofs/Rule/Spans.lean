import JsonTemplate.Proofs.Rule.Bindings

/-!
The spans of matches. A match begins where it was asked for and ends inside the stream,
and what it is put together from stands in the same tokens one piece behind the other: the
pieces that a sequence hands to its builder, and the items of a repetition, which goes on
as long as its item takes a token.
-/

namespace JsonTemplate

variable {ν β : Type}

/-- The span begins at the place and ends inside a stream of this size. -/
def Span.Bounded (size start : Nat) (s : Span) : Prop :=
  s.start = start ∧ start ≤ s.stop ∧ s.stop ≤ size

/-- Matches one behind the other, from the first place up to the second. -/
def Tiles : Nat → List (Parsed β) → Nat → Prop
  | start, [], stop => start = stop
  | start, piece :: rest, stop =>
      piece.1.start = start ∧ start ≤ piece.1.stop ∧ Tiles piece.1.stop rest stop

/-- The item does not match at the place, or takes no token there. -/
def Exhausted (item : Nat → Outcome (Parsed β)) (place : Nat) : Prop :=
  item place = .noMatch ∨ ∃ parsed, item place = .matched parsed ∧ parsed.1.isEmpty = true

theorem Within.bounded {size : Nat} {item : Nat → Outcome (Parsed β)} (hw : Within size item)
    {start : Nat} {parsed : Parsed β} (hs : start ≤ size) (h : item start = .matched parsed) :
    parsed.1.Bounded size start := by
  obtain ⟨hstart, hle, hge⟩ := hw start parsed h
  exact ⟨hstart, hle, by omega⟩

namespace Rule

theorem tiles_of_consecutive {size : Nat} {item : Nat → Outcome (Parsed β)}
    (hw : Within size item) {start stop : Nat} {items : List (Parsed β)}
    (h : Consecutive item start items stop) : Tiles start items stop := by
  induction items generalizing start with
  | nil => exact h.1
  | cons parsed rest ih =>
      obtain ⟨hp, -, hr⟩ := h
      obtain ⟨hstart, hle, -⟩ := hw start parsed hp
      exact ⟨hstart, hle, ih hr⟩

theorem not_isEmpty_of_consecutive {item : Nat → Outcome (Parsed β)} {start stop : Nat}
    {items : List (Parsed β)} (h : Consecutive item start items stop) :
    ∀ parsed ∈ items, parsed.1.isEmpty = false := by
  induction items generalizing start with
  | nil => nofun
  | cons parsed rest ih =>
      obtain ⟨-, he, hr⟩ := h
      intro other ho
      cases ho with
      | head => exact he
      | tail _ ho => exact ih hr other ho

/-- A repetition ends where its item has nothing more to take. -/
theorem exhausted_of_repeatedly {item : Nat → Outcome (Parsed β)} {budget start stop : Nat}
    {items : List (Parsed β)} (h : repeatedly item budget start = .matched (stop, items)) :
    Exhausted item stop := by
  induction budget generalizing start items with
  | zero => cases h
  | succ budget ih =>
      simp only [repeatedly] at h
      split at h
      · next parsed hp =>
          split at h
          · next he =>
              cases h
              exact .inr ⟨parsed, hp, he⟩
          · obtain ⟨⟨last, more⟩, hm, hc⟩ := Outcome.map_eq_matched.1 h
            cases hc
            exact ih hm
      · next hn =>
          cases h
          exact .inl hn
      · cases h
      · cases h

variable {tokens : Stream} {call : ν → Nat → Outcome (Parsed β)}

theorem runAll_tiles {size : Nat} {parts : List (Rule ν β)}
    (hw : ∀ part ∈ parts, Within size (run tokens call part)) {start stop : Nat}
    {pieces : List (Parsed β)} (h : runAll tokens call parts start = .matched (stop, pieces)) :
    Tiles start pieces stop ∧ pieces.length = parts.length := by
  induction parts generalizing start pieces with
  | nil =>
      obtain ⟨rfl, rfl⟩ := runAll_nil_matched h
      exact ⟨rfl, rfl⟩
  | cons part rest ih =>
      obtain ⟨piece, more, hp, hr, rfl⟩ := runAll_cons_matched h
      obtain ⟨hstart, hle, -⟩ := hw part List.mem_cons_self start piece hp
      obtain ⟨htiles, hlength⟩ := ih (fun r hr => hw r (List.mem_cons_of_mem part hr)) hr
      exact ⟨⟨hstart, hle, htiles⟩, congrArg (· + 1) hlength⟩

/-- What a builder is given. -/
theorem run_sequence_build (parts : List (Rule ν β)) (start : Nat) :
    (∃ stop pieces, runAll tokens call parts start = .matched (stop, pieces) ∧
      ∀ build, run tokens call (.sequence parts (some build)) start
        = .ofBuild ⟨start, stop⟩ (build ⟨start, stop⟩ pieces)) ∨
    ∃ o, (∀ parsed, o ≠ .matched parsed) ∧
      ∀ build, run tokens call (.sequence parts (some build)) start = o := by
  cases h : runAll tokens call parts start with
  | matched chain => exact .inl ⟨chain.1, chain.2, rfl, fun build => by rw [run, h]; rfl⟩
  | unfinished => exact .inr ⟨.unfinished, by simp, fun build => by rw [run, h]; rfl⟩
  | noMatch => exact .inr ⟨.noMatch, by simp, fun build => by rw [run, h]; rfl⟩
  | committed x => exact .inr ⟨.committed x, by simp, fun build => by rw [run, h]; rfl⟩

theorem run_many_tiles (hc : tokens.Coherent) (hcall : ∀ symbol, Within tokens.size (call symbol))
    {item : Rule ν β} {start : Nat} {parsed : Parsed β}
    (h : run tokens call (.many item) start = .matched parsed) :
    ∃ items, parsed.2 = .repeated items ∧ Tiles start items parsed.1.stop ∧
      (∀ piece ∈ items, piece.1.isEmpty = false) ∧
      Exhausted (run tokens call item) parsed.1.stop := by
  simp only [run] at h
  obtain ⟨⟨stop, items⟩, hr, rfl⟩ := Outcome.map_eq_matched.1 h
  have hs := repeatedly_matched hr
  exact ⟨items, rfl, tiles_of_consecutive (run_within hc hcall item) hs,
    not_isEmpty_of_consecutive hs, exhausted_of_repeatedly hr⟩

end Rule

namespace Grammar

variable [DecidableEq ν]

/-- The spans of whatever rules and symbols match on a document, with every symbol standing
for any rule, declaration or view, and calls nested as deeply as one likes. A match begins
where it was asked for and ends inside the stream. A sequence either hands its builder the
matches of its parts, side by side over its whole span, or does not come to its builder. The
items of a repetition stand side by side over its whole span, take a token each, and go on
until there is none to take. -/
theorem parse_spans (document : Json) (g : Grammar ν β) (calls : Nat) {start : Nat}
    (hs : start ≤ (Stream.ofJson document).size) :
    let tokens := Stream.ofJson document
    let run := Rule.run tokens (g.parse tokens calls)
    (∀ symbol parsed, g.parse tokens calls symbol start = .matched parsed →
      parsed.1.Bounded tokens.size start) ∧
    (∀ r parsed, run r start = .matched parsed → parsed.1.Bounded tokens.size start) ∧
    (∀ parts,
      (∃ stop pieces, Tiles start pieces stop ∧ stop ≤ tokens.size ∧
        pieces.length = parts.length ∧
        ∀ build, run (.sequence parts (some build)) start
          = .ofBuild ⟨start, stop⟩ (build ⟨start, stop⟩ pieces)) ∨
      ∃ o, (∀ parsed, o ≠ .matched parsed) ∧
        ∀ build, run (.sequence parts (some build)) start = o) ∧
    ∀ item parsed, run (.many item) start = .matched parsed →
      ∃ items, parsed.2 = .repeated items ∧ Tiles start items parsed.1.stop ∧
        (∀ piece ∈ items, piece.1.isEmpty = false) ∧ Exhausted (run item) parsed.1.stop := by
  intro tokens run
  have hc : tokens.Coherent := Stream.coherent_ofJson document
  have hcall := g.parse_within hc calls
  refine ⟨fun symbol parsed h => (hcall symbol).bounded hs h,
    fun r parsed h => (Rule.run_within hc hcall r).bounded hs h, fun parts => ?_,
    fun item parsed h => Rule.run_many_tiles hc hcall h⟩
  refine (Rule.run_sequence_build parts start).imp_left ?_
  rintro ⟨stop, pieces, hall, hbuild⟩
  have hparts := fun part (_ : part ∈ parts) => Rule.run_within hc hcall part
  obtain ⟨htiles, hlength⟩ := Rule.runAll_tiles hparts hall
  obtain ⟨-, hle⟩ := Rule.runAll_within hparts hall
  have hle : stop ≤ tokens.size := Nat.le_trans hle (Nat.max_le.2 ⟨hs, Nat.le_refl _⟩)
  exact ⟨stop, pieces, htiles, hle, hlength, hbuild⟩

/-- Arrays within arrays: a declaration that stands for the rule which refers to it. -/
def nestedArrays : Grammar Nat Unit
  | 0 => .forward (some 1)
  | 1 => .rule (.sequence [.tag (.opening .array), .many (.ref 2), .tag (.closing .array)] none)
  | 2 => .rule (.sequence [.tag (.opening .arrayEntry), .ref 0, .tag (.closing .arrayEntry)] none)
  | _ => .forward none

/-- The outer array of `[[], []]` takes the ten tokens, its two entries those from 1 to 9. -/
theorem parse_spans_nested :
    let tokens := Stream.ofJson (.arr [.arr [], .arr []])
    let run := Rule.run tokens (nestedArrays.parse tokens 9)
    let entries : List (Parsed Unit) := [(⟨1, 5⟩, .unit), (⟨5, 9⟩, .unit)]
    (1 ≤ tokens.size ∧ nestedArrays.parse tokens 9 0 0 = .matched (⟨0, 10⟩, .unit) ∧
      run (.many (.ref 2)) 1 = .matched (⟨1, 9⟩, .repeated entries)) ∧
    Span.Bounded tokens.size 0 ⟨0, 10⟩ ∧ Span.Bounded tokens.size 1 ⟨1, 9⟩ ∧
    Tiles 1 entries 9 ∧ Exhausted (run (.ref 2)) 9 := by
  intro tokens run entries
  have hmany : run (.many (.ref 2)) 1 = .matched (⟨1, 9⟩, .repeated entries) := rfl
  have houter := parse_spans (.arr [.arr [], .arr []]) nestedArrays 9 (Nat.zero_le _)
  have hinner := parse_spans (.arr [.arr [], .arr []]) nestedArrays 9
    (by decide : 1 ≤ tokens.size)
  obtain ⟨items, hitems, htiles, -, hend⟩ := hinner.2.2.2 _ _ hmany
  cases hitems
  exact ⟨⟨by decide, rfl, hmany⟩, houter.1 0 _ rfl, hinner.2.1 _ _ hmany, htiles, hend⟩

end Grammar
end JsonTemplate
