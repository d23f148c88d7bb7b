import JsonTemplate.Proofs.Rule.Matching

/-!
What the matches of a rule are worth. `Yields r P` says that every match of `r`, wherever
it stands, is worth something with `P`; each form of rule yields what its parts yield.
-/

namespace JsonTemplate
namespace Rule

variable {ν β : Type} {tokens : Stream} {call : ν → Nat → Outcome (Parsed β)}
  {P Q : Payload β → Prop}

def Yields (tokens : Stream) (call : ν → Nat → Outcome (Parsed β)) (r : Rule ν β)
    (P : Payload β → Prop) : Prop :=
  ∀ start parsed, run tokens call r start = .matched parsed → P parsed.2

def YieldsAll (tokens : Stream) (call : ν → Nat → Outcome (Parsed β)) (parts : List (Rule ν β))
    (R : List (Parsed β) → Prop) : Prop :=
  ∀ start stop pieces, runAll tokens call parts start = .matched (stop, pieces) → R pieces

theorem yields_any (r : Rule ν β) : Yields tokens call r fun _ => True :=
  fun _ _ _ => trivial

theorem Yields.imp {r : Rule ν β} (h : Yields tokens call r P) (hpq : ∀ payload, P payload → Q payload) :
    Yields tokens call r Q :=
  fun start parsed hr => hpq parsed.2 (h start parsed hr)

theorem yields_oneOf {alternatives : List (Rule ν β)}
    (h : ∀ r ∈ alternatives, Yields tokens call r P) :
    Yields tokens call (.oneOf alternatives) P := by
  intro start parsed hr
  obtain ⟨r, hmem, hr⟩ := run_oneOf_matched hr
  exact h r hmem start parsed hr

theorem yields_required {item : Rule ν β} (h : Yields tokens call item P)
    (reason : Nat → Nat → String) : Yields tokens call (.required item reason) P :=
  fun start parsed hr => h start parsed (run_required_matched hr)

theorem yields_map {item : Rule ν β} {build : Parsed β → Build β}
    (h : Yields tokens call item P)
    (hb : ∀ inner payload, P inner.2 → build inner = .ok (some payload) → Q payload) :
    Yields tokens call (.map item build) Q := by
  intro start parsed hr
  obtain ⟨inner, hi, hbuild, -⟩ := run_map_matched hr
  exact hb inner parsed.2 (h start inner hi) hbuild

theorem yields_maybe {item : Rule ν β} (h : Yields tokens call item P) :
    Yields tokens call (.maybe item) fun payload =>
      ∃ inner : Option (Parsed β), payload = .optional inner ∧ ∀ parsed ∈ inner, P parsed.2 := by
  intro start parsed hr
  obtain ⟨inner, hi, rfl⟩ | rfl := run_maybe_matched hr
  · refine ⟨some inner, rfl, fun other ho => ?_⟩
    cases ho
    exact h start inner hi
  · exact ⟨none, rfl, nofun⟩

theorem yieldsAll_nil : YieldsAll tokens call [] (· = []) :=
  fun _ _ _ h => (runAll_nil_matched h).2

theorem yieldsAll_cons {part : Rule ν β} {parts : List (Rule ν β)} {R : List (Parsed β) → Prop}
    (h : Yields tokens call part P) (hs : YieldsAll tokens call parts R) :
    YieldsAll tokens call (part :: parts) fun pieces =>
      ∃ piece more, pieces = piece :: more ∧ P piece.2 ∧ R more := by
  intro start stop pieces hr
  obtain ⟨piece, more, hp, hm, rfl⟩ := runAll_cons_matched hr
  exact ⟨piece, more, rfl, h start piece hp, hs _ stop more hm⟩

theorem yields_sequence {parts : List (Rule ν β)} {build : Span → List (Parsed β) → Build β}
    {R : List (Parsed β) → Prop} (h : YieldsAll tokens call parts R)
    (hb : ∀ span pieces payload, R pieces → build span pieces = .ok (some payload) → Q payload) :
    Yields tokens call (.sequence parts (some build)) Q := by
  intro start parsed hr
  obtain ⟨stop, pieces, ha, hbuild, -⟩ := run_sequence_matched hr
  exact hb _ pieces parsed.2 (h start stop pieces ha) hbuild

theorem consecutive_yields {item : Rule ν β} (h : Yields tokens call item P) {start stop : Nat}
    {items : List (Parsed β)} (hs : Consecutive (run tokens call item) start items stop) :
    ∀ parsed ∈ items, P parsed.2 := by
  induction items generalizing start with
  | nil => nofun
  | cons parsed items ih =>
      obtain ⟨hp, -, hs⟩ := hs
      intro other ho
      cases ho with
      | head => exact h start parsed hp
      | tail _ ho => exact ih hs other ho

theorem yields_many {item : Rule ν β} (h : Yields tokens call item P) :
    Yields tokens call (.many item) fun payload =>
      ∃ items : List (Parsed β), payload = .repeated items ∧ ∀ parsed ∈ items, P parsed.2 := by
  intro start parsed hr
  obtain ⟨stop, items, hs, rfl⟩ := run_many_matched hr
  exact ⟨items, rfl, consecutive_yields h hs⟩

end Rule
end JsonTemplate
