import JsonTemplate.Proofs.Rule.Yields
import JsonTemplate.Proofs.Tree.Relocation

/-!
Rules that reject what they cannot read. A failure is a rejection if it is one through and
through: no cause of it is a defect of the rules, and all its messages are about one place.
A rule is proper if its failures are rejections, given what its parts are worth.
-/

namespace JsonTemplate

namespace Failure

/-- A failure with its causes, each of them a rejection at the same span. -/
def IsRejection (x : Failure) : Prop :=
  ∀ fault ∈ x.chain, fault.kind = .rejected ∧ fault.span = x.head.span

theorem isRejection_rejected (message : String) (span : Span) :
    (rejected message span).IsRejection := by
  intro fault hf
  cases List.mem_singleton.1 hf
  exact ⟨rfl, rfl⟩

theorem IsRejection.under {x : Failure} (h : x.IsRejection) (message : String) :
    (x.under message).IsRejection := by
  intro fault hf
  cases hf with
  | head => exact ⟨rfl, rfl⟩
  | tail _ hf => exact h fault hf

theorem IsRejection.relocate {x : Failure} (h : x.IsRejection) (f : Span → Span) :
    (x.relocate f).IsRejection := by
  intro fault hf
  obtain ⟨y, hy, rfl⟩ : ∃ y ∈ x.chain, y.relocate f = fault := by
    cases hf with
    | head => exact ⟨x.head, List.mem_cons_self, rfl⟩
    | tail _ hf =>
        obtain ⟨y, hy, rfl⟩ := List.mem_map.1 hf
        exact ⟨y, List.mem_cons_of_mem _ hy, rfl⟩
  obtain ⟨hkind, hspan⟩ := h y hy
  exact ⟨hkind, congrArg f hspan⟩

end Failure

/-- What a builder makes has `P`, and what it refuses to make is rejected. -/
def Build.Proper {β : Type} (b : Build β) (P : Payload β → Prop) : Prop :=
  match b with
  | .ok (some payload) => P payload
  | .ok none => True
  | .error x => x.IsRejection

theorem Outcome.isRejection_of_ofBuild {β : Type} {span : Span} {b : Build β}
    {P : Payload β → Prop} (h : b.Proper P) {x : Failure} (hx : ofBuild span b = .committed x) :
    x.IsRejection := by
  rcases b with y | (_ | payload)
  · cases hx
    exact h
  · cases hx
  · cases hx

namespace Rule

variable {ν β : Type} {tokens : Stream} {call : ν → Nat → Outcome (Parsed β)}
  {P Q : Payload β → Prop}

/-- Matches are worth something with `P`, and failures are rejections. -/
structure Proper (tokens : Stream) (call : ν → Nat → Outcome (Parsed β)) (r : Rule ν β)
    (P : Payload β → Prop) : Prop where
  yields : Yields tokens call r P
  rejects : ∀ start x, run tokens call r start = .committed x → x.IsRejection

structure ProperAll (tokens : Stream) (call : ν → Nat → Outcome (Parsed β))
    (parts : List (Rule ν β)) (R : List (Parsed β) → Prop) : Prop where
  yields : YieldsAll tokens call parts R
  rejects : ∀ start x, runAll tokens call parts start = .committed x → x.IsRejection

theorem Proper.imp {r : Rule ν β} (h : Proper tokens call r P)
    (hpq : ∀ payload, P payload → Q payload) : Proper tokens call r Q :=
  ⟨h.yields.imp hpq, h.rejects⟩

theorem proper_tag (t : Tag) : Proper tokens call (.tag t) fun _ => True := by
  refine ⟨yields_any _, fun start x h => ?_⟩
  simp only [run] at h
  split at h <;> cases h

theorem proper_chars (take? : List Char → Option Nat) :
    Proper tokens call (.chars take?) fun payload => ∃ s, payload = .text s := by
  refine ⟨fun start parsed h => ?_, fun start x h => ?_⟩
  · obtain ⟨count, -, rfl⟩ := run_chars_matched h
    exact ⟨_, rfl⟩
  · simp only [run] at h
    split at h <;> cases h

theorem proper_oneOf {alternatives : List (Rule ν β)}
    (h : ∀ r ∈ alternatives, Proper tokens call r P) :
    Proper tokens call (.oneOf alternatives) P := by
  refine ⟨yields_oneOf fun r hr => (h r hr).yields, fun start x hx => ?_⟩
  change runFirst tokens call alternatives start = .committed x at hx
  induction alternatives with
  | nil => cases hx
  | cons r rest ih =>
      have hrest := ih fun other ho => h other (List.mem_cons_of_mem r ho)
      simp only [runFirst] at hx
      split at hx
      · exact hrest hx
      · next f hf =>
          split at hx
          · cases hx
            exact (h r List.mem_cons_self).rejects start x hf
          · exact hrest hx
      · exact (h r List.mem_cons_self).rejects start x hx

theorem repeatedly_rejects {item : Nat → Outcome (Parsed β)}
    (h : ∀ start x, item start = .committed x → x.IsRejection) (budget start : Nat) (x : Failure)
    (hx : repeatedly item budget start = .committed x) : x.IsRejection := by
  induction budget generalizing start with
  | zero => cases hx
  | succ budget ih =>
      simp only [repeatedly] at hx
      split at hx
      · split at hx
        · cases hx
        · exact ih _ (Outcome.map_eq_committed.1 hx)
      · cases hx
      · next f hf =>
          cases hx
          exact h start x hf
      · cases hx

theorem proper_many {item : Rule ν β} (h : Proper tokens call item P) :
    Proper tokens call (.many item) fun payload =>
      ∃ items : List (Parsed β), payload = .repeated items ∧ ∀ parsed ∈ items, P parsed.2 :=
  ⟨yields_many h.yields, fun _ x hx =>
    repeatedly_rejects h.rejects _ _ x (Outcome.map_eq_committed.1 hx)⟩

/-- A failure of the item counts as nothing. -/
theorem proper_maybe {item : Rule ν β} (h : Proper tokens call item P) :
    Proper tokens call (.maybe item) fun payload =>
      ∃ inner : Option (Parsed β), payload = .optional inner ∧ ∀ parsed ∈ inner, P parsed.2 := by
  refine ⟨yields_maybe h.yields, fun start x hx => ?_⟩
  simp only [run] at hx
  split at hx <;> cases hx

theorem proper_required {item : Rule ν β} (h : Proper tokens call item P)
    (reason : Nat → Nat → String) : Proper tokens call (.required item reason) P := by
  refine ⟨yields_required h.yields reason, fun start x hx => ?_⟩
  simp only [run] at hx
  split at hx
  · cases hx
  · cases hx
    exact Failure.isRejection_rejected _ _
  · next f hf =>
      cases hx
      exact (h.rejects start f hf).under _
  · cases hx

theorem proper_map {item : Rule ν β} {build : Parsed β → Build β} (h : Proper tokens call item P)
    (hb : ∀ inner, P inner.2 → (build inner).Proper Q) :
    Proper tokens call (.map item build) Q := by
  refine ⟨yields_map h.yields fun inner payload hp ho => ?_, fun start x hx => ?_⟩
  · have hbuild := hb inner hp
    rwa [ho] at hbuild
  · obtain hitem | ⟨inner, hi, hbuild⟩ := Outcome.bind_eq_committed.1 hx
    · exact h.rejects start x hitem
    · exact Outcome.isRejection_of_ofBuild (hb inner (h.yields start inner hi)) hbuild

theorem properAll_nil : ProperAll tokens call [] (· = []) := ⟨yieldsAll_nil, nofun⟩

theorem properAll_cons {part : Rule ν β} {parts : List (Rule ν β)} {R : List (Parsed β) → Prop}
    (h : Proper tokens call part P) (hs : ProperAll tokens call parts R) :
    ProperAll tokens call (part :: parts) fun pieces =>
      ∃ piece more, pieces = piece :: more ∧ P piece.2 ∧ R more := by
  refine ⟨yieldsAll_cons h.yields hs.yields, fun start x hx => ?_⟩
  obtain hpart | ⟨piece, -, hrest⟩ := Outcome.bind_eq_committed.1 hx
  · exact h.rejects start x hpart
  · exact hs.rejects _ x (Outcome.map_eq_committed.1 hrest)

theorem proper_sequence {parts : List (Rule ν β)} {build : Span → List (Parsed β) → Build β}
    {R : List (Parsed β) → Prop} (h : ProperAll tokens call parts R)
    (hb : ∀ span pieces, R pieces → (build span pieces).Proper Q) :
    Proper tokens call (.sequence parts (some build)) Q := by
  refine ⟨yields_sequence h.yields fun span pieces payload hp ho => ?_, fun start x hx => ?_⟩
  · have hbuild := hb span pieces hp
    rwa [ho] at hbuild
  · obtain hparts | ⟨⟨stop, pieces⟩, ha, hbuild⟩ := Outcome.bind_eq_committed.1 hx
    · exact h.rejects start x hparts
    · exact Outcome.isRejection_of_ofBuild (hb _ pieces (h.yields start stop pieces ha)) hbuild

theorem proper_sequence_none {parts : List (Rule ν β)} {R : List (Parsed β) → Prop}
    (h : ProperAll tokens call parts R) :
    Proper tokens call (.sequence parts none) fun _ => True := by
  refine ⟨yields_any _, fun start x hx => ?_⟩
  obtain hparts | ⟨found, -, hbuild⟩ := Outcome.bind_eq_committed.1 hx
  · exact h.rejects start x hparts
  · cases hbuild

end Rule
end JsonTemplate
