import JsonTemplate.Proofs.Rule.Extent

/-!
Matches that nest. What a match is worth stays inside the tokens that it takes, and the
parts of a sequence and the items of a repetition stand one behind the other, if every
builder of the rule keeps to the span that it is given.
-/

namespace JsonTemplate

variable {ν β : Type}

namespace Payload

variable (inside : Span → β → Prop)

mutual

/-- A payload on the tokens of a span: its values lie inside, and its pieces stand in order. -/
def Fits (span : Span) : Payload β → Prop
  | unit | text _ | optional none => True
  | repeated items => FitAll span.start items span.stop
  | optional (some (place, p)) =>
      (span.start ≤ place.start ∧ place.stop ≤ span.stop) ∧ p.Fits place
  | value v => inside span v

def FitAll : Nat → List (Span × Payload β) → Nat → Prop
  | start, [], stop => start ≤ stop
  | start, (place, p) :: rest, stop =>
      start ≤ place.start ∧ place.start ≤ place.stop ∧ p.Fits place ∧ FitAll place.stop rest stop

end

end Payload

namespace Rule

open Payload (Fits FitAll)

variable (inside : Span → β → Prop)

/-- The builder of a sequence on some tokens keeps what it makes of pieces inside of them. -/
def KeepsInside (build : Span → List (Parsed β) → Build β) : Prop :=
  ∀ span pieces payload, span.start < span.stop → FitAll inside span.start pieces span.stop →
    build span pieces = .ok (some payload) → payload.Fits inside span

def KeepsPieceInside (build : Parsed β → Build β) : Prop :=
  ∀ span inner payload, span.start < span.stop → inner.Fits inside span →
    build (span, inner) = .ok (some payload) → payload.Fits inside span

mutual

/-- Builders make something of a token at least, and keep it inside. -/
def Fitting : Rule ν β → Prop
  | tag _ | chars _ | commit _ | ref _ => True
  | scalar value? => ∀ kind start v, value? kind ⟨start, start + 1⟩ = some v →
      inside ⟨start, start + 1⟩ v
  | sequence parts build => AllFitting parts ∧ ∀ b ∈ build, SomeEager parts ∧ KeepsInside inside b
  | oneOf alternatives => AllFitting alternatives
  | many item | maybe item | required item _ | named _ item => item.Fitting
  | map item build => item.Fitting ∧ item.Eager ∧ KeepsPieceInside inside build

def AllFitting : List (Rule ν β) → Prop
  | [] => True
  | r :: rest => r.Fitting ∧ AllFitting rest

end

theorem allFitting_iff (rules : List (Rule ν β)) :
    AllFitting inside rules ↔ ∀ r ∈ rules, r.Fitting inside := by
  induction rules with
  | nil => simp [AllFitting]
  | cons r rest ih => simp [AllFitting, ih]

variable {inside} {tokens : Stream} {call : ν → Nat → Outcome (Parsed β)}

/-- Matches are worth something inside of them. -/
def FitsEverywhere (inside : Span → β → Prop) (item : Nat → Outcome (Parsed β)) : Prop :=
  ∀ start span payload, item start = .matched (span, payload) → payload.Fits inside span

theorem consecutive_fits {size : Nat} {item : Nat → Outcome (Parsed β)} (hw : Within size item)
    (hi : FitsEverywhere inside item) {start stop : Nat} {items : List (Parsed β)}
    (h : Consecutive item start items stop) : FitAll inside start items stop := by
  induction items generalizing start with
  | nil => exact Nat.le_of_eq h.1
  | cons parsed rest ih =>
      obtain ⟨hp, -, hr⟩ := h
      obtain ⟨hstart, hle, -⟩ := hw start parsed hp
      exact ⟨Nat.le_of_eq hstart.symm, hstart ▸ hle, hi start _ _ hp, ih hr⟩

theorem runAll_fits {size : Nat} {parts : List (Rule ν β)}
    (hw : ∀ part ∈ parts, Within size (run tokens call part))
    (hi : ∀ part ∈ parts, FitsEverywhere inside (run tokens call part)) {start stop : Nat}
    {pieces : List (Parsed β)} (h : runAll tokens call parts start = .matched (stop, pieces)) :
    FitAll inside start pieces stop := by
  induction parts generalizing start pieces with
  | nil =>
      obtain ⟨rfl, rfl⟩ := runAll_nil_matched h
      exact Nat.le_refl start
  | cons part rest ih =>
      obtain ⟨piece, more, hp, hr, rfl⟩ := runAll_cons_matched h
      obtain ⟨hstart, hle, -⟩ := hw part List.mem_cons_self start piece hp
      have hrest := ih (fun r hr => hw r (List.mem_cons_of_mem part hr))
        (fun r hr => hi r (List.mem_cons_of_mem part hr)) hr
      exact ⟨Nat.le_of_eq hstart.symm, hstart ▸ hle, hi part List.mem_cons_self start _ _ hp, hrest⟩

theorem run_fits (hc : tokens.Coherent) (hw : ∀ symbol, Within tokens.size (call symbol))
    (ha : ∀ symbol, Advancing (call symbol)) (hcall : ∀ symbol, FitsEverywhere inside (call symbol))
    (r : Rule ν β) (hr : r.Fitting inside) : FitsEverywhere inside (run tokens call r) := by
  induction r using Rule.induct with
  | tag t =>
      intro start span payload h
      obtain ⟨-, he⟩ := run_tag_matched h
      cases he
      trivial
  | scalar value? =>
      intro start span payload h
      obtain ⟨token, v, -, hv, he⟩ := run_scalar_matched h
      cases he
      exact hr _ _ _ hv
  | chars take? =>
      intro start span payload h
      obtain ⟨count, -, he⟩ := run_chars_matched h
      cases he
      trivial
  | sequence parts build ih =>
      intro start span payload h
      have hwithin := fun part (_ : part ∈ parts) => run_within hc hw part
      cases build with
      | none =>
          obtain ⟨stop, pieces, -, he⟩ := run_sequence_none_matched h
          cases he
          trivial
      | some build =>
          obtain ⟨heager, hkeeps⟩ := hr.2 build rfl
          obtain ⟨part, hm, hp⟩ := (someEager_iff parts).1 heager
          obtain ⟨stop, pieces, hall, hb, hs⟩ := run_sequence_matched h
          have hlt := runAll_advancing hwithin ⟨part, hm, run_advancing hc hw ha part hp⟩ hall
          have hfit := runAll_fits hwithin
            (fun part hp => ih part hp ((allFitting_iff inside parts).1 hr.1 part hp)) hall
          cases hs
          exact hkeeps _ pieces payload hlt hfit hb
  | oneOf alternatives ih =>
      intro start span payload h
      obtain ⟨r, hmem, hm⟩ := run_oneOf_matched h
      exact ih r hmem ((allFitting_iff inside alternatives).1 hr r hmem) start span payload hm
  | many item ih =>
      intro start span payload h
      obtain ⟨stop, items, hs, he⟩ := run_many_matched h
      cases he
      exact consecutive_fits (run_within hc hw item) (ih hr) hs
  | maybe item ih =>
      intro start span payload h
      obtain ⟨inner, hi, he⟩ | he := run_maybe_matched h
      · cases he
        exact ⟨⟨Nat.le_refl _, Nat.le_refl _⟩, ih hr start _ _ hi⟩
      · cases he
        trivial
  | required item reason ih =>
      intro start span payload h
      exact ih hr start span payload (run_required_matched h)
  | map item build ih =>
      intro start span payload h
      obtain ⟨⟨place, inner⟩, hi, hb, hs⟩ := run_map_matched h
      cases hs
      have hlt := run_advancing hc hw ha item hr.2.1 start _ hi
      obtain ⟨hstart, -⟩ := run_within hc hw item start _ hi
      exact hr.2.2 _ inner payload (hstart ▸ hlt) (ih hr.1 start _ _ hi) hb
  | named name item ih => exact ih hr
  | commit message =>
      intro start span payload h
      cases h
  | ref symbol => exact hcall symbol

end Rule
end JsonTemplate
