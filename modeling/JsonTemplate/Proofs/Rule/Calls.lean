import JsonTemplate.Proofs.Rule.Locality

/-!
The calls of a run. `Calls` lists the symbols that a run of a rule can call, each with the
place where it is called; the outcome depends on these calls alone (`run_eq_of_calls`). A
call either stands where the run started, and then the rule leads with its symbol, or
further on in the stream.
-/

namespace JsonTemplate

variable {ν β : Type}

/-- From the first place matches of the item, each of at least one token, lead to the
second. -/
inductive Repeated (item : Nat → Outcome (Parsed β)) : Nat → Nat → Prop
  | here (start : Nat) : Repeated item start start
  | onward {start place : Nat} {parsed : Parsed β} (matched : item start = .matched parsed)
      (taken : parsed.1.isEmpty = false) (rest : Repeated item parsed.1.stop place) :
      Repeated item start place

theorem Repeated.within {size : Nat} {item : Nat → Outcome (Parsed β)} (hw : Within size item)
    {start place : Nat} (h : Repeated item start place) :
    start ≤ place ∧ place ≤ max start size := by
  induction h with
  | here start => omega
  | onward hm _ _ ih =>
      have := hw _ _ hm
      omega

namespace Rule

/-- The calls that a run of a rule from a place can make. A part of a sequence runs where
the parts before it end, an item of a repetition behind the items before it. -/
inductive Calls (tokens : Stream) (call : ν → Nat → Outcome (Parsed β)) :
    Rule ν β → Nat → ν → Nat → Prop
  | ref (symbol : ν) (start : Nat) : Calls tokens call (.ref symbol) start symbol start
  | sequence {front back : List (Rule ν β)} {part : Rule ν β}
      {build : Option (Span → List (Parsed β) → Build β)} {start stop place : Nat}
      {pieces : List (Parsed β)} {symbol : ν}
      (before : runAll tokens call front start = .matched (stop, pieces))
      (calls : Calls tokens call part stop symbol place) :
      Calls tokens call (.sequence (front ++ part :: back) build) start symbol place
  | oneOf {alternatives : List (Rule ν β)} {r : Rule ν β} {start place : Nat} {symbol : ν}
      (mem : r ∈ alternatives) (calls : Calls tokens call r start symbol place) :
      Calls tokens call (.oneOf alternatives) start symbol place
  | many {item : Rule ν β} {start stop place : Nat} {symbol : ν}
      (before : Repeated (run tokens call item) start stop)
      (calls : Calls tokens call item stop symbol place) :
      Calls tokens call (.many item) start symbol place
  | maybe {item : Rule ν β} {start place : Nat} {symbol : ν}
      (calls : Calls tokens call item start symbol place) :
      Calls tokens call (.maybe item) start symbol place
  | required {item : Rule ν β} {reason : Nat → Nat → String} {start place : Nat} {symbol : ν}
      (calls : Calls tokens call item start symbol place) :
      Calls tokens call (.required item reason) start symbol place
  | map {item : Rule ν β} {build : Parsed β → Build β} {start place : Nat} {symbol : ν}
      (calls : Calls tokens call item start symbol place) :
      Calls tokens call (.map item build) start symbol place
  | named {name : String} {item : Rule ν β} {start place : Nat} {symbol : ν}
      (calls : Calls tokens call item start symbol place) :
      Calls tokens call (.named name item) start symbol place

section Dependence

variable {tokens : Stream} {first second : ν → Nat → Outcome (Parsed β)}

theorem repeatedly_eq_of_repeated {item other : Nat → Outcome (Parsed β)} {budget start : Nat}
    (h : ∀ place, Repeated item start place → item place = other place) :
    repeatedly item budget start = repeatedly other budget start := by
  induction budget generalizing start with
  | zero => rfl
  | succ budget ih =>
      simp only [repeatedly, ← h start (.here start)]
      split
      · next parsed hp =>
          split
          · rfl
          · next he =>
              have he : parsed.1.isEmpty = false := by simpa using he
              rw [ih fun place hr => h place (.onward hp he hr)]
      · rfl
      · rfl
      · rfl

theorem runAll_eq_of_calls {parts : List (Rule ν β)} {start : Nat}
    (h : ∀ front part back stop pieces, parts = front ++ part :: back →
      runAll tokens first front start = .matched (stop, pieces) →
      run tokens first part stop = run tokens second part stop) :
    runAll tokens first parts start = runAll tokens second parts start := by
  induction parts generalizing start with
  | nil => rfl
  | cons part rest ih =>
      have hhead := h [] part rest start [] rfl rfl
      simp only [runAll, ← hhead]
      cases hp : run tokens first part start with
      | unfinished | noMatch | committed x => rfl
      | matched piece =>
          have hrest : runAll tokens first rest piece.1.stop
              = runAll tokens second rest piece.1.stop := by
            refine ih fun front next back stop pieces he hr => ?_
            refine h (part :: front) next back stop (piece :: pieces) (by rw [he]; rfl) ?_
            rw [runAll, hp, Outcome.matched_bind, hr, Outcome.matched_map]
          simp only [Outcome.matched_bind, hrest]

/-- Two meanings of the symbols that agree on the calls of a run give it one outcome. -/
theorem run_eq_of_calls (r : Rule ν β) {start : Nat}
    (h : ∀ symbol place, Calls tokens first r start symbol place →
      first symbol place = second symbol place) :
    run tokens first r start = run tokens second r start := by
  induction r using Rule.induct generalizing start with
  | tag _ | scalar _ | chars _ | commit _ => rfl
  | sequence parts build ih =>
      have hall : runAll tokens first parts start = runAll tokens second parts start := by
        refine runAll_eq_of_calls fun front part back stop pieces he hr => ?_
        subst he
        exact ih part (by simp) fun symbol place hcalls => h symbol place (.sequence hr hcalls)
      simp only [run, hall]
  | oneOf alternatives ih =>
      exact runFirst_congr fun r hr => ih r hr fun symbol place hcalls =>
        h symbol place (.oneOf hr hcalls)
  | many item ih =>
      have hi (budget : Nat) : repeatedly (run tokens first item) budget start
          = repeatedly (run tokens second item) budget start :=
        repeatedly_eq_of_repeated fun stop hr => ih fun symbol place hcalls =>
          h symbol place (.many hr hcalls)
      simp only [run, hi]
  | maybe item ih =>
      simp only [run, ih fun symbol place hcalls => h symbol place (.maybe hcalls)]
  | required item reason ih =>
      simp only [run, ih fun symbol place hcalls => h symbol place (.required hcalls)]
  | map item build ih =>
      simp only [run, ih fun symbol place hcalls => h symbol place (.map hcalls)]
  | named name item ih => exact ih fun symbol place hcalls => h symbol place (.named hcalls)
  | ref symbol => exact h symbol start (.ref symbol start)

end Dependence

/-! Where calls stand -/

theorem leadsTo_of_partsLeadTo {leads : ν → Prop} {front back : List (Rule ν β)} {part : Rule ν β}
    (h : PartsLeadTo leads (front ++ part :: back)) :
    (∃ r ∈ front, r.Eager) ∨ part.LeadsTo leads := by
  induction front with
  | nil => exact .inr h.1
  | cons r rest ih =>
      obtain he | hrest := h.2
      · exact .inl ⟨r, List.mem_cons_self, he⟩
      · exact (ih hrest).imp (fun ⟨s, hs, he⟩ => ⟨s, List.mem_cons_of_mem r hs, he⟩) id

variable {tokens : Stream} {call : ν → Nat → Outcome (Parsed β)}

/-- A call is made at once, of a symbol that the rule leads with, or further on. -/
theorem Calls.leads_or_onward (hc : tokens.Coherent)
    (hw : ∀ symbol, Within tokens.size (call symbol)) (ha : ∀ symbol, Advancing (call symbol))
    {r : Rule ν β} {start place : Nat} {symbol : ν} (h : Calls tokens call r start symbol place)
    {leads : ν → Prop} (hl : r.LeadsTo leads) :
    place = start ∧ leads symbol ∨ start < place ∧ place ≤ tokens.size := by
  induction h generalizing leads with
  | ref symbol start => exact .inl ⟨rfl, hl⟩
  | @sequence front back part build start stop place pieces symbol hr _ ih =>
      have hwithin := fun r (_ : r ∈ front) => run_within hc hw r
      have hb := runAll_within hwithin hr
      by_cases hlt : start < stop
      · have := ih (leadsTo_anything part)
        omega
      · -- No part so far took a token, so none of them is eager.
        obtain rfl : start = stop := by omega
        obtain ⟨r, hmem, he⟩ | hpart := leadsTo_of_partsLeadTo hl
        · have := runAll_advancing hwithin ⟨r, hmem, run_advancing hc hw ha r he⟩ hr
          omega
        · exact ih hpart
  | oneOf hmem _ ih => exact ih ((allLeadTo_iff leads _).1 hl _ hmem)
  | @many item start stop place symbol hr _ ih =>
      have hb := hr.within (run_within hc hw item)
      by_cases hlt : start < stop
      · have := ih (leadsTo_anything item)
        omega
      · obtain rfl : start = stop := by omega
        exact ih hl
  | maybe _ ih | required _ ih | map _ ih | named _ ih => exact ih hl

end Rule
end JsonTemplate
