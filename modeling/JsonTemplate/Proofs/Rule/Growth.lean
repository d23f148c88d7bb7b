import JsonTemplate.Proofs.Rule.Depth

/-!
A bench that grows. What a symbol resolves and comes to depends on the symbols it refers to,
and on a closed bench these are all there; so nothing that is added later changes what the
symbols before it come to (`Grows.outcome_eq`).
-/

namespace JsonTemplate

variable {ν β : Type} {tokens : Stream}

/-! References are all that matters -/

theorem Rule.Calls.mem_refs {call : ν → Nat → Outcome (Parsed β)} {r : Rule ν β}
    {start place : Nat} {symbol : ν} (h : r.Calls tokens call start symbol place) :
    symbol ∈ r.refs := by
  induction h with
  | ref symbol start => exact List.mem_singleton.2 rfl
  | @sequence front back part _ _ _ _ _ _ _ _ ih =>
      exact Rule.mem_refsAll.2 ⟨part, by simp, ih⟩
  | oneOf mem _ ih => exact Rule.mem_refsAll.2 ⟨_, mem, ih⟩
  | many _ _ ih | maybe _ ih | required _ ih | map _ ih | named _ ih => exact ih

theorem Rule.run_eq_of_refs {first second : ν → Nat → Outcome (Parsed β)} (r : Rule ν β)
    (h : ∀ symbol ∈ r.refs, first symbol = second symbol) (start : Nat) :
    r.run tokens first start = r.run tokens second start :=
  run_eq_of_calls r fun symbol place hcalls => congrFun (h symbol hcalls.mem_refs) place

@[simp] theorem Rule.refs_unnamed (r : Rule ν β) : r.unnamed.refs = r.refs := by
  induction r using Rule.induct with
  | named _ _ ih => exact ih
  | tag _ | scalar _ | chars _ | sequence _ _ _ | oneOf _ _ | many _ _ | maybe _ _
  | required _ _ _ | map _ _ _ | commit _ | ref _ => rfl

theorem Binding.resolve_eq_of_refs {find find' : ν → Resolution ν β} (b : Binding ν β)
    (h : ∀ symbol ∈ b.refs, find symbol = find' symbol) : b.resolve find = b.resolve find' := by
  cases b with
  | forward target =>
      cases target with
      | none => rfl
      | some target => exact h target (List.mem_singleton.2 rfl)
  | rule r =>
      simp only [resolve]
      split
      · rfl
      · next target hr =>
          refine h target ?_
          rw [refs, ← r.refs_unnamed, hr]
          exact List.mem_singleton.2 rfl
      · rfl
  | view _ _ | spoiled => rfl

/-- The alternatives that a symbol resolves to are those of some rule. -/
theorem Grammar.exists_oneOf_of_resolve {g : Grammar ν β} {n : Nat} {symbol : ν}
    {rules : List (Rule ν β)} (h : g.resolve n symbol = .alternatives rules) :
    ∃ s r, g s = .rule r ∧ r.unnamed = .oneOf rules := by
  induction n generalizing symbol with
  | zero => cases h
  | succ n ih =>
      rw [g.resolve_succ] at h
      cases hg : g symbol with
      | forward target =>
          rw [hg] at h
          cases target with
          | none => cases h
          | some target => exact ih h
      | rule r =>
          rw [hg] at h
          simp only [Binding.resolve] at h
          split at h
          · next hr =>
              cases h
              exact ⟨symbol, r, hg, hr⟩
          · exact ih h
          · cases h
      | view _ _ | spoiled => rw [hg] at h; cases h

theorem Binding.run_eq_of_refs [DecidableEq ν] {find find' : ν → Resolution ν β}
    {first second : ν → Nat → Outcome (Parsed β)} (b : Binding ν β)
    (hfind : ∀ symbol ∈ b.refs, find symbol = find' symbol)
    (h : ∀ symbol ∈ b.refs, first symbol = second symbol)
    (halternatives : ∀ symbol ∈ b.refs, ∀ rules, find symbol = .alternatives rules →
      ∀ r ∈ rules, ∀ s ∈ r.refs, first s = second s) :
    b.run tokens find first = b.run tokens find' second := by
  funext start
  cases b with
  | rule r => exact r.run_eq_of_refs h start
  | spoiled => rfl
  | forward target =>
      cases target with
      | none => rfl
      | some target => exact congrFun (h target (List.mem_singleton.2 rfl)) start
  | view target excluded =>
      have htarget : target ∈ (Binding.view target excluded : Binding ν β).refs :=
        List.mem_singleton.2 rfl
      simp only [run, ← hfind target htarget]
      cases hr : find target with
      | unfinished | unknown | unsupported _ => rfl
      | alternatives rules =>
          refine Rule.runFirst_congr fun r hmem => r.run_eq_of_refs ?_ start
          exact halternatives target htarget rules hr r (List.mem_filter.1 hmem).1

namespace Workbench

variable {b c : Workbench}

theorem Closed.lt_of_targets (hb : b.Closed) {symbol : Nat} {rules : List BenchRule}
    (h : b.targets symbol = .alternatives rules) {r : BenchRule} (hr : r ∈ rules) {s : Nat}
    (hs : s ∈ r.refs) : s < b.bindings.size := by
  obtain ⟨owner, whole, hg, hw⟩ := Grammar.exists_oneOf_of_resolve h
  refine hb.refs owner s ?_
  rw [hg, Binding.refs, ← whole.refs_unnamed, hw]
  exact Rule.mem_refsAll.2 ⟨r, hr, hs⟩

theorem Grows.targets_eq (h : b.Grows c) (hb : b.Closed) {symbol : Nat}
    (hs : symbol < b.bindings.size) : c.targets symbol = b.targets symbol := by
  have hresolve (n : Nat) {s : Nat} (hs : s < b.bindings.size) :
      c.grammar.resolve n s = b.grammar.resolve n s := by
    induction n generalizing s with
    | zero => rfl
    | succ n ih =>
        rw [Grammar.resolve_succ, Grammar.resolve_succ, h.grammar s hs]
        exact (b.grammar s).resolve_eq_of_refs fun t ht => ih (hb.refs s t ht)
  have hle := Nat.add_le_add_right h.size_le 1
  rw [targets, hresolve _ hs, b.resolve_eq_targets hle]

theorem Grows.rounds_eq (h : b.Grows c) (hb : b.Closed) (n : Nat) {symbol : Nat}
    (hs : symbol < b.bindings.size) : c.rounds tokens n symbol = b.rounds tokens n symbol := by
  induction n generalizing symbol with
  | zero => rfl
  | succ n ih =>
      simp only [rounds, round, h.grammar symbol hs]
      refine Eq.symm (Binding.run_eq_of_refs _ ?_ ?_ ?_)
      · exact fun s hmem => (h.targets_eq hb (hb.refs symbol s hmem)).symm
      · exact fun s hmem => (ih (hb.refs symbol s hmem)).symm
      · exact fun s _ rules hr r hmem t ht => (ih (hb.lt_of_targets hr hmem ht)).symm

/-- What is added to a bench changes no outcome of the symbols before it. -/
theorem Grows.outcome_eq (h : b.Grows c) (hb : b.Closed) (hc : tokens.Coherent) {symbol : Nat}
    (hs : symbol < b.bindings.size) : c.outcome tokens symbol = b.outcome tokens symbol := by
  have hle := Nat.add_le_add_right (Nat.mul_le_mul_right (tokens.size + 1) h.size_le) 1
  funext start
  rw [c.outcome_eq_rounds hc (Nat.le_refl _), b.outcome_eq_rounds hc hle, h.rounds_eq hb _ hs]

theorem Grows.runFirst_refs (h : b.Grows c) (hb : b.Closed) (hc : tokens.Coherent)
    {symbols : List Nat} (hs : ∀ s ∈ symbols, s < b.bindings.size) (start : Nat) :
    Rule.runFirst tokens (c.outcome tokens) (symbols.map .ref) start
      = Rule.runFirst tokens (b.outcome tokens) (symbols.map .ref) start := by
  refine Rule.runFirst_congr fun r hr => r.run_eq_of_refs (fun s hmem => ?_) start
  obtain ⟨symbol, hsymbol, rfl⟩ := List.mem_map.1 hr
  obtain rfl := List.mem_singleton.1 hmem
  exact h.outcome_eq hb hc (hs s hsymbol)

end Workbench
end JsonTemplate
