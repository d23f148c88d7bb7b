import JsonTemplate.Proofs.Rule.Building
import JsonTemplate.Proofs.Rule.Guidance
import Mathlib.Data.Finset.Prod
import Mathlib.Order.Interval.Finset.Nat

/-!
How deep calls nest. `rounds` gives every symbol one call more at a time, all targets found
beforehand. A call more changes no outcome that has come; and as there are but so many
symbols and places, some round brings no new one, and then no later round does. So the
calls on a bench nest no deeper than `callLimit` allows, unless they nest forever
(`outcome_eq_rounds`), and each symbol comes to what it stands for (`outcome_eq_round`).
-/

namespace JsonTemplate

/-- A choice from a finite set that only grows rests for a round before long. -/
theorem exists_resting_round {α : Type} (s : Finset α) (chosen : Nat → α → Bool)
    (grows : ∀ n, ∀ a ∈ s, chosen n a = true → chosen (n + 1) a = true) :
    ∃ n ≤ s.card, ∀ a ∈ s, chosen (n + 1) a = true → chosen n a = true := by
  by_contra hnone
  push Not at hnone
  have hcount (n : Nat) (hn : n ≤ s.card + 1) : n ≤ (s.filter fun a => chosen n a = true).card := by
    induction n with
    | zero => exact Nat.zero_le _
    | succ n ih =>
        obtain ⟨a, hmem, hnew, hold⟩ := hnone n (by omega)
        refine Nat.lt_of_le_of_lt (ih (by omega)) (Finset.card_lt_card ?_)
        refine Finset.ssubset_iff_of_subset (fun b hb => ?_) |>.2 ⟨a, ?_, ?_⟩
        · obtain ⟨hmem, hb⟩ := Finset.mem_filter.1 hb
          exact Finset.mem_filter.2 ⟨hmem, grows n b hmem hb⟩
        · exact Finset.mem_filter.2 ⟨hmem, hnew⟩
        · exact fun h => hold (Finset.mem_filter.1 h).2
  have hall := hcount (s.card + 1) (Nat.le_refl _)
  have := Finset.card_filter_le s fun a => chosen (s.card + 1) a = true
  omega

variable {ν β : Type}

theorem Outcome.eq_unfinished {α : Type} {o : Outcome α} (h : ¬ o.isFinished = true) :
    o = .unfinished := by
  cases o with
  | unfinished => rfl
  | noMatch | matched _ | committed _ => exact absurd rfl h

/-! Targets -/

def Resolution.isFinished : Resolution ν β → Bool
  | unfinished => false
  | _ => true

theorem Resolution.eq_unfinished {r : Resolution ν β} (h : ¬ r.isFinished = true) :
    r = .unfinished := by
  cases r with
  | unfinished => rfl
  | unknown | alternatives _ | unsupported _ => exact absurd rfl h

/-- What a symbol resolves to, by what it stands for. -/
def Binding.resolve (find : ν → Resolution ν β) : Binding ν β → Resolution ν β
  | .forward none => .unknown
  | .forward (some target) => find target
  | .rule r =>
      match r.unnamed with
      | .oneOf alternatives => .alternatives alternatives
      | .ref target => find target
      | other => .unsupported other.label
  | .view _ _ | .spoiled => .unsupported "except"

theorem Grammar.resolve_succ (g : Grammar ν β) (n : Nat) (symbol : ν) :
    g.resolve (n + 1) symbol = (g symbol).resolve (g.resolve n) := by
  rw [resolve]
  cases g symbol with
  | rule r =>
      unfold Binding.resolve
      cases r.unnamed <;> rfl
  | forward target => cases target <;> rfl
  | view _ _ | spoiled => rfl

theorem Binding.resolve_grow {find find' : ν → Resolution ν β} (b : Binding ν β)
    (h : ∀ symbol, (find symbol).isFinished = true → find' symbol = find symbol)
    (hf : (b.resolve find).isFinished = true) : b.resolve find' = b.resolve find := by
  cases b with
  | forward target =>
      cases target with
      | none => rfl
      | some target => exact h target hf
  | rule r =>
      simp only [resolve] at hf ⊢
      split at hf
      · rfl
      · exact h _ hf
      · rfl
  | view _ _ | spoiled => rfl

theorem Grammar.resolve_grow (g : Grammar ν β) (n : Nat) (symbol : ν)
    (h : (g.resolve n symbol).isFinished = true) :
    g.resolve (n + 1) symbol = g.resolve n symbol := by
  induction n generalizing symbol with
  | zero => cases h
  | succ n ih =>
      rw [g.resolve_succ] at h
      rw [g.resolve_succ (n + 1), g.resolve_succ n]
      exact (g symbol).resolve_grow ih h

/-- What has come is not changed by more targets or longer calls. -/
theorem Binding.run_grow [DecidableEq ν] {tokens : Stream} {find find' : ν → Resolution ν β}
    {first second : ν → Nat → Outcome (Parsed β)} (b : Binding ν β)
    (hfind : ∀ target, (find target).isFinished = true → find' target = find target)
    (hcall : ∀ symbol place, (first symbol place).isFinished = true →
      first symbol place = second symbol place) (start : Nat)
    (h : (b.run tokens find first start).isFinished = true) :
    b.run tokens find first start = b.run tokens find' second start := by
  have hfinds (target : ν) (place : Nat) : Outcome.Guided
      (fun _ : Unit => (find target).outcome place) ((find target).outcome place)
      ((find' target).outcome place) := by
    refine Outcome.guided_self.2 fun hf => ?_
    rw [hfind target]
    cases hr : find target with
    | unfinished => rw [hr] at hf; cases hf
    | unknown | alternatives _ | unsupported _ => rfl
  have hcalls (symbol : ν) (place : Nat) : Outcome.Guided (fun _ : Unit => first symbol place)
      (first symbol place) (second symbol place) := Outcome.guided_self.2 (hcall symbol place)
  exact Outcome.guided_self.1 (b.run_guided hfinds hcalls start) h

namespace Workbench

/-- What the symbols of a bench resolve to. -/
def targets (b : Workbench) : Nat → Resolution Nat Built := b.grammar.resolve (b.bindings.size + 1)

theorem resolve_eq_targets (b : Workbench) {n : Nat} (h : b.bindings.size + 1 ≤ n) :
    b.grammar.resolve n = b.targets := by
  -- One round more finds every symbol outside of the bench and some round finds no other.
  obtain ⟨k, hk, hrest⟩ := exists_resting_round (Finset.range b.bindings.size)
    (fun n symbol => (b.grammar.resolve (n + 1) symbol).isFinished) fun n symbol _ hf => by
      rw [b.grammar.resolve_grow _ _ hf]
      exact hf
  rw [Finset.card_range] at hk
  have hround : b.grammar.resolve (k + 2) = b.grammar.resolve (k + 1) := by
    funext symbol
    by_cases hs : symbol < b.bindings.size
    · by_cases hf : (b.grammar.resolve (k + 1) symbol).isFinished = true
      · exact b.grammar.resolve_grow _ _ hf
      · rw [Resolution.eq_unfinished hf,
          Resolution.eq_unfinished (mt (hrest symbol (Finset.mem_range.2 hs)) hf)]
    · rw [Grammar.resolve_succ, Grammar.resolve_succ, b.grammar_of_size_le (Nat.le_of_not_lt hs)]
      rfl
  have hafter (m : Nat) : b.grammar.resolve (k + 1 + m) = b.grammar.resolve (k + 1) := by
    induction m with
    | zero => rfl
    | succ m ih =>
        funext symbol
        rw [← Nat.add_assoc, Grammar.resolve_succ, ih, ← Grammar.resolve_succ, hround]
  rw [targets, show n = k + 1 + (n - (k + 1)) by omega, hafter,
    show b.bindings.size + 1 = k + 1 + (b.bindings.size - k) by omega, hafter]

theorem targets_of_isFinished (b : Workbench) {n symbol : Nat}
    (h : (b.grammar.resolve n symbol).isFinished = true) :
    b.targets symbol = b.grammar.resolve n symbol := by
  have hafter (m : Nat) : b.grammar.resolve (n + m) symbol = b.grammar.resolve n symbol := by
    induction m with
    | zero => rfl
    | succ m ih => rw [← Nat.add_assoc, Grammar.resolve_grow _ _ _ (ih ▸ h), ih]
  rw [← b.resolve_eq_targets (Nat.le_add_left _ n), hafter]

/-- Every symbol resolves as what it stands for does. -/
theorem targets_eq (b : Workbench) (symbol : Nat) :
    b.targets symbol = (b.grammar symbol).resolve b.targets := by
  have hnext := b.resolve_eq_targets (Nat.le_succ (b.bindings.size + 1))
  rw [← hnext, Grammar.resolve_succ, hnext]
  rfl

/-! Rounds -/

variable {tokens : Stream}

/-- What every symbol comes to with one call more than before. -/
def round (b : Workbench) (tokens : Stream) (call : Nat → Nat → Outcome (Parsed Built)) :
    Nat → Nat → Outcome (Parsed Built) := fun symbol =>
  (b.grammar symbol).run tokens b.targets call

def rounds (b : Workbench) (tokens : Stream) : Nat → Nat → Nat → Outcome (Parsed Built)
  | 0 => fun _ _ => .unfinished
  | n + 1 => b.round tokens (b.rounds tokens n)

theorem rounds_within (hc : tokens.Coherent) (b : Workbench) (n symbol : Nat) :
    Within tokens.size (b.rounds tokens n symbol) := by
  induction n generalizing symbol with
  | zero => intro start parsed h; cases h
  | succ n ih => exact (b.grammar symbol).run_within hc ih

theorem rounds_grow (b : Workbench) (n symbol start : Nat)
    (h : (b.rounds tokens n symbol start).isFinished = true) :
    b.rounds tokens n symbol start = b.rounds tokens (n + 1) symbol start := by
  induction n generalizing symbol start with
  | zero => cases h
  | succ n ih =>
      exact (b.grammar symbol).run_grow (fun _ _ => rfl) ih start h

/-- Rounds that agree from a place on agree there ever after. -/
theorem rounds_eq_of_round (hc : tokens.Coherent) (b : Workbench) {n start : Nat}
    (h : ∀ symbol place, start ≤ place → place ≤ max start tokens.size →
      b.rounds tokens (n + 1) symbol place = b.rounds tokens n symbol place)
    (m symbol : Nat) {place : Nat} (hl : start ≤ place) (hr : place ≤ max start tokens.size) :
    b.rounds tokens (n + m) symbol place = b.rounds tokens n symbol place := by
  induction m generalizing symbol place with
  | zero => rfl
  | succ m ih =>
      rw [← h symbol place hl hr]
      refine (b.grammar symbol).run_congr hc (b.rounds_within hc _) rfl fun s p hp hq => ?_
      exact ih s (by omega) (by omega)

/-- A symbol and a place for each round: then there is no new outcome to come. -/
theorem rounds_settle (hc : tokens.Coherent) (b : Workbench) {n m : Nat}
    (hn : b.bindings.size * (tokens.size + 1) + 1 ≤ n)
    (hm : b.bindings.size * (tokens.size + 1) + 1 ≤ m) (symbol start : Nat) :
    b.rounds tokens n symbol start = b.rounds tokens m symbol start := by
  let places := Finset.Icc start (max start tokens.size)
  obtain ⟨k, hk, hrest⟩ := exists_resting_round (Finset.range b.bindings.size ×ˢ places)
    (fun n at' => (b.rounds tokens (n + 1) at'.1 at'.2).isFinished) fun n at' _ hf => by
      rw [← b.rounds_grow _ _ _ hf]
      exact hf
  have hplaces : places.card ≤ tokens.size + 1 := by
    rw [Nat.card_Icc]
    omega
  rw [Finset.card_product, Finset.card_range] at hk
  have hk := hk.trans (Nat.mul_le_mul_left _ hplaces)
  have hround (s p : Nat) (hl : start ≤ p) (hr : p ≤ max start tokens.size) :
      b.rounds tokens (k + 2) s p = b.rounds tokens (k + 1) s p := by
    by_cases hs : s < b.bindings.size
    · by_cases hf : (b.rounds tokens (k + 1) s p).isFinished = true
      · exact (b.rounds_grow _ _ _ hf).symm
      · have hmem : (s, p) ∈ Finset.range b.bindings.size ×ˢ places :=
          Finset.mem_product.2 ⟨Finset.mem_range.2 hs, Finset.mem_Icc.2 ⟨hl, hr⟩⟩
        rw [Outcome.eq_unfinished hf, Outcome.eq_unfinished (mt (hrest (s, p) hmem) hf)]
    · simp only [rounds, round, b.grammar_of_size_le (Nat.le_of_not_lt hs)]
      rfl
  have hafter (m : Nat) := b.rounds_eq_of_round hc hround m symbol (Nat.le_refl start)
    (Nat.le_max_left _ _)
  rw [show n = k + 1 + (n - (k + 1)) by omega, hafter,
    show m = k + 1 + (m - (k + 1)) by omega, hafter]

/-! What runs come to -/

theorem parse_eq_rounds (b : Workbench) {n symbol start : Nat}
    (h : (b.grammar.parse tokens n symbol start).isFinished = true) :
    b.grammar.parse tokens n symbol start = b.rounds tokens n symbol start := by
  induction n generalizing symbol start with
  | zero => cases h
  | succ n ih =>
      rw [Grammar.parse_succ] at h ⊢
      exact (b.grammar symbol).run_grow (fun _ hf => b.targets_of_isFinished hf)
        (fun _ _ hf => ih hf) start h

theorem rounds_eq_parse (b : Workbench) {n m symbol start : Nat}
    (h : (b.rounds tokens n symbol start).isFinished = true)
    (hm : n + b.bindings.size + 1 ≤ m) :
    b.rounds tokens n symbol start = b.grammar.parse tokens m symbol start := by
  induction n generalizing m symbol start with
  | zero => cases h
  | succ n ih =>
      obtain ⟨m, rfl⟩ : ∃ k, m = k + 1 := ⟨m - 1, by omega⟩
      rw [Grammar.parse_succ, b.resolve_eq_targets (by omega)]
      exact (b.grammar symbol).run_grow (fun _ _ => rfl) (fun _ _ hf => ih hf (by omega)) start h

/-- No run is cut off: a bench allows for all rounds that bring anything new. -/
theorem outcome_eq_rounds (hc : tokens.Coherent) (b : Workbench) {n : Nat}
    (hn : b.bindings.size * (tokens.size + 1) + 1 ≤ n) (symbol start : Nat) :
    b.outcome tokens symbol start = b.rounds tokens n symbol start := by
  have hlimit : b.bindings.size * (tokens.size + 1) + 1 + b.bindings.size + 1
      ≤ b.callLimit tokens := by
    simp only [callLimit, Nat.add_mul, Nat.mul_add]
    omega
  have hsettle {m : Nat} (hm : b.bindings.size * (tokens.size + 1) + 1 ≤ m) :=
    b.rounds_settle hc (Nat.le_refl _) hm symbol start
  rw [← hsettle hn]
  by_cases hf : (b.rounds tokens (b.bindings.size * (tokens.size + 1) + 1) symbol start).isFinished
      = true
  · exact (b.rounds_eq_parse hf hlimit).symm
  · rw [Outcome.eq_unfinished hf]
    refine Outcome.eq_unfinished fun h => hf ?_
    rw [hsettle (by omega : _ ≤ b.callLimit tokens), ← b.parse_eq_rounds h]
    exact h

/-- Every symbol comes to what it stands for, whatever it is called by. -/
theorem outcome_eq_round (hc : tokens.Coherent) (b : Workbench) :
    b.outcome tokens = b.round tokens (b.outcome tokens) := by
  have hrounds : b.outcome tokens = b.rounds tokens (b.bindings.size * (tokens.size + 1) + 1) :=
    funext fun symbol => funext (b.outcome_eq_rounds hc (Nat.le_refl _) symbol)
  funext symbol start
  rw [b.outcome_eq_rounds hc (Nat.le_succ _), rounds, ← hrounds]

end Workbench
end JsonTemplate
