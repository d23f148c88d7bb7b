import JsonTemplate.Proofs.Rule.Bindings

/-!
What steers a run. A run goes by the outcomes of its calls, and what a failure says steers
nothing. So runs of one rule under several meanings of its symbols take one course as long
as the calls on that course agree: if some of them, the guides, come to an end with every
call, and wherever they do the others agree with them, the others have the same outcome.
Taken with one guide this says that a run which ends is not changed by longer calls.
-/

namespace JsonTemplate

variable {ι ν α β γ : Type}

namespace Outcome

/-- What a run goes on with after each outcome; one that never came stays away. -/
def fold (o : Outcome α) (onNone : Outcome γ) (onMatch : α → Outcome γ)
    (onFailure : Failure → Outcome γ) : Outcome γ :=
  match o with
  | unfinished => unfinished
  | noMatch => onNone
  | matched a => onMatch a
  | committed x => onFailure x

theorem bind_eq_fold (o : Outcome α) (next : α → Outcome γ) :
    o.bind next = o.fold noMatch next committed := by
  cases o <;> rfl

/-- The same outcome, but for what a failure says. -/
inductive Alike : Outcome α → Outcome α → Prop
  | unfinished : Alike unfinished unfinished
  | noMatch : Alike noMatch noMatch
  | matched (a : α) : Alike (matched a) (matched a)
  | committed (x y : Failure) : Alike (committed x) (committed y)

theorem Alike.refl (o : Outcome α) : Alike o o := by
  cases o <;> constructor

theorem Alike.eq_unfinished {o : Outcome α} (h : o.Alike .unfinished) : o = .unfinished := by
  cases h
  rfl

theorem Alike.eq_noMatch {o : Outcome α} (h : o.Alike .noMatch) : o = .noMatch := by
  cases h
  rfl

theorem Alike.eq_matched {o : Outcome α} {a : α} (h : o.Alike (.matched a)) : o = .matched a := by
  cases h
  rfl

theorem Alike.exists_committed {o : Outcome α} {x : Failure} (h : o.Alike (.committed x)) :
    ∃ y, o = .committed y := by
  cases h
  exact ⟨_, rfl⟩

/-- Where all guides end, the two outcomes are one and the guides are like it. -/
def Guided (guides : ι → Outcome α) (first second : Outcome α) : Prop :=
  (∀ i, (guides i).isFinished = true) → first = second ∧ ∀ i, Alike (guides i) first

theorem Guided.refl (o : Outcome α) : Guided (fun _ : ι => o) o o :=
  fun _ => ⟨rfl, fun _ => .refl o⟩

theorem guided_committed (xs : ι → Failure) (x : Failure) :
    Guided (fun i => (committed (xs i) : Outcome α)) (committed x) (committed x) :=
  fun _ => ⟨rfl, fun _ => .committed _ _⟩

theorem isFinished_of_fold {o : Outcome α} {onNone : Outcome γ} {onMatch : α → Outcome γ}
    {onFailure : Failure → Outcome γ}
    (h : (o.fold onNone onMatch onFailure).isFinished = true) : o.isFinished = true := by
  cases o with
  | unfinished => exact h
  | noMatch | matched _ | committed _ => rfl

theorem Guided.fold {guides : ι → Outcome α} {first second : Outcome α}
    {onNones : ι → Outcome γ} {onNone onNone' : Outcome γ} {onMatches : ι → α → Outcome γ}
    {onMatch onMatch' : α → Outcome γ} {onFailures : ι → Failure → Outcome γ}
    {onFailure onFailure' : Failure → Outcome γ}
    (h : Guided guides first second) (hn : Guided onNones onNone onNone')
    (hm : ∀ a, Guided (fun i => onMatches i a) (onMatch a) (onMatch' a))
    (hc : ∀ (xs : ι → Failure) x,
      Guided (fun i => onFailures i (xs i)) (onFailure x) (onFailure' x)) :
    Guided (fun i => (guides i).fold (onNones i) (onMatches i) (onFailures i))
      (first.fold onNone onMatch onFailure) (second.fold onNone' onMatch' onFailure') := by
  intro hf
  obtain ⟨rfl, ha⟩ := h fun i => isFinished_of_fold (hf i)
  cases first with
  | unfinished =>
      obtain rfl : guides = fun _ => .unfinished := funext fun i => (ha i).eq_unfinished
      exact ⟨rfl, fun _ => .unfinished⟩
  | noMatch =>
      obtain rfl : guides = fun _ => .noMatch := funext fun i => (ha i).eq_noMatch
      exact hn hf
  | matched a =>
      obtain rfl : guides = fun _ => .matched a := funext fun i => (ha i).eq_matched
      exact hm a hf
  | committed x =>
      obtain ⟨xs, hxs⟩ := Classical.skolem.1 fun i => (ha i).exists_committed
      obtain rfl : guides = fun i => .committed (xs i) := funext hxs
      exact hc xs x hf

theorem Guided.bind {guides : ι → Outcome α} {first second : Outcome α}
    {nexts : ι → α → Outcome γ} {next next' : α → Outcome γ} (h : Guided guides first second)
    (hn : ∀ a, Guided (fun i => nexts i a) (next a) (next' a)) :
    Guided (fun i => (guides i).bind (nexts i)) (first.bind next) (second.bind next') := by
  simp only [bind_eq_fold]
  exact h.fold (.refl _) hn guided_committed

theorem Guided.map {guides : ι → Outcome α} {first second : Outcome α}
    (h : Guided guides first second) (f : α → γ) :
    Guided (fun i => (guides i).map f) (first.map f) (second.map f) :=
  h.bind fun _ => .refl _

/-- A single guide that is one of the two outcomes itself. -/
theorem guided_self {first second : Outcome α} :
    Guided (fun _ : Unit => first) first second ↔ (first.isFinished = true → first = second) :=
  ⟨fun h hf => (h fun _ => hf).1, fun h hf => ⟨h (hf ()), fun _ => .refl first⟩⟩

end Outcome

open Outcome (Guided)

theorem repeatedly_guided {items : ι → Nat → Outcome (Parsed β)}
    {item item' : Nat → Outcome (Parsed β)}
    (h : ∀ place, Guided (fun i => items i place) (item place) (item' place))
    (budget place : Nat) :
    Guided (fun i => repeatedly (items i) budget place) (repeatedly item budget place)
      (repeatedly item' budget place) := by
  induction budget generalizing place with
  | zero => exact .refl _
  | succ budget ih =>
      have hfold (item : Nat → Outcome (Parsed β)) : repeatedly item (budget + 1) place
          = (item place).fold (.matched (place, []))
            (fun parsed => if parsed.1.isEmpty then .matched (place, [])
              else (repeatedly item budget parsed.1.stop).map fun rest =>
                (rest.1, parsed :: rest.2))
            .committed := by
        rw [repeatedly]
        cases item place <;> rfl
      simp only [hfold]
      refine (h place).fold (.refl _) (fun parsed => ?_) Outcome.guided_committed
      split
      · exact .refl _
      · exact (ih parsed.1.stop).map _

namespace Rule

variable {tokens : Stream} {guides : ι → ν → Nat → Outcome (Parsed β)}
  {first second : ν → Nat → Outcome (Parsed β)}

theorem runAll_guided {parts : List (Rule ν β)}
    (h : ∀ part ∈ parts, ∀ start, Guided (fun i => run tokens (guides i) part start)
      (run tokens first part start) (run tokens second part start)) (start : Nat) :
    Guided (fun i => runAll tokens (guides i) parts start) (runAll tokens first parts start)
      (runAll tokens second parts start) := by
  induction parts generalizing start with
  | nil => exact .refl _
  | cons part rest ih =>
      simp only [runAll]
      refine (h part List.mem_cons_self start).bind fun parsed => ?_
      exact (ih (fun r hr => h r (List.mem_cons_of_mem part hr)) parsed.1.stop).map _

theorem runFirst_guided {alternatives : List (Rule ν β)} {start : Nat}
    (h : ∀ r ∈ alternatives, Guided (fun i => run tokens (guides i) r start)
      (run tokens first r start) (run tokens second r start)) :
    Guided (fun i => runFirst tokens (guides i) alternatives start)
      (runFirst tokens first alternatives start) (runFirst tokens second alternatives start) := by
  induction alternatives with
  | nil => exact .refl _
  | cons r rest ih =>
      have hrest := ih fun s hs => h s (List.mem_cons_of_mem r hs)
      have hfold (call : ν → Nat → Outcome (Parsed β)) : runFirst tokens call (r :: rest) start
          = (run tokens call r start).fold (runFirst tokens call rest start) .matched
            fun x => (runFirst tokens call rest start).fold (.committed x) .matched .committed := by
        rw [runFirst]
        cases run tokens call r start with
        | committed x => cases runFirst tokens call rest start <;> rfl
        | unfinished | noMatch | matched _ => rfl
      simp only [hfold]
      refine (h r List.mem_cons_self).fold hrest (fun _ => .refl _) fun xs x => ?_
      exact hrest.fold (Outcome.guided_committed xs x) (fun _ => .refl _) Outcome.guided_committed

/-- Runs of a rule are guided where the calls of its symbols are. -/
theorem run_guided (h : ∀ symbol place,
      Guided (fun i => guides i symbol place) (first symbol place) (second symbol place))
    (r : Rule ν β) (start : Nat) :
    Guided (fun i => run tokens (guides i) r start) (run tokens first r start)
      (run tokens second r start) := by
  induction r using Rule.induct generalizing start with
  | tag _ | scalar _ | chars _ | commit _ => exact .refl _
  | sequence parts build ih => exact (runAll_guided ih start).bind fun _ => .refl _
  | oneOf alternatives ih => exact runFirst_guided fun r hr => ih r hr start
  | many item ih => exact (repeatedly_guided ih _ start).map _
  | maybe item ih =>
      have hfold (call : ν → Nat → Outcome (Parsed β)) : run tokens call (.maybe item) start
          = (run tokens call item start).fold (.matched (.empty start, .optional none))
            (fun parsed => .matched (parsed.1, .optional (some parsed)))
            fun _ => .matched (.empty start, .optional none) := by
        rw [run]
        cases run tokens call item start <;> rfl
      simp only [hfold]
      exact (ih start).fold (.refl _) (fun _ => .refl _) fun _ _ => .refl _
  | required item reason ih =>
      have hfold (call : ν → Nat → Outcome (Parsed β)) :
          run tokens call (.required item reason) start
            = (run tokens call item start).fold
              (.committed (.rejected (reason start tokens.size) (.empty start))) .matched
              fun x => .committed (x.under (reason start tokens.size)) := by
        rw [run]
        cases run tokens call item start <;> rfl
      simp only [hfold]
      exact (ih start).fold (.refl _) (fun _ => .refl _) fun _ _ => Outcome.guided_committed _ _
  | map item build ih => exact (ih start).bind fun _ => .refl _
  | named name item ih => exact ih start
  | ref symbol => exact h symbol start

end Rule

/-- What symbols stand for is guided where their calls and their targets are. -/
theorem Binding.run_guided [DecidableEq ν] {tokens : Stream} (b : Binding ν β)
    {finds : ι → ν → Resolution ν β} {find find' : ν → Resolution ν β}
    {guides : ι → ν → Nat → Outcome (Parsed β)} {first second : ν → Nat → Outcome (Parsed β)}
    (hfind : ∀ target place, Guided (fun i => (finds i target).outcome place)
      ((find target).outcome place) ((find' target).outcome place))
    (h : ∀ symbol place,
      Guided (fun i => guides i symbol place) (first symbol place) (second symbol place))
    (start : Nat) :
    Guided (fun i => b.run tokens (finds i) (guides i) start) (b.run tokens find first start)
      (b.run tokens find' second start) := by
  cases b with
  | rule r => exact Rule.run_guided h r start
  | spoiled => exact .refl _
  | forward target =>
      cases target with
      | none => exact .refl _
      | some target => exact h target start
  | view target excluded =>
      refine (hfind target start).bind fun rules => ?_
      exact Rule.runFirst_guided fun r _ => Rule.run_guided h r start

end JsonTemplate
