import JsonTemplate.Proofs.Rule.Depth
import JsonTemplate.Proofs.Rule.Sessions

/-!
What runs leave behind. A bench that was used is the one without the runs, but for views
that are spoiled. A spoiled view fails as the view did while its target was not known, so
it tells in no outcome before the target is defined; and it tells in none that is reached
without it. Other traces of a run there are not (`play_runs`).
-/

namespace JsonTemplate
namespace Workbench

/-- The second bench is the first with some of its views spoiled. -/
structure Worn (fresh b : Workbench) : Prop where
  names : b.names = fresh.names
  size : b.bindings.size = fresh.bindings.size
  grammar : ∀ s, b.grammar s = fresh.grammar s ∨
    b.grammar s = .spoiled ∧ ∃ target excluded, fresh.grammar s = .view target excluded

namespace Worn

variable {fresh b : Workbench}

theorem refl (b : Workbench) : Worn b b := ⟨rfl, rfl, fun _ => .inl rfl⟩

/-! Preparations -/

/-- Two builds or none, of the same symbols. -/
def Alike {α : Type} : Option (α × Workbench) → Option (α × Workbench) → Prop :=
  Option.Rel fun built built' => built.1 = built'.1 ∧ Worn built.2 built'.2

theorem Alike.bind {α γ : Type} {x y : Option (α × Workbench)}
    {f g : α × Workbench → Option (γ × Workbench)} (h : Alike x y)
    (hfg : ∀ a {fresh b : Workbench}, Worn fresh b → Alike (f (a, fresh)) (g (a, b))) :
    Alike (x.bind f) (y.bind g) := by
  obtain @⟨⟨a, fresh⟩, ⟨-, b⟩, rfl, h⟩ | _ := h
  · exact hfg a h
  · exact .none

theorem Alike.exists_fresh {α : Type} {x : Option (α × Workbench)} {a : α}
    (h : Alike x (some (a, b))) : ∃ fresh, x = some (a, fresh) ∧ Worn fresh b := by
  obtain @⟨⟨a, fresh⟩, -, rfl, h⟩ := h
  exact ⟨fresh, rfl, h⟩

theorem Alike.exists_worn {α : Type} {y : Option (α × Workbench)} {a : α}
    (h : Alike (some (a, fresh)) y) : ∃ b, y = some (a, b) ∧ Worn fresh b := by
  obtain @⟨-, ⟨a, b⟩, rfl, h⟩ := h
  exact ⟨b, rfl, h⟩

theorem add (h : Worn fresh b) (x : Binding Nat Built) : Worn (fresh.add x).2 (b.add x).2 := by
  refine ⟨h.names, by simp [h.size], fun s => ?_⟩
  rw [grammar_add, grammar_add, h.size]
  split
  · exact .inl rfl
  · exact h.grammar s

theorem binding_eq (h : Worn fresh b) (d : Description) (symbols : List Nat) :
    fresh.binding d symbols = b.binding d symbols := by
  have hexclusion (target : Nat) (excluded : List Nat) :
      fresh.exclusion target excluded = b.exclusion target excluded := by
    obtain ht | ⟨ht, t, xs, hf⟩ := h.grammar target
    · simp only [exclusion, ht]
    · simp only [exclusion, ht, hf]
  cases d with
  | except _ _ =>
      cases symbols with
      | nil => rfl
      | cons target excluded => exact hexclusion target excluded
  | many _ | maybe _ | required _ _ | named _ _ | map _ _ => cases symbols <;> rfl
  | existing _ | tag _ | char _ | text _ | keyword _ | textUntil _ | pattern _ | later | commit _
  | sequence _ _ | oneOf _ => rfl

theorem buildAll? {ds : List Description}
    (ih : ∀ d ∈ ds, ∀ {fresh b : Workbench}, Worn fresh b → Alike (fresh.build? d) (b.build? d))
    (h : Worn fresh b) : Alike (fresh.buildAll? ds) (b.buildAll? ds) := by
  induction ds generalizing fresh b with
  | nil => exact .some ⟨rfl, h⟩
  | cons d rest ihrest =>
      rw [Workbench.buildAll?, Workbench.buildAll?]
      refine (ih d List.mem_cons_self h).bind fun symbol _ _ h => ?_
      exact (ihrest (fun d hd => ih d (List.mem_cons_of_mem _ hd)) h).bind fun _ _ _ h =>
        .some ⟨rfl, h⟩

/-- A worn bench builds what the fresh one does. -/
theorem build? (d : Description) {fresh b : Workbench} (h : Worn fresh b) :
    Alike (fresh.build? d) (b.build? d) := by
  induction d using Description.induct generalizing fresh b with
  | existing name =>
      rw [Workbench.build?, Workbench.build?, find?, find?, h.names]
      cases fresh.names.find? fun entry => entry.1 = name with
      | none => exact .none
      | some entry => exact .some ⟨rfl, h⟩
  | made d hd ih =>
      rw [build?_eq _ d hd, build?_eq _ d hd, Option.map_eq_bind, Option.map_eq_bind]
      refine (buildAll? (fun d hmem _ _ h => ih d hmem h) h).bind fun symbols fresh b h => ?_
      have hadd : Worn (fresh.add (fresh.binding d symbols)).2 (b.add (b.binding d symbols)).2 :=
        h.binding_eq d symbols ▸ h.add _
      exact .some ⟨h.size.symm, hadd⟩

theorem name (h : Worn fresh b) (name : String) (symbol : Nat) :
    Worn (fresh.name name symbol) (b.name name symbol) :=
  ⟨congrArg ((name, symbol) :: ·) h.names, h.size, h.grammar⟩

theorem define (h : Worn fresh b) (symbol target : Nat) :
    Worn (fresh.define symbol target) (b.define symbol target) := by
  by_cases hf : fresh.grammar symbol = .forward none
  · have hb : b.grammar symbol = .forward none := by
      obtain hs | ⟨-, t, xs, hv⟩ := h.grammar symbol
      · rw [hs, hf]
      · rw [hf] at hv
        cases hv
    rw [define_of_forward hf, define_of_forward hb]
    refine ⟨h.names, by simp [h.size], fun s => ?_⟩
    rw [grammar_set, grammar_set, h.size]
    split
    · exact .inl rfl
    · exact h.grammar s
  · have hb : b.grammar symbol ≠ .forward none := by
      obtain hs | ⟨hs, -⟩ := h.grammar symbol
      · rwa [hs]
      · rw [hs]
        nofun
    rwa [define_of_ne hf, define_of_ne hb]

theorem run (h : Worn fresh b) {used : Workbench} (hg : b.Grows used) (tokens : Stream)
    (run start : Nat) : Worn fresh ((used.after tokens run start).keep b.bindings.size) := by
  refine ⟨?_, (size_run hg tokens run start).trans h.size, fun s => ?_⟩
  · exact ((used.after_spec tokens run start).1.trans hg.names).trans h.names
  · rw [grammar_run hg]
    split
    · next hp =>
        obtain ⟨target, excluded, hview, -⟩ := exists_view_of_isPending hp.2.1
        rw [hg.grammar s hp.1] at hview
        obtain hs | ⟨hs, -⟩ := h.grammar s
        · exact .inr ⟨rfl, target, excluded, hs ▸ hview⟩
        · rw [hs] at hview
          cases hview
    · exact h.grammar s

/-- A session leaves the bench that its preparations alone leave, worn by its runs. -/
theorem play {c : Workbench} {steps : List Step} {answers : List (Outcome (Parsed Built))}
    (h : Worn fresh b) (hb : b.Closed) (hplay : b.play steps = some (c, answers)) :
    ∃ fresh', fresh.play (steps.filter fun step => !step.isRun) = some (fresh', []) ∧
      Worn fresh' c := by
  induction steps generalizing fresh b answers with
  | nil =>
      cases hplay
      exact ⟨fresh, rfl, h⟩
  | cons step rest ih =>
      obtain ⟨next, answer, more, hstep, hrest, -⟩ := play_cons hplay
      have hnext := (perform_evolves hb hstep).2
      obtain ⟨name, d, symbol, used, rfl, hd, rfl, -⟩ |
        ⟨name, d, target, used, symbol, rfl, hd, hs, rfl, -⟩ |
        ⟨d, document, start, symbol, used, rfl, hd, rfl, -⟩ := perform_cases hstep
      · obtain ⟨prepared, hf, hw⟩ := (hd ▸ h.build? d).exists_fresh
        obtain ⟨fresh', hfresh, hw'⟩ := ih (hw.name name symbol) hnext hrest
        refine ⟨fresh', ?_, hw'⟩
        have hdone : fresh.perform (.name name d) = some (prepared.name name symbol, none) := by
          rw [perform, hf]
          rfl
        exact play_of_perform hdone hfresh
      · obtain ⟨prepared, hf, hw⟩ := (hd ▸ h.build? d).exists_fresh
        obtain ⟨fresh', hfresh, hw'⟩ := ih (hw.define symbol target) hnext hrest
        refine ⟨fresh', ?_, hw'⟩
        have hfind : prepared.find? name = some symbol := by
          rw [find?, ← hw.names]
          exact hs
        have hdone : fresh.perform (.define name d)
            = some (prepared.define symbol target, none) := by
          rw [perform, hf]
          simp [hfind]
        exact play_of_perform hdone hfresh
      · obtain ⟨hg, -, -⟩ := build?_grows hb hd
        exact ih (h.run hg _ _ _) hnext hrest

/-! Outcomes -/

theorem targets_eq (h : Worn fresh b) : b.targets = fresh.targets := by
  have hresolve (n : Nat) : b.grammar.resolve n = fresh.grammar.resolve n := by
    induction n with
    | zero => rfl
    | succ n ih =>
        funext s
        rw [Grammar.resolve_succ, Grammar.resolve_succ, ih]
        obtain hs | ⟨hs, t, xs, hv⟩ := h.grammar s
        · rw [hs]
        · rw [hs, hv]
          rfl
  rw [targets, targets, h.size, hresolve]

end Worn

/-! Hidden symbols -/

theorem grammar_hide (b : Workbench) (symbol s : Nat) : (b.hide symbol).grammar s
    = if s = symbol ∧ symbol < b.bindings.size then .rule (.maybe (.ref symbol))
      else b.grammar s := b.grammar_set symbol _ s

theorem size_hide (b : Workbench) (symbol : Nat) :
    (b.hide symbol).bindings.size = b.bindings.size := Array.size_setIfInBounds

theorem rounds_hide (b : Workbench) {tokens : Stream} {symbol : Nat}
    (h : symbol < b.bindings.size) (n start : Nat) :
    (b.hide symbol).rounds tokens n symbol start = .unfinished := by
  induction n with
  | zero => rfl
  | succ n ih =>
      rw [rounds, round, grammar_hide, if_pos ⟨rfl, h⟩]
      simp only [Binding.run, Rule.run, ih]

end Workbench

theorem Binding.resolve_alike {ν β : Type} [DecidableEq ν] {find find' : ν → Resolution ν β}
    (x : Binding ν β) {place : Nat}
    (h : ∀ t, Outcome.Alike ((find t).outcome place) ((find' t).outcome place)) :
    Outcome.Alike ((x.resolve find).outcome place) ((x.resolve find').outcome place) := by
  cases x with
  | forward target =>
      cases target with
      | none => exact .refl _
      | some target => exact h target
  | rule r =>
      simp only [resolve]
      split
      · exact .refl _
      · exact h _
      · exact .refl _
  | view _ _ | spoiled => exact .refl _

namespace Workbench

/-- With a view hidden everything resolves as before, but for the label of a failure. -/
theorem targets_hide_alike {b : Workbench} {symbol target : Nat} {excluded : List Nat}
    (h : b.grammar symbol = .view target excluded) (s place : Nat) :
    Outcome.Alike (((b.hide symbol).targets s).outcome place) ((b.targets s).outcome place) := by
  have hresolve (n s : Nat) : Outcome.Alike (((b.hide symbol).grammar.resolve n s).outcome place)
      ((b.grammar.resolve n s).outcome place) := by
    induction n generalizing s with
    | zero => exact .unfinished
    | succ n ih =>
        rw [Grammar.resolve_succ, Grammar.resolve_succ, grammar_hide]
        split
        · next hs =>
            rw [hs.1, h]
            exact .committed _ _
        · exact (b.grammar s).resolve_alike ih
  rw [targets, targets, size_hide]
  exact hresolve _ s

namespace Worn

variable {fresh b : Workbench} {tokens : Stream}

/-- A symbol that the wear shows at: its target is known by now. -/
def Stale (fresh b : Workbench) (s : Nat) : Prop :=
  b.grammar s ≠ fresh.grammar s ∧ fresh.isPending s = false

/-- Runs on a worn bench take the course of those on the fresh one, unless this comes to a
stale symbol. -/
theorem rounds_guided (h : Worn fresh b) (n s place : Nat) :
    Outcome.Guided (fun i : {i // Stale fresh b i} => (fresh.hide i).rounds tokens n s place)
      (fresh.rounds tokens n s place) (b.rounds tokens n s place) := by
  have hview {i : Nat} (hi : Stale fresh b i) :
      ∃ target excluded, fresh.grammar i = .view target excluded :=
    ((h.grammar i).resolve_left hi.1).2
  induction n generalizing s place with
  | zero => exact .refl .unfinished
  | succ n ih =>
      by_cases hs : Stale fresh b s
      · -- The course without it has no end.
        intro hf
        obtain ⟨target, excluded, hv⟩ := hview hs
        have hlt : s < fresh.bindings.size := Nat.lt_of_not_le fun hle => by
          rw [fresh.grammar_of_size_le hle] at hv
          cases hv
        have hs' : ((fresh.hide s).rounds tokens (n + 1) s place).isFinished = true := hf ⟨s, hs⟩
        rw [fresh.rounds_hide hlt] at hs'
        cases hs'
      · have hround : b.rounds tokens (n + 1) s
            = (fresh.grammar s).run tokens fresh.targets (b.rounds tokens n) := by
          rw [rounds, round, h.targets_eq]
          obtain heq | ⟨hspoiled, target, excluded, hv⟩ := h.grammar s
          · rw [heq]
          · have hp : fresh.isPending s = true := by
              by_contra hp
              exact hs ⟨by simp [hspoiled, hv], by simpa using hp⟩
            obtain ⟨target', excluded', hv', ht⟩ := exists_view_of_isPending hp
            rw [hspoiled, hv']
            funext start
            simp only [Binding.run, targets, ht]
            rfl
        have hguide (i : {i // Stale fresh b i}) : (fresh.hide i).rounds tokens (n + 1) s
            = (fresh.grammar s).run tokens (fresh.hide i).targets
              ((fresh.hide i).rounds tokens n) := by
          have hne : s ≠ i := fun heq => hs (heq ▸ i.2)
          rw [rounds, round, grammar_hide, if_neg fun hi => hne hi.1]
        simp only [hround, hguide]
        refine (fresh.grammar s).run_guided (fun target place _ => ⟨rfl, fun i => ?_⟩) ih place
        obtain ⟨target', excluded, hv⟩ := hview i.2
        exact targets_hide_alike hv target place

/-- Wear shows in those outcomes alone that come to a stale symbol. -/
theorem outcome_eq (h : Worn fresh b) (hc : tokens.Coherent) {run start : Nat}
    (hclear : ∀ s, Stale fresh b s → fresh.reaches tokens run start s = false) :
    b.outcome tokens run start = fresh.outcome tokens run start := by
  have hfresh := fresh.outcome_eq_rounds hc (Nat.le_refl _) run start
  have hb := b.outcome_eq_rounds hc (Nat.le_refl _) run start
  rw [h.size] at hb
  rw [hfresh, hb]
  refine (h.rounds_guided _ run start fun i => ?_).1.symm
  have hi := hclear i i.2
  have hle : (fresh.hide i).bindings.size * (tokens.size + 1) + 1
      ≤ fresh.bindings.size * (tokens.size + 1) + 1 := by
    rw [size_hide]
  change ((fresh.hide i).rounds tokens _ run start).isFinished = true
  rw [← (fresh.hide i).outcome_eq_rounds hc hle]
  simpa [reaches] using hi

end Worn

variable {tokens : Stream}

/-- By itself a run changes no outcome: what it spoils has no target yet. -/
theorem outcome_after (hc : tokens.Coherent) (b : Workbench) (document : Stream)
    (run start symbol place : Nat) :
    (b.after document run start).outcome tokens symbol place = b.outcome tokens symbol place := by
  obtain ⟨hnames, hsize, hgrammar⟩ := b.after_spec document run start
  have hworn : Worn b (b.after document run start) := by
    refine ⟨hnames, hsize, fun s => ?_⟩
    rw [hgrammar]
    split
    · next h =>
        obtain ⟨target, excluded, hv, -⟩ := exists_view_of_isPending (Bool.and_eq_true_iff.1 h).1
        exact .inr ⟨rfl, target, excluded, hv⟩
    · exact .inl rfl
  refine hworn.outcome_eq hc fun s hstale => absurd ?_ hstale.1
  rw [hgrammar, hstale.2]
  rfl

/-- What the runs of a session leave behind, compared with its preparations alone: builds
and definitions are the same, and so is what a further run comes to, unless this comes to a
view that was used early and has a known target by now. A view that was used early fails
for good. -/
theorem play_runs {steps : List Step} {b : Workbench} {answers : List (Outcome (Parsed Built))}
    (hplay : empty.play steps = some (b, answers)) :
    ∃ fresh, empty.play (steps.filter fun step => !step.isRun) = some (fresh, []) ∧
      b.names = fresh.names ∧ b.bindings.size = fresh.bindings.size ∧
      (∀ s, ¬ UsedEarly s empty steps → b.grammar s = fresh.grammar s) ∧
      (∀ s, UsedEarly s empty steps → ∀ document start,
        b.outcome (Stream.ofJson document) s start
          = .committed (.defect Grammar.unknownTarget (.empty start))) ∧
      ∀ d document start,
        (∀ symbol used, fresh.build? d = some (symbol, used) → ∀ s, UsedEarly s empty steps →
          used.isPending s = true ∨
            used.reaches (Stream.ofJson document) symbol start s = false) →
        (b.perform (.run d document start)).map Prod.snd
          = (fresh.perform (.run d document start)).map Prod.snd := by
  obtain ⟨fresh, hfresh, hworn⟩ := (Worn.refl empty).play closed_empty hplay
  have hspoiled (s : Nat) : b.grammar s = .spoiled ↔ UsedEarly s empty steps :=
    (play_eq_spoiled_iff closed_empty hplay s).trans (or_iff_right fun h => by cases h)
  have hclosed := (play_evolves closed_empty hplay).2
  refine ⟨fresh, hfresh, hworn.names, hworn.size, fun s hs => ?_, fun s hs document start => ?_,
    fun d document start hclear => ?_⟩
  · exact (hworn.grammar s).resolve_right fun h => hs ((hspoiled s).1 h.1)
  · rw [b.outcome_eq_round (Stream.coherent_ofJson document), round, (hspoiled s).2 hs]
    rfl
  · have halike := hworn.build? d
    cases hd : fresh.build? d with
    | none =>
        rw [hd] at halike
        cases hb : b.build? d with
        | none => simp [perform, hd, hb]
        | some built => rw [hb] at halike; cases halike
    | some built =>
        obtain ⟨symbol, used⟩ := built
        obtain ⟨worn, hb, hw⟩ := (hd ▸ halike).exists_worn
        have hout : worn.outcome (Stream.ofJson document) symbol start
            = used.outcome (Stream.ofJson document) symbol start := by
          refine hw.outcome_eq (Stream.coherent_ofJson document) fun s hstale => ?_
          obtain ⟨hs, -⟩ := (hw.grammar s).resolve_left hstale.1
          have hearly := (hspoiled s).1 (((build?_grows hclosed hb).1.eq_spoiled_iff s).1 hs)
          refine (hclear symbol used hd s hearly).resolve_left fun hp => ?_
          rw [hstale.2] at hp
          cases hp
        simp [perform, hd, hb, hout]

/-- A view of a declaration is run before the declaration has its rule, and this matches the
opening token of an array. -/
def earlyRun : List Step :=
  [.name "cell" .later, .name "view" (.except (.existing "cell") []),
    .run (.existing "view") (.arr []) 0,
    .define "cell" (.oneOf [.tag (.opening .array)])]

/-- The bench after `earlyRun`, and the one that nothing was run on. -/
def earlyBench (view : Binding Nat Built) : Workbench where
  names := [("view", 1), ("cell", 0)]
  bindings := #[.forward (some 3), view, .rule (.tag (.opening .array)), .rule (.oneOf [.ref 2])]

theorem play_earlyRun :
    empty.play earlyRun
      = some (earlyBench .spoiled, [.committed (.defect Grammar.unknownTarget (.empty 0))]) ∧
    empty.play (earlyRun.filter fun step => !step.isRun) = some (earlyBench (.view 0 []), []) :=
  ⟨rfl, rfl⟩

theorem eq_one_of_usedEarly {s : Nat} (h : UsedEarly s empty earlyRun) : s = 1 := by
  have hs := (play_eq_spoiled_iff closed_empty play_earlyRun.1 s).2 (.inr h)
  match s with
  | 0 | 2 | 3 => cases hs
  | 1 => rfl
  | _ + 4 => cases hs

/-- The declaration itself comes to the same after the early run as without it. -/
theorem play_runs_declaration :
    empty.play earlyRun
      = some (earlyBench .spoiled, [.committed (.defect Grammar.unknownTarget (.empty 0))]) ∧
    (∀ s, UsedEarly s empty earlyRun →
      (earlyBench (.view 0 [])).isPending s = true ∨
        (earlyBench (.view 0 [])).reaches (Stream.ofJson (.arr [])) 0 0 s = false) ∧
    ((earlyBench .spoiled).perform (.run (.existing "cell") (.arr []) 0)).map Prod.snd
      = some (some (.matched (⟨0, 1⟩, .unit))) := by
  have hclear (s : Nat) (h : UsedEarly s empty earlyRun) :
      (earlyBench (.view 0 [])).isPending s = true ∨
        (earlyBench (.view 0 [])).reaches (Stream.ofJson (.arr [])) 0 0 s = false := by
    rw [eq_one_of_usedEarly h]
    exact .inr rfl
  obtain ⟨fresh, hfresh, -, -, -, -, hrun⟩ := play_runs play_earlyRun.1
  rw [play_earlyRun.2] at hfresh
  cases hfresh
  refine ⟨play_earlyRun.1, hclear, (hrun (.existing "cell") (.arr []) 0 ?_).trans rfl⟩
  intro symbol used hbuilt
  cases hbuilt
  exact hclear

/-- The view does not: it fails where it would match without the early run. -/
theorem play_runs_view :
    ¬ ∀ steps b fresh answers, empty.play steps = some (b, answers) →
      empty.play (steps.filter fun step => !step.isRun) = some (fresh, []) →
      ∀ d document start, (b.perform (.run d document start)).map Prod.snd
        = (fresh.perform (.run d document start)).map Prod.snd := by
  intro h
  have hsame := h earlyRun _ _ _ play_earlyRun.1 play_earlyRun.2 (.existing "view") (.arr []) 0
  have hworn : ((earlyBench .spoiled).perform (.run (.existing "view") (.arr []) 0)).map Prod.snd
      = some (some (.committed (.defect Grammar.unknownTarget (.empty 0)))) := rfl
  have hfresh : ((earlyBench (.view 0 [])).perform (.run (.existing "view") (.arr []) 0)).map
      Prod.snd = some (some (.matched (⟨0, 1⟩, .unit))) := rfl
  rw [hworn, hfresh] at hsame
  cases hsame

end Workbench
end JsonTemplate
