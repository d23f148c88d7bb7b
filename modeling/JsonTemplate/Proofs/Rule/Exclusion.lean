import JsonTemplate.Proofs.Rule.Growth
import JsonTemplate.Proofs.Rule.Wear

/-!
Exclusion. A choice loses its excluded alternatives when the exclusion is built, a
declaration or a name when the exclusion is first used. Either way what is left is the
choice between the alternatives that are none of the excluded symbols (`except_outcome`):
the one way reads off the rule what the other finds by following declarations and names,
and what is found there stays.
-/

namespace JsonTemplate
namespace Workbench

variable {b c : Workbench} {tokens : Stream}

/-- The symbol is a choice between the alternatives, or comes to one by declarations and
names. -/
inductive StandsFor (b : Workbench) : Nat → List Nat → Prop
  | choice {symbol : Nat} {alternatives : List Nat}
      (rule : b.grammar symbol = .rule (.oneOf (alternatives.map .ref))) :
      StandsFor b symbol alternatives
  | declared {symbol target : Nat} {alternatives : List Nat}
      (forward : b.grammar symbol = .forward (some target))
      (rest : StandsFor b target alternatives) : StandsFor b symbol alternatives
  | named {symbol target : Nat} {name : String} {alternatives : List Nat}
      (rule : b.grammar symbol = .rule (.named name (.ref target)))
      (rest : StandsFor b target alternatives) : StandsFor b symbol alternatives

theorem lt_of_grammar_ne {symbol : Nat} (h : b.grammar symbol ≠ .forward none) :
    symbol < b.bindings.size :=
  Nat.lt_of_not_le fun hle => h (b.grammar_of_size_le hle)

theorem Evolves.rule_eq (h : b.Evolves c) {symbol : Nat} {r : BenchRule}
    (hr : b.grammar symbol = .rule r) : c.grammar symbol = .rule r := by
  have hbecomes := h.grammar symbol (lt_of_grammar_ne (by rw [hr]; nofun))
  rw [hr] at hbecomes
  generalize c.grammar symbol = x at hbecomes
  cases hbecomes
  rfl

theorem Evolves.forward_eq (h : b.Evolves c) {symbol target : Nat}
    (hf : b.grammar symbol = .forward (some target)) :
    c.grammar symbol = .forward (some target) := by
  have hbecomes := h.grammar symbol (lt_of_grammar_ne (by rw [hf]; nofun))
  rw [hf] at hbecomes
  generalize c.grammar symbol = x at hbecomes
  cases hbecomes
  rfl

theorem Evolves.view_eq (h : b.Evolves c) {symbol target : Nat} {excluded : List Nat}
    (hv : b.grammar symbol = .view target excluded) (hs : c.grammar symbol ≠ .spoiled) :
    c.grammar symbol = .view target excluded := by
  have hbecomes := h.grammar symbol (lt_of_grammar_ne (by rw [hv]; nofun))
  rw [hv] at hbecomes
  generalize c.grammar symbol = x at hbecomes hs
  cases hbecomes with
  | same => rfl
  | spoiled => exact absurd rfl hs

namespace StandsFor

variable {target : Nat} {alternatives : List Nat}

theorem targets_eq (h : b.StandsFor target alternatives) :
    b.targets target = .alternatives (alternatives.map .ref) := by
  induction h with
  | choice rule => rw [b.targets_eq, rule]; rfl
  | declared forward _ ih => rw [b.targets_eq, forward]; exact ih
  | named rule _ ih => rw [b.targets_eq, rule]; exact ih

/-- What a symbol stands for it goes on standing for. -/
theorem evolves (h : b.StandsFor target alternatives) (he : b.Evolves c) :
    c.StandsFor target alternatives := by
  induction h with
  | choice rule => exact .choice (he.rule_eq rule)
  | declared forward _ ih => exact .declared (he.forward_eq forward) ih
  | named rule _ ih => exact .named (he.rule_eq rule) ih

theorem lt_size (h : b.StandsFor target alternatives) (hb : b.Closed) {p : Nat}
    (hp : p ∈ alternatives) : p < b.bindings.size :=
  hb.lt_of_targets h.targets_eq (List.mem_map_of_mem hp) (List.mem_singleton.2 rfl)

theorem eq_of_choice (h : b.StandsFor target alternatives) {rules : List BenchRule}
    (hr : b.grammar target = .rule (.oneOf rules)) : rules = alternatives.map .ref := by
  cases h with
  | choice rule =>
      rw [hr] at rule
      cases rule
      rfl
  | declared forward _ => rw [hr] at forward; cases forward
  | named rule _ => rw [hr] at rule; cases rule

/-- An exclusion whose target is known is not spoiled any more. -/
theorem view_perform (h : b.StandsFor target alternatives) (hb : b.Closed) {view : Nat}
    {excluded : List Nat} (hv : b.grammar view = .view target excluded) {step : Step}
    {answer : Option (Outcome (Parsed Built))} (hstep : b.perform step = some (c, answer)) :
    c.grammar view = .view target excluded := by
  refine (perform_evolves hb hstep).1.view_eq hv fun hs => ?_
  obtain hs | hs := (perform_eq_spoiled_iff hb hstep view).1 hs
  · rw [hv] at hs
    cases hs
  · cases step with
    | name _ _ | define _ _ => exact hs
    | run d document start =>
        obtain ⟨symbol, used, hd, hlt, hp, -⟩ := hs
        obtain ⟨hg, -, -⟩ := build?_grows hb hd
        obtain ⟨target', excluded', hv', hunknown⟩ := exists_view_of_isPending hp
        rw [hg.grammar view hlt, hv] at hv'
        cases hv'
        have hknown := (h.evolves hg.evolves).targets_eq
        rw [targets, hunknown] at hknown
        cases hknown

theorem view_play (h : b.StandsFor target alternatives) (hb : b.Closed) {view : Nat}
    {excluded : List Nat} (hv : b.grammar view = .view target excluded) {steps : List Step}
    {answers : List (Outcome (Parsed Built))} (hplay : b.play steps = some (c, answers)) :
    c.grammar view = .view target excluded := by
  induction steps generalizing b answers with
  | nil => cases hplay; exact hv
  | cons step rest ih =>
      obtain ⟨next, answer, more, hstep, hrest, -⟩ := play_cons hplay
      obtain ⟨he, hn⟩ := perform_evolves hb hstep
      exact ih (h.evolves he) hn (h.view_perform hb hv hstep) hrest

end StandsFor

/-! What exclusions come to -/

theorem excluding_map_ref (excluded alternatives : List Nat) :
    Rule.excluding excluded (alternatives.map .ref : List BenchRule)
      = (alternatives.filter fun p => p ∉ excluded).map .ref := by
  rw [Rule.excluding, List.filter_map]
  congr 1
  refine List.filter_congr fun p _ => ?_
  simp

theorem outcome_choice (hc : tokens.Coherent) {symbol : Nat} {rules : List BenchRule}
    (h : b.grammar symbol = .rule (.oneOf rules)) :
    b.outcome tokens symbol = Rule.runFirst tokens (b.outcome tokens) rules := by
  rw [b.outcome_eq_round hc, round, h]
  funext start
  rw [Binding.run, Rule.run, ← b.outcome_eq_round hc]

theorem outcome_view (hc : tokens.Coherent) {view target : Nat} {excluded : List Nat}
    {rules : List BenchRule} (h : b.grammar view = .view target excluded)
    (ht : b.targets target = .alternatives rules) :
    b.outcome tokens view
      = Rule.runFirst tokens (b.outcome tokens) (Rule.excluding excluded rules) := by
  rw [b.outcome_eq_round hc, round, h]
  funext start
  rw [Binding.run, ht, ← b.outcome_eq_round hc]
  rfl

/-- An exclusion once its target is known: the choice without the excluded alternatives, or
the view that finds it. -/
theorem grammar_exclusion {target : Nat} {excluded alternatives : List Nat}
    (he : (b.add (b.exclusion target excluded)).2.Evolves c)
    (hs : c.StandsFor target alternatives) (hu : c.grammar b.bindings.size ≠ .spoiled) :
    c.grammar b.bindings.size
      = .rule (.oneOf (Rule.excluding excluded (alternatives.map .ref))) ∨
    c.grammar b.bindings.size = .view target excluded := by
  have hnew : (b.add (b.exclusion target excluded)).2.grammar b.bindings.size
      = b.exclusion target excluded := by rw [grammar_add, if_pos rfl]
  by_cases hchoice : ∃ rules, b.grammar target = .rule (.oneOf rules)
  · obtain ⟨rules, ht⟩ := hchoice
    have ht' : (b.add (b.exclusion target excluded)).2.grammar target = .rule (.oneOf rules) := by
      rw [grammar_add, if_neg (Nat.ne_of_lt (lt_of_grammar_ne (by rw [ht]; nofun))), ht]
    obtain rfl := hs.eq_of_choice (he.rule_eq ht')
    refine .inl (he.rule_eq ?_)
    rw [hnew, exclusion, ht]
  · refine .inr (he.view_eq ?_ hu)
    rw [hnew, exclusion]
    split
    · next rules ht => exact absurd ⟨rules, ht⟩ hchoice
    · rfl

/-- However it was built, an exclusion runs the alternatives that are left. -/
theorem outcome_exclusion (hc : tokens.Coherent) {target : Nat} {excluded alternatives : List Nat}
    (he : (b.add (b.exclusion target excluded)).2.Evolves c)
    (hs : c.StandsFor target alternatives) (hu : c.grammar b.bindings.size ≠ .spoiled) :
    c.outcome tokens b.bindings.size = Rule.runFirst tokens (c.outcome tokens)
      ((alternatives.filter fun p => p ∉ excluded).map .ref) := by
  rw [← excluding_map_ref]
  obtain hv | hv := grammar_exclusion he hs hu
  · exact outcome_choice hc hv
  · exact outcome_view hc hv hs.targets_eq

theorem exclusion_ne_spoiled (b : Workbench) (target : Nat) (excluded : List Nat) :
    b.exclusion target excluded ≠ .spoiled :=
  b.binding_ne_spoiled (.except .later []) (target :: excluded)

/-- No run spoils an exclusion that was not used before its target is known. -/
theorem unspoiled_exclusion {target : Nat} {excluded alternatives : List Nat} {c₁ c₂ : Workbench}
    {early late : List Step} {answers₁ answers₂ : List (Outcome (Parsed Built))}
    (hg : (b.add (b.exclusion target excluded)).2.Grows c) (hc : c.Closed)
    (hearly : c.play early = some (c₁, answers₁)) (hu : ¬ UsedEarly b.bindings.size c early)
    (hs : c₁.StandsFor target alternatives) (hlate : c₁.play late = some (c₂, answers₂)) :
    c₂.grammar b.bindings.size ≠ .spoiled := by
  obtain ⟨he₁, hc₁⟩ := play_evolves hc hearly
  obtain ⟨he₂, -⟩ := play_evolves hc₁ hlate
  have hu₁ : c₁.grammar b.bindings.size ≠ .spoiled := fun h => by
    obtain h | h := (play_eq_spoiled_iff hc hearly _).1 h
    · rw [hg.eq_spoiled_iff, grammar_add, if_pos rfl] at h
      exact b.exclusion_ne_spoiled target excluded h
    · exact hu h
  obtain hv | hv := grammar_exclusion (hg.evolves.trans he₁) hs hu₁
  · rw [he₂.rule_eq hv]
    nofun
  · rw [hs.view_play hc₁ hv hlate]
    nofun

theorem build?_except {d : Description} {ds : List Description} {v : Nat}
    (h : b.build? (.except d ds) = some (v, c)) :
    ∃ target b₁ excluded b₂, b.build? d = some (target, b₁) ∧
      b₁.buildAll? ds = some (excluded, b₂) ∧ v = b₂.bindings.size ∧
      c = (b₂.add (b₂.exclusion target excluded)).2 := by
  have hd (name : String) : Description.except d ds ≠ .existing name := nofun
  obtain ⟨symbols, b₂, hparts, hv, hc⟩ := build?_made hd h
  obtain ⟨target, b₁, excluded, hd, hds, rfl⟩ := buildAll?_cons hparts
  exact ⟨target, b₁, excluded, b₂, hd, hds, hv, hc⟩

/-- An exclusion that is built on any bench, whatever is built around it, and whose target
stands for a choice at some later point of the session, with no run coming to the exclusion
before it does. From then on, whatever else is done, the exclusion comes to what a choice
between those alternatives comes to that are none of the excluded symbols. Neither building
the exclusion nor running it changes what any other symbol comes to. -/
theorem except_outcome (hb : b.Closed) {d : Description} {ds : List Description} {v : Nat}
    (hbuilt : b.build? (.except d ds) = some (v, c)) :
    ∃ target b₁ excluded b₂, b.build? d = some (target, b₁) ∧
      b₁.buildAll? ds = some (excluded, b₂) ∧
      (∀ document start, ∀ s < b₂.bindings.size,
        c.outcome (Stream.ofJson document) s start
          = b₂.outcome (Stream.ofJson document) s start) ∧
      ∀ c' early c₁ answers₁ alternatives late c₂ answers₂,
        c.Grows c' → c'.Closed → c'.play early = some (c₁, answers₁) → ¬ UsedEarly v c' early →
        c₁.StandsFor target alternatives → c₁.play late = some (c₂, answers₂) →
        ∀ document start,
          let tokens := Stream.ofJson document
          let left := alternatives.filter fun p => p ∉ excluded
          let choice := c₂.addRule (.oneOf (left.map .ref))
          c₂.outcome tokens v start = choice.2.outcome tokens choice.1 start ∧
          (∀ s < c₂.bindings.size, ∀ place,
            choice.2.outcome tokens s place = c₂.outcome tokens s place) ∧
          ∀ s place, (c₂.after tokens v start).outcome tokens s place
            = c₂.outcome tokens s place := by
  obtain ⟨target, b₁, excluded, b₂, hd, hds, rfl, rfl⟩ := build?_except hbuilt
  obtain ⟨-, hb₁, -⟩ := build?_grows hb hd
  obtain ⟨-, hb₂, -⟩ := buildAll?_grows (fun d _ _ _ _ hb h => build?_grows hb h) hb₁ hds
  have hcoherent := Stream.coherent_ofJson
  refine ⟨target, b₁, excluded, b₂, hd, hds, fun document start s hs => ?_, ?_⟩
  · have hadd := b₂.grows_add (b₂.exclusion_ne_spoiled target excluded)
    rw [hadd.outcome_eq hb₂ (hcoherent document) hs]
  intro c' early c₁ answers₁ alternatives late c₂ answers₂ hg hc' hearly hunused hstands hlate
    document start tokens left choice
  obtain ⟨he₁, hc₁⟩ := play_evolves hc' hearly
  obtain ⟨he₂, hc₂⟩ := play_evolves hc₁ hlate
  have hstands₂ := hstands.evolves he₂
  have hunspoiled := unspoiled_exclusion hg hc' hearly hunused hstands hlate
  have hchoice : choice.2.grammar choice.1 = .rule (.oneOf (left.map .ref)) :=
    (c₂.grammar_add _ _).trans (if_pos rfl)
  have hgrows : c₂.Grows choice.2 := c₂.grows_add nofun
  refine ⟨?_, fun s hs place => by rw [hgrows.outcome_eq hc₂ (hcoherent document) hs],
    fun s place => outcome_after (hcoherent document) c₂ tokens _ start s place⟩
  rw [outcome_exclusion (hcoherent document) ((hg.evolves.trans he₁).trans he₂) hstands₂ hunspoiled,
    outcome_choice (hcoherent document) hchoice]
  refine (hgrows.runFirst_refs hc₂ (hcoherent document) (fun p hp => ?_) start).symm
  exact hstands₂.lt_size hc₂ (List.mem_filter.1 hp).1

/-- Two rules for the opening token of an array, and a declaration. -/
def twins : List Step :=
  [.name "first" (.tag (.opening .array)), .name "second" (.tag (.opening .array)),
    .name "cell" .later]

def twinBench (cell : Option Nat) (more : List (Binding Nat Built)) : Workbench where
  names := [("cell", 2), ("second", 1), ("first", 0)]
  bindings := (.rule (.tag (.opening .array)) :: .rule (.tag (.opening .array)) ::
    .forward cell :: more).toArray

/-- The declaration becomes a name for the choice between the two. -/
def twinChoice : Step :=
  .define "cell" (.named "items" (.oneOf [.existing "first", .existing "second"]))

/-- Without its first alternative the choice takes the second one, which does the same. -/
theorem except_outcome_twins :
    let tokens := Stream.ofJson (.arr [])
    let exclusion : Binding Nat Built := .view 2 [0]
    let items := [exclusion, .rule (.oneOf [.ref 0, .ref 1]), .rule (.named "items" (.ref 4))]
    (empty.play twins = some (twinBench none [], []) ∧ (twinBench none []).Closed ∧
      (twinBench none []).build? (.except (.existing "cell") [.existing "first"])
        = some (3, twinBench none [exclusion]) ∧
      (twinBench none [exclusion]).play [twinChoice] = some (twinBench (some 5) items, []) ∧
      ¬ UsedEarly 3 (twinBench none [exclusion]) [twinChoice] ∧
      (twinBench (some 5) items).StandsFor 2 [0, 1]) ∧
    (twinBench (some 5) items).outcome tokens 3 0
      = (twinBench (some 5) (items ++ [.rule (.oneOf [.ref 1])])).outcome tokens 6 0 ∧
    (twinBench (some 5) items).outcome tokens 3 0 = .matched (⟨0, 1⟩, .unit) := by
  intro tokens exclusion items
  have hbefore : empty.play twins = some (twinBench none [], []) := rfl
  have hbuilt : (twinBench none []).build? (.except (.existing "cell") [.existing "first"])
      = some (3, twinBench none [exclusion]) := rfl
  have hearly : (twinBench none [exclusion]).play [twinChoice]
      = some (twinBench (some 5) items, []) := rfl
  have hunused : ¬ UsedEarly 3 (twinBench none [exclusion]) [twinChoice] := by
    rintro (⟨-, h⟩ | ⟨-, h⟩)
    · exact h
    · cases h
  have hstands : (twinBench (some 5) items).StandsFor 2 [0, 1] :=
    .declared rfl (.named rfl (.choice rfl))
  have hclosed := (play_evolves closed_empty hbefore).2
  obtain ⟨target, b₁, excluded, b₂, hd, hds, -, hall⟩ := except_outcome hclosed hbuilt
  cases hd
  cases hds
  obtain ⟨hsame, -⟩ := hall _ [twinChoice] _ _ [0, 1] [] _ _ (.refl _)
    (build?_grows hclosed hbuilt).2.1 hearly hunused hstands rfl (.arr []) 0
  exact ⟨⟨hbefore, hclosed, hbuilt, hearly, hunused, hstands⟩, hsame, rfl⟩

end Workbench
end JsonTemplate
