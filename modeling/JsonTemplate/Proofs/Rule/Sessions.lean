import JsonTemplate.Proofs.Rule.Building

/-!
What the steps of a session do to the bench. Steps add symbols, give forward declarations
their targets and spoil views, and that is all (`play_evolves`). A view is spoiled by the
runs that come to it before its target is known (`play_eq_spoiled_iff`).
-/

namespace JsonTemplate
namespace Workbench

theorem grammar_set (b : Workbench) (symbol : Nat) (x : Binding Nat Built) (s : Nat) :
    grammar { b with bindings := b.bindings.setIfInBounds symbol x } s
      = if s = symbol ∧ symbol < b.bindings.size then x else b.grammar s := by
  simp only [grammar, Array.getElem?_setIfInBounds]
  by_cases hs : s = symbol
  · by_cases hlt : symbol < b.bindings.size <;> simp [hs, hlt]
  · simp [hs, Ne.symm hs]

theorem define_of_forward {b : Workbench} {symbol : Nat} (h : b.grammar symbol = .forward none)
    (target : Nat) : b.define symbol target
      = { b with bindings := b.bindings.setIfInBounds symbol (.forward (some target)) } := by
  simp only [define, h]

theorem define_of_ne {b : Workbench} {symbol : Nat} (h : b.grammar symbol ≠ .forward none)
    (target : Nat) : b.define symbol target = b := by
  rw [define]
  split
  · next hf => exact absurd hf h
  · rfl

theorem grammar_keep (b : Workbench) (count s : Nat) :
    (b.keep count).grammar s = if s < count then b.grammar s else .forward none := by
  simp only [grammar, keep, Array.getElem?_extract, Nat.sub_zero, Nat.zero_add]
  by_cases hs : s < count
  · by_cases hlt : s < b.bindings.size
    · rw [if_pos (Nat.lt_min.2 ⟨hs, hlt⟩), if_pos hs]
    · rw [if_neg (fun h => hlt (Nat.lt_min.1 h).2), if_pos hs,
        Array.getElem?_eq_none (Nat.le_of_not_lt hlt)]
  · rw [if_neg (fun h => hs (Nat.lt_min.1 h).1), if_neg hs]
    rfl

theorem size_keep {b : Workbench} {count : Nat} (h : count ≤ b.bindings.size) :
    (b.keep count).bindings.size = count := by
  simp only [keep, Array.size_extract]
  omega

/-! After a run -/

theorem lt_of_isPending {b : Workbench} {s : Nat} (h : b.isPending s = true) :
    s < b.bindings.size := by
  refine Nat.lt_of_not_le fun hle => ?_
  simp only [isPending, b.grammar_of_size_le hle] at h
  cases h

theorem exists_view_of_isPending {b : Workbench} {s : Nat} (h : b.isPending s = true) :
    ∃ target excluded, b.grammar s = .view target excluded ∧
      b.grammar.resolve (b.bindings.size + 1) target = .unknown := by
  simp only [isPending] at h
  split at h
  · next target excluded hg =>
      split at h
      · next ht => exact ⟨target, excluded, hg, ht⟩
      · cases h
  · cases h

theorem foldl_spoil (used : List Nat) (b : Workbench) :
    let c := used.foldl
      (fun b symbol => { b with bindings := b.bindings.setIfInBounds symbol .spoiled }) b
    c.names = b.names ∧ c.bindings.size = b.bindings.size ∧
      ∀ s, c.grammar s = if s ∈ used ∧ s < b.bindings.size then .spoiled else b.grammar s := by
  induction used generalizing b with
  | nil => exact ⟨rfl, rfl, fun s => by simp⟩
  | cons symbol rest ih =>
      obtain ⟨hnames, hsize, hgrammar⟩ :=
        ih { b with bindings := b.bindings.setIfInBounds symbol .spoiled }
      rw [Array.size_setIfInBounds] at hsize hgrammar
      refine ⟨hnames, hsize, fun s => ?_⟩
      rw [List.foldl_cons, hgrammar, grammar_set]
      by_cases hs : s = symbol
      · subst hs
        by_cases hlt : s < b.bindings.size <;> simp [hlt]
      · simp [hs]

/-- A run spoils the pending views that it comes to. -/
theorem after_spec (b : Workbench) (tokens : Stream) (run start : Nat) :
    (b.after tokens run start).names = b.names ∧
    (b.after tokens run start).bindings.size = b.bindings.size ∧
    ∀ s, (b.after tokens run start).grammar s
      = if b.isPending s && b.reaches tokens run start s then .spoiled else b.grammar s := by
  obtain ⟨hnames, hsize, hgrammar⟩ := foldl_spoil ((List.range b.bindings.size).filter fun s =>
    b.isPending s && b.reaches tokens run start s) b
  refine ⟨hnames, hsize, fun s => (hgrammar s).trans ?_⟩
  by_cases h : (b.isPending s && b.reaches tokens run start s) = true
  · have hlt := lt_of_isPending (Bool.and_eq_true_iff.1 h).1
    rw [if_pos h, if_pos ⟨List.mem_filter.2 ⟨List.mem_range.2 hlt, h⟩, hlt⟩]
  · rw [if_neg h, if_neg]
    exact fun hmem => h (List.mem_filter.1 hmem.1).2

/-! Steps -/

/-- What a step does. -/
theorem perform_cases {b c : Workbench} {step : Step} {answer : Option (Outcome (Parsed Built))}
    (h : b.perform step = some (c, answer)) :
    (∃ name d symbol used, step = .name name d ∧ b.build? d = some (symbol, used) ∧
      c = used.name name symbol ∧ answer = none) ∨
    (∃ name d target used symbol, step = .define name d ∧ b.build? d = some (target, used) ∧
      used.find? name = some symbol ∧ c = used.define symbol target ∧ answer = none) ∨
    ∃ d document start symbol used, step = .run d document start ∧
      b.build? d = some (symbol, used) ∧
      c = (used.after (Stream.ofJson document) symbol start).keep b.bindings.size ∧
      answer = some (used.outcome (Stream.ofJson document) symbol start) := by
  cases step with
  | name name d =>
      obtain ⟨⟨symbol, used⟩, hd, h⟩ := Option.bind_eq_some_iff.1 h
      cases h
      exact .inl ⟨name, d, symbol, used, rfl, hd, rfl, rfl⟩
  | define name d =>
      obtain ⟨⟨target, used⟩, hd, h⟩ := Option.bind_eq_some_iff.1 h
      obtain ⟨symbol, hs, h⟩ := Option.bind_eq_some_iff.1 h
      cases h
      exact .inr (.inl ⟨name, d, target, used, symbol, rfl, hd, hs, rfl, rfl⟩)
  | run d document start =>
      obtain ⟨⟨symbol, used⟩, hd, h⟩ := Option.bind_eq_some_iff.1 h
      cases h
      exact .inr (.inr ⟨d, document, start, symbol, used, rfl, hd, rfl, rfl⟩)

theorem play_cons {b c : Workbench} {step : Step} {rest : List Step}
    {answers : List (Outcome (Parsed Built))} (h : b.play (step :: rest) = some (c, answers)) :
    ∃ next answer more, b.perform step = some (next, answer) ∧
      next.play rest = some (c, more) ∧ answers = answer.toList ++ more := by
  rw [play] at h
  obtain ⟨⟨next, answer⟩, hstep, h⟩ := Option.bind_eq_some_iff.1 h
  obtain ⟨⟨last, more⟩, hrest, h⟩ := Option.bind_eq_some_iff.1 h
  cases h
  exact ⟨next, answer, more, hstep, hrest, rfl⟩

theorem play_of_perform {b next c : Workbench} {step : Step} {rest : List Step}
    {answers : List (Outcome (Parsed Built))} (hstep : b.perform step = some (next, none))
    (hrest : next.play rest = some (c, answers)) :
    b.play (step :: rest) = some (c, answers) := by
  rw [play, hstep]
  simp [hrest]

end Workbench

/-- What a symbol stands for changes when it is defined and when it is spoiled. -/
inductive Binding.Becomes {ν β : Type} : Binding ν β → Binding ν β → Prop
  | same (x : Binding ν β) : Becomes x x
  | defined (target : ν) : Becomes (.forward none) (.forward (some target))
  | spoiled (target : ν) (excluded : List ν) : Becomes (.view target excluded) .spoiled

theorem Binding.Becomes.trans {ν β : Type} {x y z : Binding ν β} (h : x.Becomes y)
    (h' : y.Becomes z) : x.Becomes z := by
  cases h with
  | same => exact h'
  | defined target => cases h'; exact .defined target
  | spoiled target excluded => cases h'; exact .spoiled target excluded

namespace Workbench

/-- The second bench is what became of the first. -/
structure Evolves (b c : Workbench) : Prop where
  size_le : b.bindings.size ≤ c.bindings.size
  grammar : ∀ symbol < b.bindings.size, (b.grammar symbol).Becomes (c.grammar symbol)

theorem Grows.evolves {b c : Workbench} (h : b.Grows c) : b.Evolves c :=
  ⟨h.size_le, fun symbol hs => h.grammar symbol hs ▸ .same _⟩

theorem Evolves.trans {a b c : Workbench} (h : a.Evolves b) (h' : b.Evolves c) : a.Evolves c :=
  ⟨Nat.le_trans h.size_le h'.size_le, fun symbol hs =>
    (h.grammar symbol hs).trans (h'.grammar symbol (Nat.lt_of_lt_of_le hs h.size_le))⟩

theorem closed_empty : empty.Closed :=
  ⟨nofun, fun _ _ hs => nomatch hs⟩

theorem Closed.name {b : Workbench} (hb : b.Closed) {symbol : Nat} (hs : symbol < b.bindings.size)
    (name : String) : (b.name name symbol).Closed := by
  refine ⟨fun entry he => ?_, hb.refs⟩
  obtain rfl | he := List.mem_cons.1 he
  · exact hs
  · exact hb.names entry he

theorem Closed.define {b : Workbench} (hb : b.Closed) {symbol target : Nat}
    (ht : target < b.bindings.size) : (b.define symbol target).Closed := by
  by_cases hf : b.grammar symbol = .forward none
  · rw [define_of_forward hf]
    refine ⟨fun entry he => ?_, fun s t ht' => ?_⟩
    · simpa using hb.names entry he
    · rw [grammar_set] at ht'
      simp only [Array.size_setIfInBounds]
      split at ht'
      · obtain rfl := List.mem_singleton.1 ht'
        exact ht
      · exact hb.refs s t ht'
  · rwa [define_of_ne hf]

theorem evolves_define (b : Workbench) (symbol target : Nat) :
    b.Evolves (b.define symbol target) := by
  by_cases hf : b.grammar symbol = .forward none
  · rw [define_of_forward hf]
    refine ⟨by simp, fun s _ => ?_⟩
    rw [grammar_set]
    split
    · next h =>
        rw [h.1, hf]
        exact .defined target
    · exact .same _
  · rw [define_of_ne hf]
    exact (Grows.refl b).evolves

/-- After a run the symbols from before are there, some views among them spoiled. -/
theorem grammar_run {b used : Workbench} (hg : b.Grows used) (tokens : Stream) (run start s : Nat) :
    ((used.after tokens run start).keep b.bindings.size).grammar s
      = if s < b.bindings.size ∧ used.isPending s = true ∧ used.reaches tokens run start s = true
        then .spoiled else b.grammar s := by
  rw [grammar_keep, (used.after_spec tokens run start).2.2]
  by_cases hs : s < b.bindings.size
  · by_cases hp : used.isPending s = true ∧ used.reaches tokens run start s = true
    · simp [hs, hp]
    · simp [hs, hp, hg.grammar s hs]
  · simp [hs, b.grammar_of_size_le (Nat.le_of_not_lt hs)]

theorem size_run {b used : Workbench} (hg : b.Grows used) (tokens : Stream) (run start : Nat) :
    ((used.after tokens run start).keep b.bindings.size).bindings.size = b.bindings.size :=
  size_keep ((used.after_spec tokens run start).2.1 ▸ hg.size_le)

theorem perform_evolves {b c : Workbench} (hb : b.Closed) {step : Step}
    {answer : Option (Outcome (Parsed Built))} (h : b.perform step = some (c, answer)) :
    b.Evolves c ∧ c.Closed := by
  obtain ⟨name, d, symbol, used, -, hd, rfl, -⟩ |
    ⟨name, d, target, used, symbol, -, hd, -, rfl, -⟩ |
    ⟨d, document, start, symbol, used, -, hd, rfl, -⟩ := perform_cases h
  · obtain ⟨hg, hc, hs⟩ := build?_grows hb hd
    exact ⟨⟨hg.size_le, hg.evolves.grammar⟩, hc.name hs name⟩
  · obtain ⟨hg, hc, ht⟩ := build?_grows hb hd
    exact ⟨hg.evolves.trans (used.evolves_define symbol target), hc.define ht⟩
  · obtain ⟨hg, -, -⟩ := build?_grows hb hd
    have hgrammar := grammar_run hg (Stream.ofJson document) symbol start
    have hsize := size_run hg (Stream.ofJson document) symbol start
    refine ⟨⟨Nat.le_of_eq hsize.symm, fun s hs => ?_⟩, fun entry he => ?_, fun s t ht => ?_⟩
    · rw [hgrammar]
      split
      · next hp =>
          obtain ⟨target, excluded, hview, -⟩ := exists_view_of_isPending hp.2.1
          rw [← hg.grammar s hs, hview]
          exact .spoiled target excluded
      · exact .same _
    · rw [hsize]
      refine hb.names entry ?_
      rw [← hg.names, ← (used.after_spec (Stream.ofJson document) symbol start).1]
      exact he
    · rw [hsize]
      rw [hgrammar] at ht
      split at ht
      · cases ht
      · exact hb.refs s t ht

theorem play_evolves {b c : Workbench} (hb : b.Closed) {steps : List Step}
    {answers : List (Outcome (Parsed Built))} (h : b.play steps = some (c, answers)) :
    b.Evolves c ∧ c.Closed := by
  induction steps generalizing b answers with
  | nil =>
      cases h
      exact ⟨(Grows.refl _).evolves, hb⟩
  | cons step rest ih =>
      obtain ⟨next, answer, more, hstep, hrest, -⟩ := play_cons h
      obtain ⟨he, hn⟩ := perform_evolves hb hstep
      obtain ⟨he', hc⟩ := ih hn hrest
      exact ⟨he.trans he', hc⟩

/-! Views that are used early -/

/-- The step is a run that comes to the symbol while this is a view without a known target. -/
def Spoils (b : Workbench) (s : Nat) : Step → Prop
  | .name _ _ | .define _ _ => False
  | .run d document start => ∃ symbol used, b.build? d = some (symbol, used) ∧
      s < b.bindings.size ∧ used.isPending s = true ∧
      used.reaches (Stream.ofJson document) symbol start s = true

/-- One of the steps spoils the symbol on the bench that the steps before it leave. -/
inductive UsedEarly (s : Nat) : Workbench → List Step → Prop
  | now {b : Workbench} {step : Step} (rest : List Step) (spoils : b.Spoils s step) :
      UsedEarly s b (step :: rest)
  | later {b next : Workbench} {step : Step} {rest : List Step}
      {answer : Option (Outcome (Parsed Built))} (done : b.perform step = some (next, answer))
      (early : UsedEarly s next rest) : UsedEarly s b (step :: rest)

theorem usedEarly_cons_iff {b next : Workbench} {step : Step} {rest : List Step}
    {answer : Option (Outcome (Parsed Built))} (h : b.perform step = some (next, answer))
    (s : Nat) : UsedEarly s b (step :: rest) ↔ b.Spoils s step ∨ UsedEarly s next rest := by
  refine ⟨fun he => ?_, fun he => he.elim (.now rest) (.later h)⟩
  cases he with
  | now _ spoils => exact .inl spoils
  | later done early =>
      rw [h] at done
      cases done
      exact .inr early

theorem Grows.eq_spoiled_iff {b c : Workbench} (h : b.Grows c) (s : Nat) :
    c.grammar s = .spoiled ↔ b.grammar s = .spoiled := by
  by_cases hs : s < b.bindings.size
  · rw [h.grammar s hs]
  · have hle := Nat.le_of_not_lt hs
    simp [h.unspoiled s hle, b.grammar_of_size_le hle]

theorem define_eq_spoiled_iff (b : Workbench) (symbol target s : Nat) :
    (b.define symbol target).grammar s = .spoiled ↔ b.grammar s = .spoiled := by
  by_cases hf : b.grammar symbol = .forward none
  · rw [define_of_forward hf, grammar_set]
    split
    · next h => simp [h.1, hf]
    · rfl
  · rw [define_of_ne hf]

theorem perform_eq_spoiled_iff {b c : Workbench} (hb : b.Closed) {step : Step}
    {answer : Option (Outcome (Parsed Built))} (h : b.perform step = some (c, answer)) (s : Nat) :
    c.grammar s = .spoiled ↔ b.grammar s = .spoiled ∨ b.Spoils s step := by
  obtain ⟨name, d, symbol, used, rfl, hd, rfl, -⟩ |
    ⟨name, d, target, used, symbol, rfl, hd, -, rfl, -⟩ |
    ⟨d, document, start, symbol, used, rfl, hd, rfl, -⟩ := perform_cases h
  · exact ((build?_grows hb hd).1.eq_spoiled_iff s).trans (or_iff_left id).symm
  · rw [define_eq_spoiled_iff, (build?_grows hb hd).1.eq_spoiled_iff s]
    exact (or_iff_left id).symm
  · rw [grammar_run (build?_grows hb hd).1]
    constructor
    · intro hs
      split at hs
      · next hp => exact .inr ⟨symbol, used, hd, hp⟩
      · exact .inl hs
    · rintro (hs | ⟨symbol', used', hd', hp⟩)
      · rw [hs, ite_self]
      · rw [hd] at hd'
        cases hd'
        rw [if_pos hp]

/-- A session spoils the symbols that are used early, and no others. -/
theorem play_eq_spoiled_iff {b c : Workbench} (hb : b.Closed) {steps : List Step}
    {answers : List (Outcome (Parsed Built))} (h : b.play steps = some (c, answers)) (s : Nat) :
    c.grammar s = .spoiled ↔ b.grammar s = .spoiled ∨ UsedEarly s b steps := by
  induction steps generalizing b answers with
  | nil =>
      cases h
      exact (or_iff_left nofun).symm
  | cons step rest ih =>
      obtain ⟨next, answer, more, hstep, hrest, -⟩ := play_cons h
      rw [ih (perform_evolves hb hstep).2 hrest, perform_eq_spoiled_iff hb hstep,
        usedEarly_cons_iff hstep, or_assoc]

end Workbench
end JsonTemplate
