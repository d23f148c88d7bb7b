import JsonTemplate.Proofs.Evaluation.Entries
import JsonTemplate.Proofs.Evaluation.Signals

/-!
Keys that decide an object. A true condition, a loop or a spread makes the object what its
entry comes to, whatever stands before it and behind it; a false condition takes its entry
out of the object. A chain of branches is therefore the value of the first one that holds.
-/

namespace JsonTemplate

namespace Signals

/-- A true condition, or without one a loop, or without both a spread that is no comment. -/
def Decides (signals : Signals) : Prop :=
  signals.condition = some true ∨
    signals.condition = none ∧
      (signals.loop.isSome = true ∨
        signals.loop = none ∧ signals.spread = true ∧ signals.comment = false)

end Signals

namespace Entry

/-- The key of an entry says that the object is what the entry comes to. -/
def Terminal (undefinedAsNull : Bool) (s : Scope) (e : Entry) : Prop :=
  ∃ name, Evaluation.evaluate undefinedAsNull e.key .key s = .ok name ∧ name.signals.Decides

/-- The key of an entry is a condition that does not hold. -/
def Refuted (undefinedAsNull : Bool) (s : Scope) (e : Entry) : Prop :=
  ∃ name, Evaluation.evaluate undefinedAsNull e.key .key s = .ok name ∧
    name.signals.condition = some false

end Entry

/-- A branch of a chain: whether its value is spread, and its guard. The last branch may have
none. -/
structure Branch where
  spread : Bool
  guard : Option Node

namespace Branch

/-- Whether the value of the branch is taken, if nothing before it is. -/
def holds (undefinedAsNull : Bool) (s : Scope) (b : Branch) : Except Failure Bool :=
  match b.guard with
  | none => .ok true
  | some guard => do
      let result ← Evaluation.evaluate undefinedAsNull guard .value s
      return result.value.truthy

end Branch

/-- The branch that an entry is, if its key is a condition and nothing else. -/
def Entry.branch? : Entry → Option Branch
  | .mk (.template [.interpolation spread _ statement _] _) _ _ =>
      match statement with
      | .onlyIf guard _ | .elseIf guard _ => some ⟨spread, some guard⟩
      | .otherwise _ => some ⟨spread, none⟩
      | _ => none
  | _ => none

namespace Evaluation

variable {undefinedAsNull : Bool} {owner : Node} {s : Scope} {e : Entry}

open Entry (Terminal Refuted)

theorem effect_of_refuted (h : Refuted undefinedAsNull s e) :
    effect undefinedAsNull owner s e = .ok .nothing := by
  obtain ⟨⟨v, spread, modifiers, condition, loop, comment⟩, hname, hcondition⟩ := h
  cases hcondition
  exact effect_of_key owner hname

/-- A key that decides leaves nothing to the entries behind it. -/
theorem effect_of_terminal (h : Terminal undefinedAsNull s e) {found : Effect}
    (hf : effect undefinedAsNull owner s e = .ok found) : ∃ r, found = .result r := by
  obtain ⟨⟨v, spread, modifiers, condition, loop, comment⟩, hname, hdecides⟩ := h
  rw [effect_of_key owner hname] at hf
  obtain hcondition | ⟨hcondition, hloop | ⟨hloop, hspread, hcomment⟩⟩ := hdecides
  · cases hcondition
    obtain ⟨result, -, hresult⟩ := bind_eq_ok.1 hf
    exact ⟨_, (Except.ok.inj hresult).symm⟩
  · cases hcondition
    cases loop with
    | none => cases hloop
    | some loop =>
        obtain ⟨values, -, hvalues⟩ := bind_eq_ok.1 hf
        obtain ⟨result, -, hresult⟩ := bind_eq_ok.1 hvalues
        exact ⟨_, (Except.ok.inj hresult).symm⟩
  · cases hcondition
    cases hloop
    cases hspread
    cases hcomment
    obtain ⟨plain, -, hplain⟩ := bind_eq_ok.1 hf
    obtain ⟨result, -, hresult⟩ := bind_eq_ok.1 hplain
    exact ⟨_, (Except.ok.inj hresult).symm⟩

/-- Only a key that decides makes an entry the result, which tells no more than a spread. -/
theorem result_of_effect {r : Evaluated}
    (h : effect undefinedAsNull owner s e = .ok (.result r)) :
    ∃ name, evaluate undefinedAsNull e.key .key s = .ok name ∧ name.signals.Decides ∧
      r.signals = { spread := name.signals.spread } := by
  obtain ⟨key, value, span⟩ := e
  obtain ⟨⟨v, spread, modifiers, condition, loop, comment⟩, hname, hf⟩ := bind_eq_ok.1 h
  refine ⟨_, hname, ?_⟩
  cases condition with
  | some condition =>
      cases condition with
      | true =>
          obtain ⟨result, -, hresult⟩ := bind_eq_ok.1 hf
          cases hresult
          exact ⟨.inl rfl, rfl⟩
      | false => cases hf
  | none =>
      cases loop with
      | some loop =>
          obtain ⟨values, -, hvalues⟩ := bind_eq_ok.1 hf
          obtain ⟨result, -, hresult⟩ := bind_eq_ok.1 hvalues
          cases hresult
          exact ⟨.inr ⟨rfl, .inl rfl⟩, rfl⟩
      | none =>
          obtain ⟨plain, -, hplain⟩ := bind_eq_ok.1 hf
          obtain ⟨result, -, hresult⟩ := bind_eq_ok.1 hplain
          cases spread <;> cases comment <;> cases hresult
          exact ⟨.inr ⟨rfl, .inr ⟨rfl, rfl, rfl⟩⟩, rfl⟩

theorem terminal_of_effect {r : Evaluated}
    (h : effect undefinedAsNull owner s e = .ok (.result r)) : Terminal undefinedAsNull s e := by
  obtain ⟨name, hname, hdecides, -⟩ := result_of_effect h
  exact ⟨name, hname, hdecides⟩

/-- The entries before and behind one that decides do not matter to it. -/
theorem evaluateEntries_terminal (h : Terminal undefinedAsNull s e) (rest rest' : List Entry)
    (collected collected' : Collected) :
    evaluateEntries undefinedAsNull owner (e :: rest) collected s
      = evaluateEntries undefinedAsNull owner (e :: rest') collected' s := by
  rw [evaluateEntries_cons, evaluateEntries_cons]
  cases hf : effect undefinedAsNull owner s e with
  | error x => rfl
  | ok found =>
      obtain ⟨r, rfl⟩ := effect_of_terminal h hf
      rfl

/-- Entries that do not decide hand on what they have come to. -/
theorem evaluateEntries_append {pre : List Entry} {collected : Collected} {r : Evaluated}
    (hn : ∀ e ∈ pre, ¬ Terminal undefinedAsNull s e)
    (h : evaluateEntries undefinedAsNull owner pre collected s = .ok r) :
    ∃ collected', ∀ post, evaluateEntries undefinedAsNull owner (pre ++ post) collected s
      = evaluateEntries undefinedAsNull owner post collected' s := by
  induction pre generalizing collected with
  | nil => exact ⟨collected, fun _ => rfl⟩
  | cons e rest ih =>
      obtain ⟨he, hrest⟩ := List.forall_mem_cons.1 hn
      rw [evaluateEntries_cons] at h
      obtain ⟨found, hf, hfound⟩ := bind_eq_ok.1 h
      have hcons : ∀ post, evaluateEntries undefinedAsNull owner (e :: rest ++ post) collected s
          = continueWith undefinedAsNull owner s (rest ++ post) collected found := by
        intro post
        rw [List.cons_append, evaluateEntries_cons, hf]
        rfl
      cases found with
      | nothing =>
          obtain ⟨collected', hpost⟩ := ih hrest hfound
          exact ⟨collected', fun post => (hcons post).trans (hpost post)⟩
      | result r => exact absurd (terminal_of_effect hf) he
      | adds c =>
          obtain ⟨next, hnext, hmore⟩ := bind_eq_ok.1 hfound
          obtain ⟨collected', hpost⟩ := ih hrest hmore
          refine ⟨collected', fun post => (hcons post).trans ?_⟩
          rw [continueWith, hnext]
          exact hpost post

/-- An entry with a false condition might as well not be there. -/
theorem evaluateEntries_refuted (h : Refuted undefinedAsNull s e) (pre post : List Entry)
    (collected : Collected) :
    evaluateEntries undefinedAsNull owner (pre ++ e :: post) collected s
      = evaluateEntries undefinedAsNull owner (pre ++ post) collected s := by
  induction pre generalizing collected with
  | nil =>
      rw [List.nil_append, evaluateEntries_cons, effect_of_refuted h]
      rfl
  | cons first rest ih =>
      rw [List.cons_append, List.cons_append, evaluateEntries_cons, evaluateEntries_cons]
      congr 1
      funext found
      cases found <;> simp only [continueWith, ih]

/-! Chains -/

/-- A key that is a statement alone says what the statement says. -/
theorem evaluate_statement {n : Node} {signals : Signals}
    (h : evaluate undefinedAsNull n .value s = .ok ⟨none, signals⟩) (spread : Bool)
    (modifiers : List Modifier) (inner outer : Span) :
    ∃ v, evaluate undefinedAsNull (.template [.interpolation spread modifiers n inner] outer) .key s
      = .ok ⟨v, { signals with spread, modifiers }⟩ := by
  simp only [evaluate, evaluateAll, h]
  cases spread with
  | true => exact ⟨none, rfl⟩
  | false =>
      have habsorb := Signals.silent_absorb { signals with spread := false, modifiers }
      refine ⟨some (.str ""), ?_⟩
      cases undefinedAsNull <;>
        exact congrArg (fun x => Except.ok (⟨some (.str ""), x⟩ : Evaluated)) habsorb

/-- The key of a branch is a condition, and as true as its guard. -/
theorem evaluate_branch {b : Branch} {holds : Bool} (h : e.branch? = some b)
    (hb : b.holds undefinedAsNull s = .ok holds) :
    ∃ name, evaluate undefinedAsNull e.key .key s = .ok name ∧
      name.signals.condition = some holds ∧ name.signals.spread = b.spread := by
  unfold Entry.branch? at h
  split at h
  · next spread modifiers statement inner outer value span =>
      have hkey : ∃ signals : Signals, evaluate undefinedAsNull statement .value s
          = .ok ⟨none, signals⟩ ∧ signals.condition = some holds ∧ spread = b.spread := by
        split at h
        · cases h
          obtain ⟨result, hresult, hholds⟩ := bind_eq_ok.1 hb
          cases hholds
          exact ⟨_, bind_eq_ok.2 ⟨result, hresult, rfl⟩, rfl, rfl⟩
        · cases h
          obtain ⟨result, hresult, hholds⟩ := bind_eq_ok.1 hb
          cases hholds
          exact ⟨_, bind_eq_ok.2 ⟨result, hresult, rfl⟩, rfl, rfl⟩
        · cases h
          cases hb
          exact ⟨_, rfl, rfl, rfl⟩
        · cases h
      obtain ⟨signals, hsignals, hcondition, hspread⟩ := hkey
      obtain ⟨v, hv⟩ := evaluate_statement hsignals spread modifiers inner outer
      exact ⟨_, hv, hcondition, hspread⟩
  · cases h

theorem refuted_of_branch {b : Branch} (h : e.branch? = some b)
    (hb : b.holds undefinedAsNull s = .ok false) : Refuted undefinedAsNull s e := by
  obtain ⟨name, hname, hcondition, -⟩ := evaluate_branch h hb
  exact ⟨name, hname, hcondition⟩

/-- A key whose condition holds makes the value of its entry the result, as it is. -/
theorem evaluateEntries_taken {name : Evaluated}
    (hname : evaluate undefinedAsNull e.key .key s = .ok name)
    (hc : name.signals.condition = some true) (rest : List Entry) (collected : Collected) :
    evaluateEntries undefinedAsNull owner (e :: rest) collected s
      = (evaluate undefinedAsNull e.value .value s).map fun r =>
          ⟨r.value, { spread := name.signals.spread }⟩ := by
  rw [evaluateEntries_cons, effect_of_key owner hname, effectOf, hc]
  cases evaluate undefinedAsNull e.value .value s <;> rfl

/-- A branch that holds is the result, and what is behind it is not looked at. -/
theorem evaluateEntries_branch {b : Branch} (h : e.branch? = some b)
    (hb : b.holds undefinedAsNull s = .ok true) (rest : List Entry) (collected : Collected) :
    evaluateEntries undefinedAsNull owner (e :: rest) collected s
      = (evaluate undefinedAsNull e.value .value s).map fun r =>
          ⟨r.value, { spread := b.spread }⟩ := by
  obtain ⟨name, hname, hcondition, hspread⟩ := evaluate_branch h hb
  rw [evaluateEntries_taken hname hcondition, hspread]

/-- Branches that do not hold might as well not be there. -/
theorem evaluateEntries_unheld {chain : List Entry}
    (h : ∀ e ∈ chain, ∃ b, e.branch? = some b ∧ b.holds undefinedAsNull s = .ok false)
    (rest : List Entry) (collected : Collected) :
    evaluateEntries undefinedAsNull owner (chain ++ rest) collected s
      = evaluateEntries undefinedAsNull owner rest collected s := by
  induction chain with
  | nil => rfl
  | cons first more ih =>
      obtain ⟨⟨b, hfirst, hb⟩, hmore⟩ := List.forall_mem_cons.1 h
      have hskip : evaluateEntries undefinedAsNull owner (first :: (more ++ rest)) collected s
          = evaluateEntries undefinedAsNull owner (more ++ rest) collected s :=
        evaluateEntries_refuted (refuted_of_branch hfirst hb) [] (more ++ rest) collected
      exact hskip.trans (ih hmore)

/-- An entry whose key decides is what its object comes to, whatever stands before it and
behind it, and one with a false condition has no part in it. So a chain of branches comes to the
value of the first that holds, or to an object without fields if none does. -/
theorem control_decides (undefinedAsNull : Bool) (span : Span) (role : Role) (s : Scope) :
    (∀ pre t post r, evaluate undefinedAsNull (.object pre span) role s = .ok r →
      (∀ e ∈ pre, ¬ Terminal undefinedAsNull s e) → Terminal undefinedAsNull s t →
      evaluate undefinedAsNull (.object (pre ++ t :: post) span) role s
        = evaluate undefinedAsNull (.object [t] span) role s) ∧
    (∀ pre f post, Refuted undefinedAsNull s f →
      evaluate undefinedAsNull (.object (pre ++ f :: post) span) role s
        = evaluate undefinedAsNull (.object (pre ++ post) span) role s) ∧
    (∀ pre t post b,
      (∀ e ∈ pre, ∃ c, e.branch? = some c ∧ c.holds undefinedAsNull s = .ok false) →
      t.branch? = some b → b.holds undefinedAsNull s = .ok true →
      evaluate undefinedAsNull (.object (pre ++ t :: post) span) role s
        = (evaluate undefinedAsNull t.value .value s).map fun r =>
            ⟨r.value, { spread := b.spread }⟩) ∧
    ∀ chain : List Entry,
      (∀ e ∈ chain, ∃ c, e.branch? = some c ∧ c.holds undefinedAsNull s = .ok false) →
      evaluate undefinedAsNull (.object chain span) role s = .ok ⟨some (.obj []), {}⟩ := by
  simp only [evaluate_object]
  refine ⟨fun pre t post r hr hpre ht => ?_, fun pre f post hf => ?_,
    fun pre t post b hpre ht hb => ?_, fun chain hchain => ?_⟩
  · obtain ⟨collected, hpost⟩ := evaluateEntries_append hpre hr
    rw [hpost]
    exact evaluateEntries_terminal ht _ _ _ _
  · exact evaluateEntries_refuted hf pre post _
  · rw [evaluateEntries_unheld hpre]
    exact evaluateEntries_branch ht hb post _
  · rw [← List.append_nil chain, evaluateEntries_unheld hchain]
    rfl

/-- The entry behind the branch that holds cannot be rendered, nor can the value of the branch
that does not hold. -/
theorem control_decides_failing :
    ∃ (p : Span) (s : Scope) (missing : Node) (pre post : List Entry) (f t : Entry) (b c : Branch),
      p = .empty 0 ∧ s = .ofParameters [] ∧ missing = .path ⟨[⟨"x", false⟩, ⟨"y", false⟩]⟩ p ∧
      pre = [.mk (.template [.text "a" p] p) (.bool true p) p] ∧
      post = [.mk missing missing p] ∧
      f = .mk (.template [.interpolation false []
        (.onlyIf (.comparison .equal (.bool true p) (.null p) p) p) p] p) missing p ∧
      t = .mk (.template [.interpolation true [] (.otherwise p) p] p) (.array [.null p] p) p ∧
      (∃ r, evaluate false (.object pre p) .value s = .ok r) ∧
      (∀ e ∈ pre, ¬ Terminal false s e) ∧ Terminal false s t ∧ Refuted false s f ∧
      f.branch? = some c ∧ c.holds false s = .ok false ∧
      t.branch? = some b ∧ b.holds false s = .ok true ∧
      evaluate false (.object (pre ++ t :: post) p) .value s
        = evaluate false (.object [t] p) .value s ∧
      evaluate false (.object (pre ++ f :: post) p) .value s
        = evaluate false (.object (pre ++ post) p) .value s ∧
      evaluate false (.object ([f] ++ t :: post) p) .value s
        = .ok ⟨some (.arr [.null]), { spread := true }⟩ ∧
      evaluate false (.object [f] p) .value s = .ok ⟨some (.obj []), {}⟩ := by
  let p : Span := .empty 0
  let missing : Node := .path ⟨[⟨"x", false⟩, ⟨"y", false⟩]⟩ p
  let pre : List Entry := [.mk (.template [.text "a" p] p) (.bool true p) p]
  let f : Entry := .mk (.template [.interpolation false []
    (.onlyIf (.comparison .equal (.bool true p) (.null p) p) p) p] p) missing p
  let t : Entry :=
    .mk (.template [.interpolation true [] (.otherwise p) p] p) (.array [.null p] p) p
  obtain ⟨hdecided, hskipped, hfirst, hnone⟩ := control_decides false p .value (.ofParameters [])
  have hpre : ∀ e ∈ pre, ¬ Terminal false (.ofParameters []) e := by
    rw [List.forall_mem_singleton]
    rintro ⟨name, hname, hdecides⟩
    cases hname
    obtain h | ⟨-, h | ⟨-, h, -⟩⟩ := hdecides <;> cases h
  have hf : Refuted false (.ofParameters []) f := ⟨_, rfl, rfl⟩
  have ht : Terminal false (.ofParameters []) t := ⟨_, rfl, .inl rfl⟩
  have hbranch : ∀ e ∈ [f], ∃ c, e.branch? = some c ∧ c.holds false (.ofParameters []) = .ok false :=
    List.forall_mem_singleton.2 ⟨_, rfl, rfl⟩
  exact ⟨p, .ofParameters [], missing, pre, [.mk missing missing p], f, t, _, _, rfl, rfl, rfl, rfl,
    rfl, rfl, rfl, ⟨_, rfl⟩, hpre, ht, hf, rfl, rfl, rfl, rfl, hdecided pre t _ _ rfl hpre ht,
    hskipped pre f _ hf, hfirst [f] t _ _ hbranch rfl rfl, hnone [f] hbranch⟩

end Evaluation
end JsonTemplate
