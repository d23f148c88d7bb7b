import JsonTemplate.Evaluation.Node
import JsonTemplate.Proofs.Results

/-!
The signals of strings. To put signals together is associative and silence adds nothing, so the
signals of a string are those of its first part with those of the other parts behind them.
-/

namespace JsonTemplate

namespace Signals

theorem silent_absorb (signals : Signals) : silent.absorb signals = signals := by
  simp [absorb, silent]

theorem absorb_silent (signals : Signals) : signals.absorb silent = signals := by
  simp [absorb, silent]

theorem absorb_assoc (a b c : Signals) : (a.absorb b).absorb c = a.absorb (b.absorb c) := by
  simp only [absorb, Bool.or_assoc, List.append_assoc, Option.or_assoc]

end Signals

namespace Evaluation

theorem foldl_absorb (results : List Evaluated) (start : Signals) :
    results.foldl (fun signals part => signals.absorb part.signals) start
      = start.absorb (absorbAll results) := by
  induction results generalizing start with
  | nil => exact start.absorb_silent.symm
  | cons head rest ih =>
      have hcons : absorbAll (head :: rest)
          = (Signals.silent.absorb head.signals).absorb (absorbAll rest) := ih _
      rw [List.foldl_cons, ih, hcons, Signals.silent_absorb, Signals.absorb_assoc]

theorem absorbAll_cons (head : Evaluated) (rest : List Evaluated) :
    absorbAll (head :: rest) = head.signals.absorb (absorbAll rest) := by
  rw [absorbAll, List.foldl_cons, foldl_absorb, Signals.silent_absorb]

theorem absorbAll_singleton (only : Evaluated) : absorbAll [only] = only.signals :=
  only.signals.silent_absorb

variable {undefinedAsNull : Bool} {role : Role} {owner : Node} {r : Evaluated}

theorem signals_of_single? {only : Evaluated}
    (h : single? undefinedAsNull role owner only = some (.ok r)) :
    r.signals = only.signals ∨
      role = .value ∧ r.signals = { only.signals with modifiers := [] } := by
  unfold single? at h
  split at h
  · cases role with
    | key =>
        cases h
        exact .inl rfl
    | value =>
        obtain ⟨v, -, h⟩ := bind_eq_ok.1 (Option.some.inj h)
        cases h
        exact .inr ⟨rfl, rfl⟩
  · split at h
    · cases h
    · split at h <;> cases h
      exact .inl rfl
    · cases h
    · cases h
    · cases h
      exact .inl rfl

/-- A string tells what its parts tell; but as a value that is one spread it keeps the calls to
itself. -/
theorem signals_of_finishTemplate {parts : List Node} {results : List Evaluated}
    (h : finishTemplate undefinedAsNull role owner parts results = .ok r) :
    r.signals = absorbAll results ∨
      role = .value ∧ r.signals = { absorbAll results with modifiers := [] } := by
  have hjoined : ∀ {joined : Except Failure String},
      (do return ⟨some (.str (← joined)), absorbAll results⟩) = Except.ok r →
        r.signals = absorbAll results := by
    intro joined hj
    obtain ⟨text, -, hj⟩ := bind_eq_ok.1 hj
    cases hj
    rfl
  unfold finishTemplate at h
  split at h
  · next part only =>
      split at h
      · cases hs : single? undefinedAsNull role owner only with
        | none =>
            rw [hs] at h
            exact .inl (hjoined h)
        | some result =>
            rw [hs] at h
            rw [absorbAll_singleton]
            exact signals_of_single? (hs.trans (congrArg some h))
      · exact .inl (hjoined h)
  · exact .inl (hjoined h)

end Evaluation
end JsonTemplate
