import JsonTemplate.Proofs.Evaluation.Signals
import JsonTemplate.Proofs.Evaluation.Tolerance

/-!
Values in text. An expression has a value and tells nothing besides, and an interpolation of one
tells at most that it is spread. In text the values become text and what they tell is put
together, so that the text is spread if one of them is.
-/

namespace JsonTemplate

namespace Node

/-- An expression: no statement, and no comment. -/
def isPlainValue : Node → Bool
  | number _ _ | bool _ _ | null _ | undefined _ | quoted _ _ | path _ _ | comparison _ _ _ _
  | arithmetic _ _ _ _ | ternary _ _ _ _ | nullish _ _ _ | group _ _ => true
  | _ => false

/-- Text, or an interpolation of an expression that nothing is called on. -/
def isPlainPart : Node → Bool
  | text _ _ => true
  | interpolation _ modifiers value _ => modifiers.isEmpty && value.isPlainValue
  | _ => false

def isSpread : Node → Bool
  | interpolation spread _ _ _ => spread
  | _ => false

/-- One interpolation and nothing besides. -/
def isLone : List Node → Bool
  | [part] => part.isInterpolation
  | _ => false

end Node

namespace Evaluation

variable {undefinedAsNull : Bool} {s : Scope} {r : Evaluated}

theorem silent_of_bind {α : Type} {x : Except Failure α} {f : α → Value}
    (h : (x >>= fun a => .ok (.plain (f a))) = .ok r) : r.signals = .silent := by
  obtain ⟨a, -, hr⟩ := bind_eq_ok.1 h
  cases hr
  rfl

theorem silent_of_isPlainValue {n : Node} {role : Role} (hn : n.isPlainValue = true)
    (h : evaluate undefinedAsNull n role s = .ok r) : r.signals = .silent := by
  cases n with
  | number | bool | null | undefined | quoted =>
      cases h
      rfl
  | path | group => exact silent_of_bind h
  | comparison =>
      obtain ⟨left, -, h⟩ := bind_eq_ok.1 h
      exact silent_of_bind h
  | arithmetic =>
      obtain ⟨left, -, h⟩ := bind_eq_ok.1 h
      obtain ⟨right, -, h⟩ := bind_eq_ok.1 h
      exact silent_of_bind h
  | ternary =>
      obtain ⟨condition, -, h⟩ := bind_eq_ok.1 h
      split at h <;> exact silent_of_bind h
  | nullish =>
      rw [evaluate_nullish] at h
      unfold coalesce at h
      split at h
      · split at h
        · exact silent_of_bind h
        · cases h
          rfl
      · split at h
        · exact silent_of_bind h
        · cases h
  | _ => cases hn

theorem signals_of_isPlainPart {part : Node} (hp : part.isPlainPart = true)
    (h : evaluate undefinedAsNull part .value s = .ok r) :
    r.signals = { spread := part.isSpread } := by
  cases part with
  | text =>
      cases h
      rfl
  | interpolation spread modifiers value span =>
      obtain ⟨hm, hv⟩ := Bool.and_eq_true_iff.1 hp
      obtain rfl := List.isEmpty_iff.1 hm
      obtain ⟨inner, hinner, hr⟩ := bind_eq_ok.1 h
      cases hr
      rw [silent_of_isPlainValue hv hinner]
      rfl
  | _ => cases hp

/-- Expressions in text tell whether one of them is spread. -/
theorem absorbAll_of_isPlainPart {parts : List Node} {results : List Evaluated}
    (hp : ∀ part ∈ parts, part.isPlainPart = true)
    (h : evaluateAll undefinedAsNull parts s = .ok results) :
    absorbAll results = { spread := parts.any Node.isSpread } := by
  induction parts generalizing results with
  | nil =>
      cases h
      rfl
  | cons part rest ih =>
      obtain ⟨hpart, hrest⟩ := List.forall_mem_cons.1 hp
      obtain ⟨head, hhead, h⟩ := bind_eq_ok.1 h
      obtain ⟨tail, htail, h⟩ := bind_eq_ok.1 h
      cases h
      rw [absorbAll_cons, signals_of_isPlainPart hpart hhead, ih hrest htail]
      rfl

/-- Only an interpolation by itself keeps what it is. -/
theorem finishTemplate_mixed {parts : List Node} {results : List Evaluated} (role : Role)
    (owner : Node) (hm : Node.isLone parts = false) :
    finishTemplate undefinedAsNull role owner parts results = (do
      let text ← joinTexts (undefinedAsNull || role == .key) owner results.length 0 results
      return ⟨some (.str text), absorbAll results⟩) := by
  unfold finishTemplate
  split
  · next part only =>
      have hpart : part.isInterpolation = false := hm
      rw [hpart]
      rfl
  · rfl

/-- Text with expressions in it is text, as a key too, and is spread if one of them is. -/
theorem evaluate_mixed {parts : List Node} {span : Span}
    (hp : ∀ part ∈ parts, part.isPlainPart = true) (hm : Node.isLone parts = false)
    (h : evaluate undefinedAsNull (.template parts span) .value s = .ok r) :
    (∃ text, r = ⟨some (.str text), { spread := parts.any Node.isSpread }⟩) ∧
      evaluate undefinedAsNull (.template parts span) .key s = .ok r := by
  obtain ⟨results, hresults, h⟩ := bind_eq_ok.1 h
  rw [finishTemplate_mixed .value _ hm] at h
  obtain ⟨text, htext, h⟩ := bind_eq_ok.1 h
  cases h
  have hsignals := absorbAll_of_isPlainPart hp hresults
  -- A key tolerates what the value does, and more.
  have hkey := (tolerates_joinTexts _ _ _ 0 results).ok_of_ok htext
  refine ⟨⟨text, by rw [hsignals]⟩, ?_⟩
  rw [evaluate, hresults]
  refine (finishTemplate_mixed .key _ hm).trans ?_
  rw [show (Role.key == Role.key) = true from rfl, Bool.or_true, hkey]
  rfl

end Evaluation
end JsonTemplate
