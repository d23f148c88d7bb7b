import JsonTemplate.Proofs.Evaluation.Control
import JsonTemplate.Proofs.Evaluation.MixedText

/-!
The filters of loops. Whether a key is a loop can be read off its syntax, and so can the filter
that the loop comes with when the key is evaluated: of several loops in a key the last is the one
that runs. So an entry that is a loop collects the items which that filter admits.
-/

namespace JsonTemplate
namespace Evaluation

variable {undefinedAsNull : Bool} {s : Scope} {owner : Node} {r : Evaluated}

/-- What syntax says of a loop agrees with the loop, if any, that it has come to. Which of several
loops decides over the items depends on whether a later part carries one. -/
structure Foretells (undefinedAsNull carries : Bool) (admitted : Scope → Except Failure Bool)
    (loop : Option Loop) : Prop where
  carries : loop.isSome = carries
  admits : ∀ l ∈ loop, ∀ s, admitted s = admitsFilter undefinedAsNull l.filter s

theorem foretells_none (admitted : Scope → Except Failure Bool) :
    Foretells undefinedAsNull false admitted none where
  carries := rfl
  admits := nofun

/-- Of two loops the later one runs. -/
theorem Foretells.or {carries carries' : Bool} {admitted admitted' : Scope → Except Failure Bool}
    {loop loop' : Option Loop} (h : Foretells undefinedAsNull carries admitted loop)
    (h' : Foretells undefinedAsNull carries' admitted' loop') :
    Foretells undefinedAsNull (carries || carries')
      (fun s => if carries' then admitted' s else admitted s) (loop'.or loop) := by
  obtain ⟨rfl, hadmits⟩ := h
  obtain ⟨rfl, hadmits'⟩ := h'
  cases loop' with
  | none => exact ⟨(Bool.or_false _).symm, hadmits⟩
  | some l => exact ⟨(Bool.or_true _).symm, hadmits'⟩

/-- An object asks for no loop, whatever its keys ask for. -/
theorem loop_of_evaluateEntries {entries : List Entry} {collected : Collected}
    (h : evaluateEntries undefinedAsNull owner entries collected s = .ok r) :
    r.signals.loop = none := by
  induction entries generalizing collected with
  | nil =>
      cases h
      rfl
  | cons e rest ih =>
      rw [evaluateEntries_cons] at h
      obtain ⟨found, hfound, h⟩ := bind_eq_ok.1 h
      cases found with
      | nothing => exact ih h
      | result result =>
          cases h
          obtain ⟨name, -, -, hsignals⟩ := result_of_effect hfound
          rw [hsignals]
      | adds c =>
          obtain ⟨next, -, h⟩ := bind_eq_ok.1 h
          exact ih h

mutual

/-- Syntax foretells the loop that a node comes to. -/
theorem foretells_of_evaluate (n : Node) {role : Role} {s : Scope} {r : Evaluated}
    (h : evaluate undefinedAsNull n role s = .ok r) :
    Foretells undefinedAsNull (carriesLoop n) (admits undefinedAsNull n) r.signals.loop := by
  cases n with
  | each source binding filter span =>
      obtain ⟨items, -, h⟩ := bind_eq_ok.1 h
      cases h
      exact ⟨rfl, fun l hl s => by cases hl; rfl⟩
  | interpolation spread modifiers value span =>
      obtain ⟨inner, hinner, h⟩ := bind_eq_ok.1 h
      cases h
      have hvalue := foretells_of_evaluate value hinner
      exact ⟨hvalue.carries, hvalue.admits⟩
  | template parts span =>
      obtain ⟨results, hresults, h⟩ := bind_eq_ok.1 h
      have hloop : r.signals.loop = (absorbAll results).loop := by
        obtain hsignals | ⟨-, hsignals⟩ := signals_of_finishTemplate h <;> rw [hsignals]
      rw [hloop]
      exact foretells_of_evaluateAll parts hresults
  | object entries span =>
      rw [loop_of_evaluateEntries h]
      exact foretells_none _
  | text | comment | otherwise =>
      cases h
      exact foretells_none _
  | onlyIf | elseIf | array =>
      obtain ⟨result, -, h⟩ := bind_eq_ok.1 h
      cases h
      exact foretells_none _
  | _ =>
      rw [silent_of_isPlainValue rfl h]
      exact foretells_none _

theorem foretells_of_evaluateAll (parts : List Node) {s : Scope} {results : List Evaluated}
    (h : evaluateAll undefinedAsNull parts s = .ok results) :
    Foretells undefinedAsNull (anyCarriesLoop parts) (admitsParts undefinedAsNull parts)
      (absorbAll results).loop := by
  cases parts with
  | nil =>
      cases h
      exact foretells_none _
  | cons part rest =>
      obtain ⟨head, hhead, h⟩ := bind_eq_ok.1 h
      obtain ⟨tail, htail, h⟩ := bind_eq_ok.1 h
      cases h
      rw [absorbAll_cons]
      exact (foretells_of_evaluate part hhead).or (foretells_of_evaluateAll rest htail)

end

/-- A key that comes to a loop admits the items that the filter of the loop admits. -/
theorem admits_of_loop {key : Node} {role : Role} {loop : Loop}
    (h : evaluate undefinedAsNull key role s = .ok r) (hl : r.signals.loop = some loop)
    (s' : Scope) : admits undefinedAsNull key s' = admitsFilter undefinedAsNull loop.filter s' :=
  (foretells_of_evaluate key h).admits loop hl s'

/-- An entry that is a loop is the list of what its value comes to, for one item after another
that the filter of the loop admits. -/
theorem effect_of_loop {e : Entry} {name : Evaluated} {loop : Loop} (owner : Node)
    (hname : evaluate undefinedAsNull e.key .key s = .ok name)
    (hc : name.signals.condition = none) (hl : name.signals.loop = some loop) :
    effect undefinedAsNull owner s e = (do
      let values ←
        collect (fun item => admitsFilter undefinedAsNull loop.filter (s.bind loop.binding item))
          (fun item => do
            let result ← evaluate undefinedAsNull e.value .value (s.bind loop.binding item)
            return result.value.getD .null)
          loop.items
      return .result ⟨some (.arr (Nat.repeat flattenOnce name.signals.modifiers.length values)),
        { spread := name.signals.spread }⟩) := by
  rw [effect_of_key owner hname, effectOf, hc, hl]
  simp only [admits_of_loop hname hl, applyModifiers_list]
  rfl

end Evaluation
end JsonTemplate
