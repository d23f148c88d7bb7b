import JsonTemplate.Proofs.Evaluation.Signals
import JsonTemplate.Proofs.Tree.Relocation

/-!
Evaluation depends on the values of names and on nothing else of a scope, and spans only
pass through it: a tree with other spans has the same value in a scope that agrees with the
first, and a failure says the same at another place.
-/

namespace JsonTemplate

namespace Scope

/-- Every name stands for the same value in both. -/
def Agrees (s s' : Scope) : Prop := ∀ name, s'.lookup name = s.lookup name

variable {s s' : Scope}

theorem lookup_bind (s : Scope) (binding : String) (v : Value) (name : String) :
    (s.bind binding v).lookup name = if binding = name then v else s.lookup name := by
  by_cases h : binding = name <;> simp [lookup, bind, h]

theorem Agrees.refl (s : Scope) : Agrees s s := fun _ => rfl

theorem Agrees.bind (h : Agrees s s') (binding : String) (v : Value) :
    Agrees (s.bind binding v) (s'.bind binding v) := by
  intro name
  rw [lookup_bind, lookup_bind, h name]

/-- A binding does what a parameter of its name would do. -/
theorem agrees_insert (parameters : Fields Json) (binding : String) (v : Json) :
    Agrees (ofParameters (parameters.insert binding v))
      ((ofParameters parameters).bind binding (some v)) := by
  intro name
  have hlookup : ∀ ps : Fields Json, (ofParameters ps).lookup name = Fields.get? ps name :=
    fun _ => rfl
  rw [lookup_bind, hlookup, hlookup, Fields.get?_insert]

end Scope

namespace Loop

def relocate (f : Span → Span) (l : Loop) : Loop :=
  { l with filter := Node.relocateFilter f l.filter }

end Loop

namespace Signals

def relocate (f : Span → Span) (s : Signals) : Signals :=
  { s with loop := s.loop.map (Loop.relocate f) }

theorem absorb_relocate (f : Span → Span) (first second : Signals) :
    (first.relocate f).absorb (second.relocate f) = (first.absorb second).relocate f := by
  simp only [absorb, relocate, Option.map_or]

end Signals

namespace Evaluated

def relocate (f : Span → Span) (e : Evaluated) : Evaluated := ⟨e.value, e.signals.relocate f⟩

/-- Only a loop holds spans. -/
theorem eq_of_relocate {f : Span → Span} {e e' : Evaluated} (h : e.relocate f = e')
    (hl : e'.signals.loop = none) : e = e' := by
  obtain ⟨v, spread, modifiers, condition, loop, comment⟩ := e
  subst h
  cases loop with
  | none => rfl
  | some loop => cases hl

end Evaluated

open Failure (transport transport_bind)

variable (f : Span → Span)

theorem Problem.failure_relocate (p : Problem) (n : Node) :
    p.failure (n.relocate f) = (p.failure n).relocate f := by
  rw [failure, failure, Node.label_relocate, Node.span_relocate, Failure.relocate_defect]

namespace VariablePath

theorem follow_relocate (span : Span) (consumed : List String) (tolerant : Bool)
    (parts : List PathPart) (v : Value) :
    follow (f span) consumed tolerant parts v
      = transport f id (follow span consumed tolerant parts v) := by
  induction parts generalizing consumed tolerant v with
  | nil => rfl
  | cons part rest ih =>
      simp only [follow]
      split
      · split
        · exact ih _ _ _
        · rw [transport, Failure.relocate_undefinedValue]
      · exact ih _ _ _

theorem resolve_relocate (p : VariablePath) (span : Span) {s s' : Scope} (h : s.Agrees s') :
    p.resolve (f span) s' = transport f id (p.resolve span s) := by
  obtain ⟨parts⟩ := p
  cases parts with
  | nil => rfl
  | cons root rest =>
      change follow _ _ _ _ (s'.lookup root.name) = _
      rw [h root.name]
      exact follow_relocate f span _ _ _ _

end VariablePath

theorem Arithmetic.evaluate_relocate (op : Arithmetic) (left right : Value) (owner : Node) :
    op.evaluate left right (owner.relocate f) = transport f id (op.evaluate left right owner) := by
  rw [evaluate, evaluate]
  split
  · rfl
  · split
    · rfl
    · rw [Problem.failure_relocate]
      rfl

theorem applyModifiers_relocate (owner : Node) (modifiers : List Modifier) (v : Value) :
    applyModifiers (owner.relocate f) modifiers v
      = transport f id (applyModifiers owner modifiers v) := by
  induction modifiers, v using applyModifiers.induct with
  | case1 v => rfl
  | case2 rest items ih => exact ih
  | case3 rest v hv =>
      rw [applyModifiers, applyModifiers, Problem.failure_relocate, transport] <;> exact hv

namespace Collected

theorem merge_relocate (owner : Node) (c : Collected) (v : Value) :
    c.merge (owner.relocate f) v = transport f id (c.merge owner v) := by
  unfold merge
  simp only [Problem.failure_relocate]
  split <;> rfl

theorem assign_relocate (owner : Node) (name : String) (c : Collected) (v : Value) :
    c.assign (owner.relocate f) name v = transport f id (c.assign owner name v) := by
  cases c with
  | items is => rw [assign, assign, Problem.failure_relocate, transport]
  | fields fs => cases v <;> rfl

end Collected

namespace Evaluation

variable (undefinedAsNull tolerated : Bool) (owner : Node)

/-! Strings -/

theorem partText_relocate (index total : Nat) (v : Value) :
    partText tolerated (owner.relocate f) index total v
      = transport f id (partText tolerated owner index total v) := by
  unfold partText
  simp only [Problem.failure_relocate]
  split
  · split <;> rfl
  all_goals rfl

theorem joinTexts_relocate (total index : Nat) (parts : List Evaluated) :
    joinTexts tolerated (owner.relocate f) total index (parts.map (Evaluated.relocate f))
      = transport f id (joinTexts tolerated owner total index parts) := by
  induction parts generalizing index with
  | nil => rfl
  | cons part rest ih =>
      apply transport_bind f (partText_relocate f tolerated owner index total part.value)
      intro head
      exact transport_bind f (ih (index + 1)) fun tail => rfl

theorem absorbAll_relocate (parts : List Evaluated) :
    absorbAll (parts.map (Evaluated.relocate f)) = (absorbAll parts).relocate f := by
  induction parts with
  | nil => rfl
  | cons part rest ih =>
      rw [List.map_cons, absorbAll_cons, absorbAll_cons, ih, ← Signals.absorb_relocate]
      rfl

theorem single?_relocate (role : Role) (only : Evaluated) :
    single? undefinedAsNull role (owner.relocate f) (only.relocate f)
      = (single? undefinedAsNull role owner only).map (transport f (Evaluated.relocate f)) := by
  obtain ⟨v, signals⟩ := only
  have hspread : (signals.relocate f).spread = signals.spread := rfl
  unfold single?
  simp only [Evaluated.relocate, hspread]
  split
  · cases role with
    | key => rfl
    | value =>
        refine congrArg some (transport_bind f (applyModifiers_relocate f owner _ v) fun v => rfl)
  · cases role with
    | key => rfl
    | value =>
        split
        · next h => cases h
        · split <;> rfl
        all_goals rfl

theorem finishTemplate_relocate (role : Role) (parts : List Node) (results : List Evaluated) :
    finishTemplate undefinedAsNull role (owner.relocate f) (Node.relocateAll f parts)
        (results.map (Evaluated.relocate f))
      = transport f (Evaluated.relocate f)
          (finishTemplate undefinedAsNull role owner parts results) := by
  have hjoined : (do
        let text ← joinTexts (undefinedAsNull || role == .key) (owner.relocate f)
          (results.map (Evaluated.relocate f)).length 0 (results.map (Evaluated.relocate f))
        return (⟨some (.str text), absorbAll (results.map (Evaluated.relocate f))⟩ : Evaluated))
      = transport f (Evaluated.relocate f) (do
        let text ← joinTexts (undefinedAsNull || role == .key) owner results.length 0 results
        return ⟨some (.str text), absorbAll results⟩) := by
    rw [List.length_map, absorbAll_relocate]
    exact transport_bind f (joinTexts_relocate f _ owner _ 0 results) fun text => rfl
  match parts, results with
  | [part], [only] =>
      change (if (part.relocate f).isInterpolation = true then _ else _) = _
      rw [Node.isInterpolation_relocate, single?_relocate, finishTemplate]
      split
      · exact (congrArg _ hjoined).trans (Option.getD_map ..)
      · exact hjoined
  | [], _ | _ :: _ :: _, _ | [_], [] | [_], _ :: _ :: _ => exact hjoined

/-! Containers -/

theorem itemsOf_relocate (item : Evaluated) :
    itemsOf (owner.relocate f) (item.relocate f) = transport f id (itemsOf owner item) := by
  obtain ⟨v, signals⟩ := item
  have hspread : (signals.relocate f).spread = signals.spread := rfl
  unfold itemsOf
  simp only [Evaluated.relocate, hspread, Problem.failure_relocate]
  split
  · split <;> rfl
  · rfl

theorem collect_relocate {admits admits' : Value → Except Failure Bool}
    {body body' : Value → Except Failure Json} (items : List Value)
    (ha : ∀ v, admits' v = transport f id (admits v))
    (hb : ∀ v, body' v = transport f id (body v)) :
    collect admits' body' items = transport f id (collect admits body items) := by
  induction items with
  | nil => rfl
  | cons item rest ih =>
      apply transport_bind f (ha item)
      intro admitted
      cases admitted with
      | false => exact ih
      | true => exact transport_bind f (hb item) fun value => transport_bind f ih fun values => rfl

/-- What a body brings to a list; a missing value is null. -/
theorem bodyOf_relocate {r r' : Except Failure Evaluated}
    (h : r' = transport f (Evaluated.relocate f) r) :
    (do
        let result ← r'
        return result.value.getD Json.null)
      = transport f id (do
        let result ← r
        return result.value.getD Json.null) :=
  transport_bind f h fun _ => rfl

mutual

theorem carriesLoop_relocate : (n : Node) → carriesLoop (n.relocate f) = carriesLoop n
  | .each _ _ _ _ => rfl
  | .interpolation _ _ value _ => carriesLoop_relocate value
  | .template parts _ => anyCarriesLoop_relocate parts
  | .number _ _ | .bool _ _ | .null _ | .undefined _ | .quoted _ _ | .text _ _ | .path _ _
  | .comparison _ _ _ _ | .arithmetic _ _ _ _ | .ternary _ _ _ _ | .nullish _ _ _ | .group _ _
  | .comment _ _ | .onlyIf _ _ | .elseIf _ _ | .otherwise _ | .array _ _ | .object _ _ => rfl

theorem anyCarriesLoop_relocate : (parts : List Node) →
    anyCarriesLoop (Node.relocateAll f parts) = anyCarriesLoop parts
  | [] => rfl
  | part :: rest => by
      rw [Node.relocateAll, anyCarriesLoop, anyCarriesLoop, carriesLoop_relocate part,
        anyCarriesLoop_relocate rest]

end

/-! Nodes -/

mutual

theorem evaluate_relocate : (n : Node) → (role : Role) → {s s' : Scope} → s.Agrees s' →
    evaluate undefinedAsNull (n.relocate f) role s'
      = transport f (Evaluated.relocate f) (evaluate undefinedAsNull n role s)
  | .number _ _, _, _, _, _ | .bool _ _, _, _, _, _ | .null _, _, _, _, _ | .undefined _, _, _, _, _
  | .quoted _ _, _, _, _, _ | .text _ _, _, _, _, _ | .comment _ _, _, _, _, _
  | .otherwise _, _, _, _, _ => rfl
  | .path p span, _, _, _, h =>
      transport_bind f (p.resolve_relocate f span h) fun v => rfl
  | .comparison op left right _, _, _, _, h =>
      transport_bind f (evaluate_relocate left .value h) fun a =>
        transport_bind f (evaluate_relocate right .value h) fun b => rfl
  | .arithmetic op left right span, _, _, _, h =>
      transport_bind f (evaluate_relocate left .value h) fun a =>
        transport_bind f (evaluate_relocate right .value h) fun b =>
          transport_bind f (op.evaluate_relocate f a.value b.value (.arithmetic op left right span))
            fun v => rfl
  | .ternary condition yes no _, _, s, s', h => by
      apply transport_bind f (evaluate_relocate condition .value h)
      intro c
      have hc : (c.relocate f).value = c.value := rfl
      rw [hc]
      split
      · exact transport_bind f (evaluate_relocate yes .value h) fun v => rfl
      · exact transport_bind f (evaluate_relocate no .value h) fun v => rfl
  | .nullish left right _, _, s, s', h => by
      have hleft := evaluate_relocate left .value h
      have hright : (do
            let v ← evaluate undefinedAsNull (right.relocate f) .value s'
            return Evaluated.plain v.value)
          = transport f (Evaluated.relocate f) (do
            let v ← evaluate undefinedAsNull right .value s
            return Evaluated.plain v.value) :=
        transport_bind f (evaluate_relocate right .value h) fun v => rfl
      simp only [Node.relocate, evaluate, hleft, hright]
      cases evaluate undefinedAsNull left .value s with
      | ok v =>
          have hv : (v.relocate f).value = v.value := rfl
          simp only [transport, hv]
          split <;> rfl
      | error x =>
          have hx := Failure.isUndefinedValue_relocate f x
          cases hu : x.isUndefinedValue <;> simp [transport, hx, hu]
  | .group inner _, _, _, _, h =>
      transport_bind f (evaluate_relocate inner .value h) fun v => rfl
  | .onlyIf guard _, _, _, _, h | .elseIf guard _, _, _, _, h =>
      transport_bind f (evaluate_relocate guard .value h) fun v => rfl
  | .each source binding filter span, _, s, s', h => by
      apply transport_bind f (source.resolve_relocate f span h)
      intro v
      cases v with
      | none => rfl
      | some v => cases v <;> rfl
  | .array items span, _, _, _, h =>
      transport_bind f (evaluateItems_relocate (.array items span) items h) fun v => rfl
  | .object entries span, _, _, _, h =>
      evaluateEntries_relocate (.object entries span) entries (.fields []) h
  | .template parts span, role, _, _, h =>
      transport_bind f (evaluateAll_relocate parts h) fun results =>
        finishTemplate_relocate f undefinedAsNull (.template parts span) role parts results
  | .interpolation spread modifiers value _, _, _, _, h =>
      transport_bind f (evaluate_relocate value .value h) fun inner => rfl

theorem evaluateAll_relocate : (nodes : List Node) → {s s' : Scope} → s.Agrees s' →
    evaluateAll undefinedAsNull (Node.relocateAll f nodes) s'
      = transport f (List.map (Evaluated.relocate f)) (evaluateAll undefinedAsNull nodes s)
  | [], _, _, _ => rfl
  | n :: rest, _, _, h =>
      transport_bind f (evaluate_relocate n .value h) fun _ =>
        transport_bind f (evaluateAll_relocate rest h) fun _ => rfl

theorem evaluateItems_relocate (owner : Node) : (nodes : List Node) → {s s' : Scope} →
    s.Agrees s' →
    evaluateItems undefinedAsNull (owner.relocate f) (Node.relocateAll f nodes) s'
      = transport f id (evaluateItems undefinedAsNull owner nodes s)
  | [], _, _, _ => rfl
  | n :: rest, _, _, h =>
      transport_bind f (evaluate_relocate n .value h) fun head =>
        transport_bind f (itemsOf_relocate f owner head) fun _ =>
          transport_bind f (evaluateItems_relocate owner rest h) fun _ => rfl

theorem evaluateEntries_relocate (owner : Node) : (entries : List Entry) →
    (collected : Collected) → {s s' : Scope} → s.Agrees s' →
    evaluateEntries undefinedAsNull (owner.relocate f) (Node.relocateEntries f entries) collected s'
      = transport f (Evaluated.relocate f) (evaluateEntries undefinedAsNull owner entries collected s)
  | [], _, _, _, _ => rfl
  | .mk key value span :: rest, collected, s, s', h => by
      apply transport_bind f (evaluate_relocate key .key h)
      intro name
      obtain ⟨name, spread, modifiers, condition, loop, comment⟩ := name
      have hvalue := evaluate_relocate value .value h
      have hmodified : ∀ v, applyModifiers (owner.relocate f) modifiers v
          = transport f id (applyModifiers owner modifiers v) :=
        applyModifiers_relocate f owner modifiers
      cases condition with
      | some condition =>
          cases condition with
          | true => exact transport_bind f hvalue fun v => rfl
          | false => exact evaluateEntries_relocate owner rest collected h
      | none =>
          cases loop with
          | some loop =>
              have hbind := fun v => h.bind loop.binding v
              have hcollect := collect_relocate f loop.items
                (fun v => admits_relocate key (hbind v))
                (fun v => bodyOf_relocate f (evaluate_relocate value .value (hbind v)))
              exact transport_bind f hcollect fun values =>
                transport_bind f (hmodified _) fun result => rfl
          | none =>
              apply transport_bind f hvalue
              intro plain
              apply transport_bind f (hmodified plain.value)
              intro result
              cases spread with
              | true =>
                  cases comment with
                  | true =>
                      exact transport_bind f (collected.merge_relocate f owner result) fun collected =>
                        evaluateEntries_relocate owner rest collected h
                  | false => rfl
              | false =>
                  exact transport_bind f (collected.assign_relocate f owner _ result) fun collected =>
                    evaluateEntries_relocate owner rest collected h

theorem admits_relocate : (n : Node) → {s s' : Scope} → s.Agrees s' →
    admits undefinedAsNull (n.relocate f) s' = transport f id (admits undefinedAsNull n s)
  | .each _ _ filter _, _, _, h => admitsFilter_relocate filter h
  | .interpolation _ _ value _, _, _, h => admits_relocate value h
  | .template parts _, _, _, h => admitsParts_relocate parts h
  | .number _ _, _, _, _ | .bool _ _, _, _, _ | .null _, _, _, _ | .undefined _, _, _, _
  | .quoted _ _, _, _, _ | .text _ _, _, _, _ | .path _ _, _, _, _ | .comparison _ _ _ _, _, _, _
  | .arithmetic _ _ _ _, _, _, _ | .ternary _ _ _ _, _, _, _ | .nullish _ _ _, _, _, _
  | .group _ _, _, _, _ | .comment _ _, _, _, _ | .onlyIf _ _, _, _, _ | .elseIf _ _, _, _, _
  | .otherwise _, _, _, _ | .array _ _, _, _, _ | .object _ _, _, _, _ => rfl

theorem admitsFilter_relocate : (filter : Option Node) → {s s' : Scope} → s.Agrees s' →
    admitsFilter undefinedAsNull (Node.relocateFilter f filter) s'
      = transport f id (admitsFilter undefinedAsNull filter s)
  | none, _, _, _ => rfl
  | some n, _, _, h => transport_bind f (evaluate_relocate n .value h) fun _ => rfl

theorem admitsParts_relocate : (parts : List Node) → {s s' : Scope} → s.Agrees s' →
    admitsParts undefinedAsNull (Node.relocateAll f parts) s'
      = transport f id (admitsParts undefinedAsNull parts s)
  | [], _, _, _ => rfl
  | part :: rest, _, _, h => by
      rw [Node.relocateAll, admitsParts, admitsParts, anyCarriesLoop_relocate]
      split
      · exact admitsParts_relocate rest h
      · exact admits_relocate part h

end

/-- A tree comes to what it comes to without its spans, unless it asks for a loop. -/
theorem evaluate_of_bare {n : Node} {role : Role} {s : Scope} {r : Evaluated}
    (h : evaluate undefinedAsNull n.bare role s = .ok r) (hl : r.signals.loop = none) :
    evaluate undefinedAsNull n role s = .ok r := by
  rw [Node.bare, evaluate_relocate _ _ n role (.refl s)] at h
  obtain ⟨r', hr, h⟩ := Failure.transport_eq_ok.1 h
  rw [hr, Evaluated.eq_of_relocate h.symm hl]

/-! One scope for another -/

/-- The value of a tree; a missing one is null. -/
def valueIn (n : Node) (s : Scope) : Except Failure Json := do
  let result ← evaluate undefinedAsNull n .value s
  return result.value.getD .null

theorem valueIn_relocate (n : Node) {s s' : Scope} (h : s.Agrees s') :
    valueIn undefinedAsNull (n.relocate f) s' = transport f id (valueIn undefinedAsNull n s) :=
  bodyOf_relocate f (evaluate_relocate f undefinedAsNull n .value h)

theorem valueIn_agrees (n : Node) {s s' : Scope} (h : s.Agrees s') :
    (valueIn undefinedAsNull n s').mapError Failure.describe
      = (valueIn undefinedAsNull n s).mapError Failure.describe := by
  let f : Span → Span := fun _ => .empty 0
  have hfirst := valueIn_relocate f undefinedAsNull n (.refl s')
  rw [valueIn_relocate f undefinedAsNull n h] at hfirst
  exact Failure.mapError_of_transport hfirst.symm

theorem admitsFilter_agrees (filter : Option Node) {s s' : Scope} (h : s.Agrees s') :
    (admitsFilter undefinedAsNull filter s').mapError Failure.describe
      = (admitsFilter undefinedAsNull filter s).mapError Failure.describe := by
  let f : Span → Span := fun _ => .empty 0
  have hfirst := admitsFilter_relocate f undefinedAsNull filter (.refl s')
  rw [admitsFilter_relocate f undefinedAsNull filter h] at hfirst
  exact Failure.mapError_of_transport hfirst.symm

end Evaluation
end JsonTemplate
