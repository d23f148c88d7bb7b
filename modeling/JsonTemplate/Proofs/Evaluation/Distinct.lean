import JsonTemplate.Proofs.Document.Fields
import JsonTemplate.Proofs.Evaluation.Signals

/-!
No rendering makes a name occur twice. If no object among the values in scope names a field
twice, neither does any object that a tree comes to.
-/

namespace JsonTemplate

namespace Json

theorem distinctFields_iff {fields : Fields Json} :
    DistinctFields fields ↔ ∀ field ∈ fields, field.2.Distinct := by
  induction fields with
  | nil => exact ⟨nofun, fun _ => trivial⟩
  | cons field rest ih => rw [DistinctFields, List.forall_mem_cons, ih]

theorem distinct_of_get? {fields : Fields Json} {name : String} {v : Json}
    (h : (obj fields).Distinct) (hv : fields.get? name = some v) : v.Distinct :=
  distinctFields_iff.1 h.2 _ (Fields.mem_of_get? hv)

theorem distinct_erase {fields : Fields Json} (h : (obj fields).Distinct) (name : String) :
    (obj (fields.erase name)).Distinct := by
  refine ⟨Fields.nodup_names_erase h.1 name, distinctFields_iff.2 fun field hf => ?_⟩
  have hmem := (Fields.erase_perm h.1 name).mem_iff.1 hf
  exact distinctFields_iff.1 h.2 field (List.mem_of_mem_filter hmem)

theorem distinct_insertAll {fields new : Fields Json} (h : (obj fields).Distinct)
    (hn : (obj new).Distinct) : (obj (fields.insertAll new)).Distinct := by
  have hnew := distinctFields_iff.1 hn.2
  clear hn
  induction new generalizing fields with
  | nil => exact h
  | cons field rest ih =>
      obtain ⟨hfield, hrest⟩ := List.forall_mem_cons.1 hnew
      exact ih (distinct_insert h hfield field.1) hrest

theorem distinctItems_append {items more : List Json} (h : DistinctItems items)
    (hm : DistinctItems more) : DistinctItems (items ++ more) :=
  distinctItems_iff.2 (List.forall_mem_append.2 ⟨distinctItems_iff.1 h, distinctItems_iff.1 hm⟩)

theorem distinctItems_flattenOnce {items : List Json} (h : DistinctItems items) :
    DistinctItems (flattenOnce items) := by
  rw [distinctItems_iff] at h ⊢
  intro v hv
  obtain ⟨item, hitem, hmem⟩ := List.mem_flatMap.1 hv
  cases item with
  | arr inner => exact distinctItems_iff.1 (h _ hitem) v hmem
  | _ =>
      obtain rfl := List.mem_singleton.1 hmem
      exact h _ hitem

end Json

/-! Values in scope -/

def Value.Distinct : Value → Prop
  | none => True
  | some v => v.Distinct

theorem Value.distinct_getD {v : Value} (h : v.Distinct) : (v.getD .null).Distinct := by
  cases v with
  | none => trivial
  | some v => exact h

structure Scope.Distinct (s : Scope) : Prop where
  parameters : (Json.obj s.parameters).Distinct
  bindings : ∀ binding ∈ s.bindings, binding.2.Distinct

namespace Scope.Distinct

variable {s : Scope}

theorem lookup (h : s.Distinct) (name : String) : (s.lookup name).Distinct := by
  unfold Scope.lookup
  split
  · next binding hfind => exact h.bindings binding (List.mem_of_find?_eq_some hfind)
  · cases hv : Fields.get? s.parameters name with
    | none => trivial
    | some v => exact Json.distinct_of_get? h.parameters hv

theorem bind (h : s.Distinct) (name : String) {v : Value} (hv : v.Distinct) :
    (s.bind name v).Distinct :=
  ⟨h.parameters, List.forall_mem_cons.2 ⟨hv, h.bindings⟩⟩

end Scope.Distinct

/-- A value without doubled names, and a loop over such values if it asks for one. -/
structure Evaluated.Distinct (r : Evaluated) : Prop where
  value : r.value.Distinct
  items : ∀ loop ∈ r.signals.loop, ∀ item ∈ loop.items, item.Distinct

theorem Evaluated.distinct_plain {v : Value} (h : v.Distinct) : (Evaluated.plain v).Distinct :=
  ⟨h, nofun⟩

theorem Evaluated.distinct_spreading (spread : Bool) {v : Value} (h : v.Distinct) :
    (Evaluated.spreading spread v).Distinct :=
  ⟨h, nofun⟩

def Collected.Distinct (c : Collected) : Prop := c.toJson.Distinct

/-- What comes of it, if anything does, has the property. -/
def Gives {α : Type} (P : α → Prop) (r : Except Failure α) : Prop := ∀ a, r = .ok a → P a

section Gives

variable {α β : Type} {P : α → Prop} {Q : β → Prop}

theorem gives_ok {a : α} (h : P a) : Gives P (.ok a) := by
  intro b hb
  cases hb
  exact h

theorem gives_error (x : Failure) : Gives P (.error x) := nofun

theorem gives_bind {r : Except Failure α} {next : α → Except Failure β} (h : Gives P r)
    (hn : ∀ a, P a → Gives Q (next a)) : Gives Q (r >>= next) := by
  intro b hb
  cases r with
  | error x => cases hb
  | ok a => exact hn a (h a rfl) b hb

/-- Nothing need be known of what comes first. -/
theorem gives_any (r : Except Failure α) : Gives (fun _ => True) r := fun _ _ => trivial

end Gives

theorem Json.distinct_read? {v : Json} (h : v.Distinct) (key : String) :
    (v.read? key).Distinct := by
  cases v with
  | obj fields =>
      cases hv : Fields.get? fields key with
      | none =>
          rw [read?, hv]
          trivial
      | some w =>
          rw [read?, hv]
          exact distinct_of_get? h hv
  | arr items =>
      rw [read?]
      cases hi : position? key with
      | none => trivial
      | some i =>
          rw [Option.bind_some]
          cases hv : items[i]? with
          | none => trivial
          | some w => exact distinctItems_iff.1 h w (List.mem_of_getElem? hv)
  | null | bool _ | num _ | str _ => trivial

namespace VariablePath

theorem gives_follow (span : Span) (consumed : List String) (tolerant : Bool)
    (parts : List PathPart) {v : Value} (h : v.Distinct) :
    Gives Value.Distinct (follow span consumed tolerant parts v) := by
  induction parts generalizing consumed tolerant v with
  | nil => exact gives_ok h
  | cons part rest ih =>
      rw [follow]
      split
      · split
        · exact ih _ _ trivial
        · exact gives_error _
      · refine ih _ _ ?_
        cases v with
        | none => trivial
        | some v => exact Json.distinct_read? h part.name

theorem gives_resolve (p : VariablePath) (span : Span) {s : Scope} (h : s.Distinct) :
    Gives Value.Distinct (p.resolve span s) := by
  obtain ⟨parts⟩ := p
  cases parts with
  | nil => exact gives_ok trivial
  | cons root rest => exact gives_follow span _ _ rest (h.lookup root.name)

end VariablePath

theorem gives_applyModifiers (owner : Node) (modifiers : List Modifier) {v : Value}
    (h : v.Distinct) : Gives Value.Distinct (applyModifiers owner modifiers v) := by
  induction modifiers, v using applyModifiers.induct with
  | case1 v => exact gives_ok h
  | case2 rest items ih => exact ih (Json.distinctItems_flattenOnce h)
  | case3 rest v hv =>
      rw [applyModifiers]
      · exact gives_error _
      · exact hv

namespace Collected

theorem gives_merge (owner : Node) {c : Collected} {v : Value} (hc : c.Distinct)
    (hv : v.Distinct) : Gives Distinct (c.merge owner v) := by
  unfold merge
  split
  · exact gives_ok hc
  · exact gives_ok hc
  · exact gives_ok hv
  · exact gives_error _
  · exact gives_ok (Json.distinctItems_append hc hv)
  · exact gives_ok (Json.distinct_insertAll hc hv)
  · exact gives_error _
  · exact gives_error _

theorem gives_assign (owner : Node) (name : String) {c : Collected} {v : Value} (hc : c.Distinct)
    (hv : v.Distinct) : Gives Distinct (c.assign owner name v) := by
  cases c with
  | items is => exact gives_error _
  | fields fs =>
      cases v with
      | none => exact gives_ok (Json.distinct_erase hc name)
      | some v => exact gives_ok (Json.distinct_insert hc hv name)

end Collected

namespace Evaluation

/-! Strings -/

theorem distinct_absorbAll {parts : List Evaluated} (h : ∀ part ∈ parts, part.Distinct) :
    ∀ loop ∈ (absorbAll parts).loop, ∀ item ∈ loop.items, item.Distinct := by
  induction parts with
  | nil => nofun
  | cons part rest ih =>
      obtain ⟨hpart, hrest⟩ := List.forall_mem_cons.1 h
      intro loop hloop
      rw [absorbAll_cons] at hloop
      obtain hlater | ⟨-, hfirst⟩ := Option.or_eq_some_iff.1 hloop
      · exact ih hrest loop hlater
      · exact hpart.items loop hfirst

variable (undefinedAsNull : Bool) (owner : Node)

theorem gives_single? (role : Role) {only : Evaluated} (h : only.Distinct) :
    ∀ r ∈ single? undefinedAsNull role owner only, Gives Evaluated.Distinct r := by
  intro r hr
  unfold single? at hr
  split at hr
  · cases role with
    | key =>
        cases hr
        exact gives_ok h
    | value =>
        cases hr
        exact gives_bind (gives_applyModifiers owner _ h.value) fun v hv => gives_ok ⟨hv, h.items⟩
  · split at hr
    · cases hr
    · split at hr <;> cases hr
      exact gives_ok ⟨trivial, h.items⟩
    · cases hr
    · cases hr
    · cases hr
      exact gives_ok h

theorem gives_finishTemplate (role : Role) (parts : List Node) {results : List Evaluated}
    (h : ∀ r ∈ results, r.Distinct) :
    Gives Evaluated.Distinct (finishTemplate undefinedAsNull role owner parts results) := by
  have hjoined : Gives Evaluated.Distinct (do
      let text ← joinTexts (undefinedAsNull || role == .key) owner results.length 0 results
      return (⟨some (.str text), absorbAll results⟩ : Evaluated)) :=
    gives_bind (gives_any _) fun text _ => gives_ok ⟨trivial, distinct_absorbAll h⟩
  unfold finishTemplate
  split
  · next part only =>
      split
      · cases hs : single? undefinedAsNull role owner only with
        | none => exact hjoined
        | some r =>
            have honly := h only List.mem_cons_self
            exact gives_single? undefinedAsNull owner role honly r hs
      · exact hjoined
  · exact hjoined

/-! Containers -/

theorem gives_itemsOf {item : Evaluated} (h : item.Distinct) :
    Gives Json.DistinctItems (itemsOf owner item) := by
  unfold itemsOf
  split
  · split
    · next items hitems =>
        have hvalue := h.value
        rw [hitems] at hvalue
        exact gives_ok hvalue
    · exact gives_error _
  · exact gives_ok ⟨Value.distinct_getD h.value, trivial⟩

/-- A loop over what is no array has that value as its only item. -/
theorem distinct_loopItems {v : Value} (h : v.Distinct) :
    ∀ item ∈ (match v with
      | some (.arr items) => items.map some
      | other => [other]), Value.Distinct item := by
  split
  · exact List.forall_mem_map.2 (Json.distinctItems_iff.1 h)
  · exact List.forall_mem_singleton.2 h

theorem gives_collect (admits : Value → Except Failure Bool) {body : Value → Except Failure Json}
    {items : List Value} (hi : ∀ item ∈ items, item.Distinct)
    (hb : ∀ v : Value, v.Distinct → Gives Json.Distinct (body v)) :
    Gives Json.DistinctItems (collect admits body items) := by
  induction items with
  | nil => exact gives_ok trivial
  | cons item rest ih =>
      obtain ⟨hitem, hrest⟩ := List.forall_mem_cons.1 hi
      refine gives_bind (gives_any _) fun admitted _ => ?_
      cases admitted with
      | false => exact ih hrest
      | true =>
          exact gives_bind (hb item hitem) fun value hvalue =>
            gives_bind (ih hrest) fun values hvalues => gives_ok ⟨hvalue, hvalues⟩

/-! Nodes -/

mutual

theorem gives_evaluate : (n : Node) → (role : Role) → {s : Scope} → s.Distinct →
    Gives Evaluated.Distinct (evaluate undefinedAsNull n role s)
  | .number _ _, _, _, _ | .bool _ _, _, _, _ | .null _, _, _, _ | .undefined _, _, _, _
  | .quoted _ _, _, _, _ | .text _ _, _, _, _ => gives_ok ⟨trivial, nofun⟩
  | .comment _ _, _, _, _ | .otherwise _, _, _, _ => gives_ok ⟨trivial, nofun⟩
  | .path p span, _, _, h =>
      gives_bind (p.gives_resolve span h) fun v hv => gives_ok (Evaluated.distinct_plain hv)
  | .comparison op left right _, _, _, h =>
      gives_bind (gives_any _) fun a _ => gives_bind (gives_any _) fun b _ =>
        gives_ok (Evaluated.distinct_plain trivial)
  | .arithmetic op left right span, _, _, h => by
      refine gives_bind (gives_any _) fun a _ => gives_bind (gives_any _) fun b _ => ?_
      refine gives_bind (P := Value.Distinct) ?_ fun v hv => gives_ok (Evaluated.distinct_plain hv)
      rw [Arithmetic.evaluate]
      split
      · exact gives_ok trivial
      · split
        · exact gives_ok trivial
        · exact gives_error _
  | .ternary condition yes no _, _, _, h => by
      refine gives_bind (gives_any _) fun c _ => ?_
      split
      · exact gives_bind (gives_evaluate yes .value h) fun v hv =>
          gives_ok (Evaluated.distinct_plain hv.value)
      · exact gives_bind (gives_evaluate no .value h) fun v hv =>
          gives_ok (Evaluated.distinct_plain hv.value)
  | .nullish left right _, _, s, h => by
      have hleft := gives_evaluate left .value h
      have hright : Gives Evaluated.Distinct (do
          return .plain (← evaluate undefinedAsNull right .value s).value) :=
        gives_bind (gives_evaluate right .value h) fun v hv =>
          gives_ok (Evaluated.distinct_plain hv.value)
      rw [evaluate]
      split
      · next result hresult =>
          split
          · exact hright
          · exact gives_ok (Evaluated.distinct_plain (hleft result hresult).value)
      · split
        · exact hright
        · exact gives_error _
  | .group inner _, _, _, h =>
      gives_bind (gives_evaluate inner .value h) fun v hv =>
        gives_ok (Evaluated.distinct_plain hv.value)
  | .onlyIf guard _, _, _, h | .elseIf guard _, _, _, h =>
      gives_bind (gives_any _) fun v _ => gives_ok ⟨trivial, nofun⟩
  | .each source binding filter span, _, _, h => by
      refine gives_bind (source.gives_resolve span h) fun v hv => gives_ok ⟨trivial, ?_⟩
      intro loop hloop
      cases hloop
      exact distinct_loopItems hv
  | .array items span, _, _, h =>
      gives_bind (gives_evaluateItems (.array items span) items h) fun values hvalues =>
        gives_ok (Evaluated.distinct_plain hvalues)
  | .object entries span, _, _, h =>
      have hnone : (Collected.fields []).Distinct := ⟨.nil, trivial⟩
      gives_evaluateEntries (.object entries span) entries hnone h
  | .template parts span, role, _, h =>
      gives_bind (gives_evaluateAll parts h) fun results hresults =>
        gives_finishTemplate undefinedAsNull (.template parts span) role parts hresults
  | .interpolation _ _ value _, _, _, h =>
      gives_bind (gives_evaluate value .value h) fun inner hinner =>
        gives_ok ⟨hinner.value, hinner.items⟩

theorem gives_evaluateAll : (nodes : List Node) → {s : Scope} → s.Distinct →
    Gives (fun results => ∀ r ∈ results, r.Distinct) (evaluateAll undefinedAsNull nodes s)
  | [], _, _ => gives_ok nofun
  | n :: rest, _, h =>
      gives_bind (gives_evaluate n .value h) fun _ hhead =>
        gives_bind (gives_evaluateAll rest h) fun _ htail =>
          gives_ok (List.forall_mem_cons.2 ⟨hhead, htail⟩)

theorem gives_evaluateItems (owner : Node) : (nodes : List Node) → {s : Scope} → s.Distinct →
    Gives Json.DistinctItems (evaluateItems undefinedAsNull owner nodes s)
  | [], _, _ => gives_ok trivial
  | n :: rest, _, h =>
      gives_bind (gives_evaluate n .value h) fun _ hresult =>
        gives_bind (gives_itemsOf owner hresult) fun _ hhead =>
          gives_bind (gives_evaluateItems owner rest h) fun _ htail =>
            gives_ok (Json.distinctItems_append hhead htail)

theorem gives_evaluateEntries (owner : Node) : (entries : List Entry) → {collected : Collected} →
    collected.Distinct → {s : Scope} → s.Distinct →
    Gives Evaluated.Distinct (evaluateEntries undefinedAsNull owner entries collected s)
  | [], _, hc, _, _ => gives_ok (Evaluated.distinct_plain hc)
  | .mk key value span :: rest, collected, hc, s, h => by
      refine gives_bind (gives_evaluate key .key h) fun name hname => ?_
      split
      · exact gives_bind (gives_evaluate value .value h) fun result hresult =>
          gives_ok (Evaluated.distinct_spreading _ hresult.value)
      · exact gives_evaluateEntries owner rest hc h
      · next loop _ hloop =>
          have hcollect := gives_collect
            (fun item => admits undefinedAsNull key (s.bind loop.binding item))
            (hname.items loop hloop) fun v hv =>
              gives_bind (gives_evaluate value .value (h.bind loop.binding hv))
                fun _ hresult => gives_ok (Value.distinct_getD hresult.value)
          exact gives_bind hcollect fun values hvalues =>
            gives_bind (gives_applyModifiers owner _ (v := some (.arr values)) hvalues)
              fun result hresult => gives_ok (Evaluated.distinct_spreading _ hresult)
      · refine gives_bind (gives_evaluate value .value h) fun plain hplain => ?_
        refine gives_bind (gives_applyModifiers owner _ hplain.value) fun result hresult => ?_
        split
        · split
          · exact gives_bind (Collected.gives_merge owner hc hresult) fun collected hc =>
              gives_evaluateEntries owner rest hc h
          · exact gives_ok (Evaluated.distinct_spreading _ hresult)
        · exact gives_bind (Collected.gives_assign owner _ hc hresult) fun collected hc =>
            gives_evaluateEntries owner rest hc h

end

end Evaluation
end JsonTemplate
