import JsonTemplate.Proofs.Evaluation.Distinct
import JsonTemplate.Proofs.Evaluation.Entries
import JsonTemplate.Proofs.Results
import Mathlib.Data.List.Forall2

/-!
Objects of plain fields and comments with a spread. Each of their entries makes one
contribution, and the contributions are added from the first to the last: fields to fields,
where the last mention of a name counts, and items to items, but never one to the other.
-/

namespace JsonTemplate

namespace Contribution

/-- The value for a name. That of a field may be undefined. -/
def mention? (k : String) : Contribution → Option Value
  | .field name v => if name = k then some v else none
  | .spread (some (.obj fields)) => (Fields.get? fields k).map some
  | .spread _ => none

def items : Contribution → List Json
  | .spread (some (.arr items)) => items
  | _ => []

def IsArray (c : Contribution) : Prop := ∃ items, c = .spread (some (.arr items))

def IsScalar (c : Contribution) : Prop := ∃ v, c = .spread (some v) ∧ v.isScalar = true

/-- What can stand behind an array: further arrays, and what brings nothing. -/
def Extends (c : Contribution) : Prop :=
  c.IsArray ∨ c = .spread none ∨ c = .spread (some .null)

def Distinct : Contribution → Prop
  | .field _ v | .spread v => v.Distinct

/-- Fields after a contribution of fields. -/
def onto (fields : Fields Json) : Contribution → Fields Json
  | .field name (some v) => fields.insert name v
  | .field name none => fields.erase name
  | .spread (some (.obj new)) => fields.insertAll new
  | .spread _ => fields

end Contribution

/-- A key without a condition, a loop or modifiers. -/
structure Signals.Bare (signals : Signals) : Prop where
  condition : signals.condition = none
  loop : signals.loop = none
  modifiers : signals.modifiers = []

/-- What a plain entry adds, and one whose key is a comment with a spread, if neither fails. -/
inductive Entry.Contributes (undefinedAsNull : Bool) (s : Scope) : Entry → Contribution → Prop
  | field {e : Entry} {name result : Evaluated} :
      Evaluation.evaluate undefinedAsNull e.key .key s = .ok name → name.signals.Bare →
      name.signals.spread = false →
      Evaluation.evaluate undefinedAsNull e.value .value s = .ok result →
      Contributes undefinedAsNull s e (.field ((name.value.map Json.text).getD "") result.value)
  | spread {e : Entry} {name result : Evaluated} :
      Evaluation.evaluate undefinedAsNull e.key .key s = .ok name → name.signals.Bare →
      name.signals.spread = true → name.signals.comment = true →
      Evaluation.evaluate undefinedAsNull e.value .value s = .ok result →
      Contributes undefinedAsNull s e (.spread result.value)

namespace Contribution

variable {c : Contribution} {cs pre post : List Contribution} {fields : Fields Json}
  {k : String} {v : Value}

/-! Fields -/

theorem nodup_names_onto (hd : fields.names.Nodup) (c : Contribution) :
    (c.onto fields).names.Nodup := by
  cases c with
  | field name v =>
      cases v with
      | none => exact Fields.nodup_names_erase hd name
      | some v => exact Fields.nodup_names_insert fields name v hd
  | spread v =>
      unfold onto
      split
      · next h => cases h
      · next h => cases h
      · exact Fields.nodup_names_insertAll hd _
      · exact hd

theorem nodup_names_foldl_onto (hd : fields.names.Nodup) (cs : List Contribution) :
    (cs.foldl onto fields).names.Nodup := by
  induction cs generalizing fields with
  | nil => exact hd
  | cons c rest ih => exact ih (nodup_names_onto hd c)

/-- A name has the value of the contribution if it mentions it, and else the one it had. -/
theorem get?_onto (hd : fields.names.Nodup) (hc : c.Distinct) (k : String) :
    (c.onto fields).get? k = (c.mention? k).getD (fields.get? k) := by
  cases c with
  | field name v =>
      cases v with
      | none =>
          rw [onto, Fields.get?_erase hd, mention?]
          split <;> rfl
      | some v =>
          rw [onto, Fields.get?_insert, mention?]
          split <;> rfl
  | spread v =>
      match v, hc with
      | some (.obj new), hc =>
          rw [onto, Fields.get?_insertAll fields hc.1, mention?]
          cases Fields.get? new k <;> rfl
      | none, _ | some .null, _ | some (.bool _), _ | some (.num _), _ | some (.str _), _
      | some (.arr _), _ => rfl

theorem get?_foldl_onto_of_unmentioned (hd : fields.names.Nodup) (hcs : ∀ c ∈ cs, c.Distinct)
    (h : ∀ c ∈ cs, c.mention? k = none) : (cs.foldl onto fields).get? k = fields.get? k := by
  induction cs generalizing fields with
  | nil => rfl
  | cons c rest ih =>
      obtain ⟨hc, hrest⟩ := List.forall_mem_cons.1 hcs
      obtain ⟨hnone, hmore⟩ := List.forall_mem_cons.1 h
      rw [List.foldl_cons, ih (nodup_names_onto hd c) hrest hmore, get?_onto hd hc, hnone]
      rfl

/-- The last mention of a name counts. -/
theorem get?_foldl_onto_of_last (hd : fields.names.Nodup)
    (hcs : ∀ d ∈ pre ++ c :: post, d.Distinct) (hc : c.mention? k = some v)
    (hpost : ∀ d ∈ post, d.mention? k = none) :
    ((pre ++ c :: post).foldl onto fields).get? k = v := by
  obtain ⟨-, hrest⟩ := List.forall_mem_append.1 hcs
  obtain ⟨hdistinct, hafter⟩ := List.forall_mem_cons.1 hrest
  have hbefore := nodup_names_foldl_onto hd pre
  rw [List.foldl_append, List.foldl_cons,
    get?_foldl_onto_of_unmentioned (nodup_names_onto hbefore c) hafter hpost,
    get?_onto hbefore hdistinct, hc]
  rfl

theorem unmentioned_or_last (k : String) (cs : List Contribution) :
    (∀ c ∈ cs, c.mention? k = none) ∨
      ∃ pre c post v, cs = pre ++ c :: post ∧ c.mention? k = some v ∧
        ∀ d ∈ post, d.mention? k = none := by
  induction cs with
  | nil => exact .inl nofun
  | cons c rest ih =>
      obtain hrest | ⟨pre, d, post, v, rfl, hd, hpost⟩ := ih
      · cases hc : c.mention? k with
        | none => exact .inl (List.forall_mem_cons.2 ⟨hc, hrest⟩)
        | some v => exact .inr ⟨[], c, rest, v, rfl, hc, hrest⟩
      · exact .inr ⟨c :: pre, d, post, v, rfl, hd, hpost⟩

/-- Only a field can be undefined where it is mentioned. -/
theorem eq_field_of_mention? (h : c.mention? k = some none) : c = .field k none := by
  cases c with
  | field name v =>
      rw [mention?] at h
      split at h
      · next hname =>
          cases h
          rw [hname]
      · cases h
  | spread v =>
      unfold mention? at h
      split at h
      · next he => cases he
      · obtain ⟨w, -, hw⟩ := Option.map_eq_some_iff.1 h
        cases hw
      · cases h

theorem mention?_field (k : String) (v : Value) : (field k v).mention? k = some v :=
  if_pos rfl

/-- A name is absent if nothing mentions it, or if a field without a value does so last. -/
theorem get?_foldl_onto_eq_none_iff (hcs : ∀ c ∈ cs, c.Distinct) :
    (cs.foldl onto ([] : Fields Json)).get? k = none ↔
      (∀ c ∈ cs, c.mention? k = none) ∨
        ∃ pre post, cs = pre ++ .field k none :: post ∧ ∀ d ∈ post, d.mention? k = none := by
  have hd : (Fields.names ([] : Fields Json)).Nodup := .nil
  constructor
  · intro h
    obtain hnone | ⟨pre, c, post, v, rfl, hc, hpost⟩ := unmentioned_or_last k cs
    · exact .inl hnone
    · -- The last mention comes to nothing, which only a field does.
      rw [get?_foldl_onto_of_last hd hcs hc hpost] at h
      subst h
      cases eq_field_of_mention? hc
      exact .inr ⟨pre, post, rfl, hpost⟩
  · rintro (hnone | ⟨pre, post, rfl, hpost⟩)
    · exact get?_foldl_onto_of_unmentioned hd hcs hnone
    · exact get?_foldl_onto_of_last hd hcs (mention?_field k none) hpost

theorem items_of_not_isArray (h : ¬ c.IsArray) : c.items = [] := by
  unfold items
  split
  · exact absurd ⟨_, rfl⟩ h
  · rfl

end Contribution

namespace Collected

variable {owner : Node} {c : Contribution} {cs : List Contribution}

open Contribution (onto)

/-! Steps -/

theorem add_fields (fields : Fields Json) (harray : ¬ c.IsArray) (hscalar : ¬ c.IsScalar) :
    (Collected.fields fields).add owner c = .ok (.fields (c.onto fields)) := by
  cases c with
  | field name v => cases v <;> rfl
  | spread v =>
      match v with
      | none | some .null | some (.obj _) => cases fields <;> rfl
      | some (.arr new) => exact absurd ⟨new, rfl⟩ harray
      | some (.bool _) | some (.num _) | some (.str _) => exact absurd ⟨_, rfl, rfl⟩ hscalar

theorem add_array (fields : Fields Json) (items : List Json) {r : Collected} :
    (Collected.fields fields).add owner (.spread (some (.arr items))) = .ok r ↔
      fields = [] ∧ r = .items items := by
  cases fields with
  | nil => exact ⟨fun h => ⟨rfl, (Except.ok.inj h).symm⟩, fun ⟨_, h⟩ => h ▸ rfl⟩
  | cons field rest => exact ⟨nofun, nofun⟩

theorem add_items (old : List Json) {r : Collected} :
    (Collected.items old).add owner c = .ok r ↔ c.Extends ∧ r = .items (old ++ c.items) := by
  constructor
  · intro h
    cases c with
    | field name v => cases h
    | spread v =>
        match v with
        | none =>
            cases h
            exact ⟨.inr (.inl rfl), congrArg items (List.append_nil old).symm⟩
        | some .null =>
            cases h
            exact ⟨.inr (.inr rfl), congrArg items (List.append_nil old).symm⟩
        | some (.arr new) =>
            cases h
            exact ⟨.inl ⟨new, rfl⟩, rfl⟩
        | some (.obj _) | some (.bool _) | some (.num _) | some (.str _) => cases h
  · rintro ⟨⟨new, rfl⟩ | rfl | rfl, rfl⟩
    · rfl
    · exact congrArg (fun is => Except.ok (items is)) (List.append_nil old).symm
    · exact congrArg (fun is => Except.ok (items is)) (List.append_nil old).symm

theorem add_scalar (collected : Collected) (h : c.IsScalar) :
    ∃ x, collected.add owner c = .error x := by
  obtain ⟨v, rfl, hv⟩ := h
  match v, hv with
  | .bool _, _ | .num _, _ | .str _, _ =>
      rcases collected with ⟨_ | _⟩ | _ <;> exact ⟨_, rfl⟩

/-! Runs -/

theorem foldlM_add_fields (fields : Fields Json) (harray : ∀ c ∈ cs, ¬ c.IsArray)
    (hscalar : ∀ c ∈ cs, ¬ c.IsScalar) :
    cs.foldlM (Collected.add owner) (.fields fields) = .ok (.fields (cs.foldl onto fields)) := by
  induction cs generalizing fields with
  | nil => rfl
  | cons c rest ih =>
      obtain ⟨ha, harest⟩ := List.forall_mem_cons.1 harray
      obtain ⟨hs, hsrest⟩ := List.forall_mem_cons.1 hscalar
      rw [List.foldlM_cons, add_fields fields ha hs]
      exact ih (c.onto fields) harest hsrest

theorem foldlM_add_items (old : List Json) {r : Collected} :
    cs.foldlM (Collected.add owner) (.items old) = .ok r ↔
      (∀ c ∈ cs, c.Extends) ∧ r = .items (old ++ cs.flatMap Contribution.items) := by
  induction cs generalizing old with
  | nil =>
      rw [List.flatMap_nil, List.append_nil]
      exact ⟨fun h => ⟨nofun, (Except.ok.inj h).symm⟩, fun ⟨_, h⟩ => h ▸ rfl⟩
  | cons c rest ih =>
      rw [List.foldlM_cons, bind_eq_ok, List.flatMap_cons, List.forall_mem_cons,
        ← List.append_assoc]
      constructor
      · rintro ⟨next, hnext, hmore⟩
        obtain ⟨hc, rfl⟩ := (add_items old).1 hnext
        obtain ⟨hrest, rfl⟩ := (ih _).1 hmore
        exact ⟨⟨hc, hrest⟩, rfl⟩
      · rintro ⟨⟨hc, hrest⟩, rfl⟩
        exact ⟨_, (add_items old).2 ⟨hc, rfl⟩, (ih _).2 ⟨hrest, rfl⟩⟩

/-- An array is taken by no field at all, and by nothing but arrays behind it. -/
theorem foldlM_add_array {pre post : List Contribution} {items : List Json}
    (harray : ∀ c ∈ pre, ¬ c.IsArray) (hscalar : ∀ c ∈ pre, ¬ c.IsScalar) {r : Collected} :
    (pre ++ .spread (some (.arr items)) :: post).foldlM (Collected.add owner) (.fields [])
        = .ok r ↔
      pre.foldl onto [] = [] ∧ (∀ c ∈ post, c.Extends) ∧
        r = .items (items ++ post.flatMap Contribution.items) := by
  have hpre : pre.foldlM (Collected.add owner) (.fields []) = .ok (.fields (pre.foldl onto [])) :=
    foldlM_add_fields [] harray hscalar
  rw [foldlM_append_of_ok hpre, List.foldlM_cons, bind_eq_ok]
  constructor
  · rintro ⟨next, hnext, hmore⟩
    obtain ⟨hempty, rfl⟩ := (add_array _ items).1 hnext
    exact ⟨hempty, (foldlM_add_items items).1 hmore⟩
  · rintro ⟨hempty, hmore⟩
    exact ⟨_, (add_array _ items).2 ⟨hempty, rfl⟩, (foldlM_add_items items).2 hmore⟩

theorem foldlM_add_scalar (collected : Collected) (hc : c ∈ cs) (h : c.IsScalar) :
    ∃ x, cs.foldlM (Collected.add owner) collected = .error x := by
  obtain ⟨pre, post, rfl⟩ := List.append_of_mem hc
  cases hpre : pre.foldlM (Collected.add owner) collected with
  | error x => exact ⟨x, foldlM_append_of_error hpre _⟩
  | ok next =>
      obtain ⟨x, hx⟩ : ∃ x, next.add owner c = .error x := add_scalar next h
      refine ⟨x, ?_⟩
      rw [foldlM_append_of_ok hpre, List.foldlM_cons, hx]
      rfl

end Collected

namespace Evaluation

variable {undefinedAsNull : Bool} {s : Scope} {entries : List Entry} {cs : List Contribution}

open Entry (Contributes)

/-- With a bare key only the marks of a spread and of a comment are left to tell apart. -/
theorem effectOf_bare (owner : Node) {key value : Node} {name result : Evaluated}
    (hbare : name.signals.Bare)
    (hvalue : evaluate undefinedAsNull value .value s = .ok result) :
    effectOf undefinedAsNull owner s key value name
      = .ok (if name.signals.spread then
          if name.signals.comment then .adds (.spread result.value)
          else .result (.spreading true result.value)
        else .adds (.field ((name.value.map Json.text).getD "") result.value)) := by
  obtain ⟨v, ⟨spread, modifiers, condition, loop, comment⟩⟩ := name
  obtain ⟨hcondition, hloop, hmodifiers⟩ := hbare
  cases hcondition
  cases hloop
  cases hmodifiers
  rw [effectOf, hvalue]
  cases spread <;> cases comment <;> rfl

theorem effect_of_contributes (owner : Node) {e : Entry} {c : Contribution}
    (h : Contributes undefinedAsNull s e c) :
    effect undefinedAsNull owner s e = .ok (.adds c) := by
  cases h with
  | field hkey hbare hspread hvalue =>
      rw [effect_of_key owner hkey, effectOf_bare owner hbare hvalue, hspread]
      rfl
  | spread hkey hbare hspread hcomment hvalue =>
      rw [effect_of_key owner hkey, effectOf_bare owner hbare hvalue, hspread, hcomment]
      rfl

theorem distinct_of_contributes (hs : s.Distinct) {e : Entry} {c : Contribution}
    (h : Contributes undefinedAsNull s e c) : c.Distinct := by
  cases h with
  | field _ _ _ hvalue => exact (gives_evaluate undefinedAsNull e.value .value hs _ hvalue).value
  | spread _ _ _ _ hvalue => exact (gives_evaluate undefinedAsNull e.value .value hs _ hvalue).value

/-- Entries that contribute are rendered by adding what they contribute. -/
theorem evaluateEntries_contributes (owner : Node) (collected : Collected)
    (h : List.Forall₂ (Contributes undefinedAsNull s) entries cs) :
    evaluateEntries undefinedAsNull owner entries collected s
      = (cs.foldlM (Collected.add owner) collected).map fun c => .plain (some c.toJson) := by
  induction h generalizing collected with
  | nil => rfl
  | @cons e c rest more he _ ih =>
      have hstep : evaluateEntries undefinedAsNull owner (e :: rest) collected s
          = collected.add owner c >>= fun next =>
              evaluateEntries undefinedAsNull owner rest next s := by
        rw [evaluateEntries_cons, effect_of_contributes owner he]
        rfl
      rw [hstep, List.foldlM_cons]
      cases collected.add owner c with
      | error x => rfl
      | ok next => exact ih next

theorem evaluate_contributes (span : Span) (role : Role)
    (h : List.Forall₂ (Contributes undefinedAsNull s) entries cs) :
    evaluate undefinedAsNull (.object entries span) role s
      = (cs.foldlM (Collected.add (.object [] span)) (.fields [])).map
          fun c => .plain (some c.toJson) :=
  (evaluate_object undefinedAsNull span role s entries).trans
    (evaluateEntries_contributes _ _ h)

/-- Contributions of fields alone make an object of fields. -/
theorem evaluate_fields (span : Span) (role : Role)
    (h : List.Forall₂ (Contributes undefinedAsNull s) entries cs)
    (harray : ∀ c ∈ cs, ¬ c.IsArray) (hscalar : ∀ c ∈ cs, ¬ c.IsScalar) :
    evaluate undefinedAsNull (.object entries span) role s
      = .ok (.plain (some (.obj (cs.foldl Contribution.onto [])))) := by
  rw [evaluate_contributes span role h, Collected.foldlM_add_fields [] harray hscalar]
  rfl

theorem contributes_text {value : Node} {v : Value} {signals : Signals}
    (h : evaluate undefinedAsNull value .value s = .ok ⟨v, signals⟩) (name : String)
    (inner outer span : Span) :
    Contributes undefinedAsNull s (.mk (.template [.text name inner] outer) value span)
      (.field name v) := by
  have hkey : evaluate undefinedAsNull (.template [.text name inner] outer) .key s
      = .ok (.plain (some (.str name))) :=
    congrArg (fun text => Except.ok (Evaluated.plain (some (.str text)))) String.append_empty
  exact .field (e := .mk _ value span) hkey ⟨rfl, rfl, rfl⟩ rfl h

/-- A key that is a comment with a spread, and nothing else. -/
theorem contributes_comment {value : Node} {v : Value} {signals : Signals}
    (h : evaluate undefinedAsNull value .value s = .ok ⟨v, signals⟩) (text : String)
    (place inner outer span : Span) :
    Contributes undefinedAsNull s
      (.mk (.template [.interpolation true [] (.comment text place) inner] outer) value span)
      (.spread v) := by
  have hkey : evaluate undefinedAsNull
      (.template [.interpolation true [] (.comment text place) inner] outer) .key s
      = .ok ⟨none, { spread := true, comment := true }⟩ := rfl
  exact .spread (e := .mk _ value span) hkey ⟨rfl, rfl, rfl⟩ rfl rfl h

theorem forall_distinct_of_contributes (hs : s.Distinct)
    (h : List.Forall₂ (Contributes undefinedAsNull s) entries cs) : ∀ c ∈ cs, c.Distinct := by
  induction h with
  | nil => exact nofun
  | cons he _ ih => exact List.forall_mem_cons.2 ⟨distinct_of_contributes hs he, ih⟩

/-- An object with a spread array is rendered if no field is left at the first of them and only
arrays come behind it, and then to the items of all. -/
theorem evaluate_array (span : Span) (role : Role) {pre post : List Contribution}
    {items : List Json}
    (h : List.Forall₂ (Contributes undefinedAsNull s) entries
      (pre ++ .spread (some (.arr items)) :: post))
    (harray : ∀ c ∈ pre, ¬ c.IsArray) (hscalar : ∀ c ∈ pre, ¬ c.IsScalar) {r : Evaluated} :
    evaluate undefinedAsNull (.object entries span) role s = .ok r ↔
      evaluate undefinedAsNull (.object (entries.take pre.length) span) role s
          = .ok (.plain (some (.obj []))) ∧
        (∀ c ∈ post, c.Extends) ∧
        r = .plain (some (.arr
          ((pre ++ .spread (some (.arr items)) :: post).flatMap Contribution.items))) := by
  have hpre : List.Forall₂ (Contributes undefinedAsNull s) (entries.take pre.length) pre := by
    have htake := List.forall₂_take pre.length h
    rwa [List.take_left] at htake
  have hitems : (pre ++ .spread (some (.arr items)) :: post).flatMap Contribution.items
      = items ++ post.flatMap Contribution.items := by
    rw [List.flatMap_append, List.flatMap_cons, List.flatMap_eq_nil_iff.2 fun c hc =>
      Contribution.items_of_not_isArray (harray c hc)]
    rfl
  rw [evaluate_contributes span role h, evaluate_fields span role hpre harray hscalar, hitems]
  constructor
  · intro hr
    obtain ⟨collected, hcollected, rfl⟩ := map_eq_ok.1 hr
    obtain ⟨hempty, hpost, rfl⟩ := (Collected.foldlM_add_array harray hscalar).1 hcollected
    rw [hempty]
    exact ⟨rfl, hpost, rfl⟩
  · rintro ⟨hempty, hpost, rfl⟩
    cases hfields : pre.foldl Contribution.onto [] with
    | nil =>
        refine map_eq_ok.2 ⟨.items (items ++ post.flatMap Contribution.items), ?_, rfl⟩
        exact (Collected.foldlM_add_array harray hscalar).2 ⟨hfields, hpost, rfl⟩
    | cons field rest =>
        -- A field is left before the array.
        rw [hfields] at hempty
        cases hempty

/-- An object of plain fields and comments with a spread. Where no array and no scalar is spread
it has every name that is mentioned, with the value of its last mention, unless that is a field
without a value. Where arrays are spread it is their items, and is rendered at all only if no
field is left at the first and nothing but arrays is added behind it. A scalar is never spread. -/
theorem object_merges (undefinedAsNull : Bool) (span : Span) (role : Role) {s : Scope}
    (hs : s.Distinct) {entries : List Entry} {cs : List Contribution}
    (h : List.Forall₂ (Contributes undefinedAsNull s) entries cs) :
    ((∀ c ∈ cs, ¬ c.IsArray ∧ ¬ c.IsScalar) →
      ∃ fields, evaluate undefinedAsNull (.object entries span) role s
          = .ok (.plain (some (.obj fields))) ∧
        (Fields.names fields).Nodup ∧
        (∀ k pre c post v, cs = pre ++ c :: post → c.mention? k = some v →
          (∀ d ∈ post, d.mention? k = none) → Fields.get? fields k = v) ∧
        ∀ k, k ∉ Fields.names fields ↔
          (∀ c ∈ cs, c.mention? k = none) ∨
            ∃ pre post, cs = pre ++ .field k none :: post ∧ ∀ d ∈ post, d.mention? k = none) ∧
    (∀ pre array post, cs = pre ++ array :: post → array.IsArray → (∀ c ∈ pre, ¬ c.IsArray) →
      (∀ c ∈ cs, ¬ c.IsScalar) →
      ((∃ r, evaluate undefinedAsNull (.object entries span) role s = .ok r) ↔
        evaluate undefinedAsNull (.object (entries.take pre.length) span) role s
            = .ok (.plain (some (.obj []))) ∧
          ∀ c ∈ post, c.Extends) ∧
      ∀ r, evaluate undefinedAsNull (.object entries span) role s = .ok r →
        r = .plain (some (.arr (cs.flatMap Contribution.items)))) ∧
    ((∃ c ∈ cs, c.IsScalar) →
      ∃ x, evaluate undefinedAsNull (.object entries span) role s = .error x) := by
  refine ⟨fun hcs => ?_, ?_, ?_⟩
  · have hdistinct := forall_distinct_of_contributes hs h
    have hnone : (Fields.names ([] : Fields Json)).Nodup := .nil
    refine ⟨_, evaluate_fields span role h (fun c hc => (hcs c hc).1) fun c hc => (hcs c hc).2,
      Contribution.nodup_names_foldl_onto hnone cs, ?_, fun k => ?_⟩
    · rintro k pre c post v rfl hc hpost
      exact Contribution.get?_foldl_onto_of_last hnone hdistinct hc hpost
    · rw [← Fields.get?_eq_none_iff]
      exact Contribution.get?_foldl_onto_eq_none_iff hdistinct
  · rintro pre _ post rfl ⟨items, rfl⟩ harray hscalar
    have hpre : ∀ c ∈ pre, ¬ c.IsScalar := fun c hc => hscalar c (List.mem_append_left _ hc)
    refine ⟨⟨?_, ?_⟩, ?_⟩
    · rintro ⟨r, hr⟩
      obtain ⟨hempty, hpost, -⟩ := (evaluate_array span role h harray hpre).1 hr
      exact ⟨hempty, hpost⟩
    · rintro ⟨hempty, hpost⟩
      exact ⟨_, (evaluate_array span role h harray hpre).2 ⟨hempty, hpost, rfl⟩⟩
    · intro r hr
      exact ((evaluate_array span role h harray hpre).1 hr).2.2
  · rintro ⟨c, hc, hscalar⟩
    obtain ⟨x, hx⟩ := Collected.foldlM_add_scalar (.fields []) hc hscalar
    refine ⟨x, ?_⟩
    rw [evaluate_contributes span role h, hx]
    rfl

/-- A name that is set and removed, before a spread object, before spread arrays, and behind
a spread scalar. -/
theorem object_merges_removed :
    ∃ (p : Span) (s : Scope) (set unset object first second scalar : Entry),
      p = .empty 0 ∧ s = .ofParameters [("m", .obj [("b", .null)])] ∧
      set = .mk (.template [.text "a" p] p) (.bool true p) p ∧
      unset = .mk (.template [.text "a" p] p) (.undefined p) p ∧
      object = .mk (.template [.interpolation true [] (.comment "" p) p] p)
        (.path ⟨[⟨"m", false⟩]⟩ p) p ∧
      first = .mk (.template [.interpolation true [] (.comment "" p) p] p) (.array [.null p] p) p ∧
      second = .mk (.template [.interpolation true [] (.comment "" p) p] p) (.array [] p) p ∧
      scalar = .mk (.template [.interpolation true [] (.comment "" p) p] p) (.bool true p) p ∧
      s.Distinct ∧
      (∃ fields, evaluate false (.object [set, unset, object] p) .value s
          = .ok (.plain (some (.obj fields))) ∧
        Fields.get? fields "b" = some .null ∧ "a" ∉ Fields.names fields) ∧
      (∃ r, evaluate false (.object [set, unset, first, second] p) .value s = .ok r) ∧
      (∀ r, evaluate false (.object [set, unset, first, second] p) .value s = .ok r →
        r = .plain (some (.arr [.null]))) ∧
      ∃ x, evaluate false (.object [scalar, set, unset] p) .value s = .error x := by
  let p : Span := .empty 0
  let s : Scope := .ofParameters [("m", .obj [("b", .null)])]
  have hs : s.Distinct :=
    ⟨by simp [s, Scope.ofParameters, Json.Distinct, Json.DistinctFields, Fields.names], nofun⟩
  have hset : Contributes false s (.mk (.template [.text "a" p] p) (.bool true p) p)
      (.field "a" (some (.bool true))) := contributes_text rfl "a" p p p
  have hunset : Contributes false s (.mk (.template [.text "a" p] p) (.undefined p) p)
      (.field "a" none) := contributes_text rfl "a" p p p
  have hmerged : ∀ {value v}, evaluate false value .value s = .ok (.plain v) →
      Contributes false s (.mk (.template [.interpolation true [] (.comment "" p) p] p) value p)
        (.spread v) := fun h => contributes_comment h "" p p p p
  have hobject : evaluate false (.path ⟨[⟨"m", false⟩]⟩ p) .value s
      = .ok (.plain (some (.obj [("b", .null)]))) := rfl
  have hfirst : evaluate false (.array [.null p] p) .value s = .ok (.plain (some (.arr [.null]))) :=
    rfl
  have hsecond : evaluate false (.array [] p) .value s = .ok (.plain (some (.arr []))) := rfl
  have hbool : evaluate false (.bool true p) .value s = .ok (.plain (some (.bool true))) := rfl
  obtain ⟨hfields, -, -⟩ := object_merges false p .value hs
    (.cons hset (.cons hunset (.cons (hmerged hobject) .nil)))
  obtain ⟨-, harray, -⟩ := object_merges false p .value hs
    (.cons hset (.cons hunset (.cons (hmerged hfirst) (.cons (hmerged hsecond) .nil))))
  obtain ⟨-, -, hscalar⟩ := object_merges false p .value hs
    (.cons (hmerged hbool) (.cons hset (.cons hunset .nil)))
  obtain ⟨fields, hevaluated, -, hlast, habsent⟩ := hfields (by
    simp [Contribution.IsArray, Contribution.IsScalar, Json.isScalar])
  obtain ⟨hok, hresult⟩ := harray [_, _] _ [_] rfl ⟨_, rfl⟩ (by simp [Contribution.IsArray])
    (by simp [Contribution.IsScalar, Json.isScalar])
  have hextends : ∀ c ∈ [Contribution.spread (some (.arr []))], c.Extends :=
    List.forall_mem_singleton.2 (.inl ⟨[], rfl⟩)
  exact ⟨p, s, _, _, _, _, _, _, rfl, rfl, rfl, rfl, rfl, rfl, rfl, rfl, hs,
    ⟨fields, hevaluated, hlast "b" [_, _] _ [] _ rfl rfl (List.forall_mem_nil _),
      (habsent "a").2 (.inr ⟨[_], [_], rfl, List.forall_mem_singleton.2 rfl⟩)⟩,
    hok.2 ⟨rfl, hextends⟩, hresult, hscalar ⟨_, List.mem_cons_self, _, rfl, rfl⟩⟩

end Evaluation
end JsonTemplate
