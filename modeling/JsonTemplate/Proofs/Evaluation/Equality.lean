import JsonTemplate.Proofs.Evaluation.Distinct
import JsonTemplate.Proofs.Numeral.Places
import Mathlib.Data.List.Forall2
import Mathlib.Data.List.Perm.Subperm

/-!
Equality of values. Two objects are the same if under each name both have the same value or
neither has one; so the order of their fields does not matter, and strict equality is an
equivalence that containers respect. Loose equality holds wherever strict equality does, and it
does not matter on which side of it a value stands.
-/

namespace JsonTemplate
namespace Json

/-- What holds of a container if it holds of its parts holds of every value. -/
theorem induct {P : Json → Prop} (null : P null) (bool : ∀ b, P (bool b)) (num : ∀ n, P (num n))
    (str : ∀ s, P (str s)) (arr : ∀ items, (∀ v ∈ items, P v) → P (arr items))
    (obj : ∀ fields, (∀ field ∈ fields, P field.2) → P (obj fields)) (v : Json) : P v := by
  refine @Json.rec P (fun items => ∀ v ∈ items, P v) (fun fields => ∀ field ∈ fields, P field.2)
    (fun field => P field.2) null bool num str arr obj nofun ?_ nofun ?_ ?_ v
  · exact fun item rest hitem hrest => List.forall_mem_cons.2 ⟨hitem, hrest⟩
  · exact fun field rest hfield hrest => List.forall_mem_cons.2 ⟨hfield, hrest⟩
  · exact fun name v hv => hv

theorem sameItems_iff {as bs : List Json} :
    sameItems as bs = true ↔ List.Forall₂ (fun a b => a.same b = true) as bs := by
  induction as generalizing bs with
  | nil => cases bs <;> simp [sameItems]
  | cons a as ih => cases bs <;> simp [sameItems, ih]

theorem sameFields_iff {as : List (String × Json)} {bs : Fields Json} :
    sameFields as bs = true ↔
      ∀ field ∈ as, ∃ b, bs.get? field.1 = some b ∧ field.2.same b = true := by
  induction as with
  | nil => exact ⟨nofun, fun _ => rfl⟩
  | cons field rest ih =>
      rw [sameFields, Bool.and_eq_true, ih, List.forall_mem_cons]
      refine and_congr_left fun _ => ?_
      cases bs.get? field.1 <;> simp

example : (obj [("a", null), ("b", null)]).same (obj [("b", null), ("a", null)]) = true := by cbv

/-! Objects -/

/-- With as many names, and each of the one among those of the other, two objects have the same
names. -/
theorem mem_names_of_same {as bs : Fields Json} (ha : as.names.Nodup)
    (hl : as.length = bs.length) (hsub : as.names ⊆ bs.names) {name : String}
    (h : name ∈ bs.names) : name ∈ as.names := by
  have hlength : bs.names.length = as.names.length := by
    rw [Fields.names, Fields.names, List.length_map, List.length_map, hl]
  have hperm := (List.subperm_of_subset ha hsub).perm_of_length_le (Nat.le_of_eq hlength)
  exact hperm.mem_iff.2 h

theorem isSome_eq_of_rel {a b : Option Json} {R : Json → Json → Prop} (h : Option.Rel R a b) :
    a.isSome = b.isSome := by
  cases h <;> rfl

theorem exists_of_rel {a : Json} {b : Option Json} {R : Json → Json → Prop}
    (h : Option.Rel R (some a) b) : ∃ c, b = some c ∧ R a c := by
  cases h with
  | some hr => exact ⟨_, rfl, hr⟩

/-- Objects are the same if they are so under each name. -/
theorem same_obj_iff {as bs : Fields Json} (ha : as.names.Nodup) (hb : bs.names.Nodup) :
    (obj as).same (obj bs) = true ↔
      ∀ name, Option.Rel (fun a b => a.same b = true) (as.get? name) (bs.get? name) := by
  rw [same, Bool.and_eq_true, beq_iff_eq, sameFields_iff]
  constructor
  · rintro ⟨hl, hfields⟩ name
    have hsub : as.names ⊆ bs.names := by
      intro name hname
      obtain ⟨field, hfield, rfl⟩ := List.mem_map.1 hname
      obtain ⟨b, hget, -⟩ := hfields field hfield
      exact (Fields.isSome_get?_iff bs _).1 (Option.isSome_iff_exists.2 ⟨b, hget⟩)
    cases hget : as.get? name with
    | some a =>
        obtain ⟨b, hget', hsame⟩ := hfields (name, a) (Fields.mem_of_get? hget)
        rw [hget']
        exact .some hsame
    | none =>
        have hnone : bs.get? name = none := by
          rw [Fields.get?_eq_none_iff] at hget ⊢
          exact fun h => hget (mem_names_of_same ha hl hsub h)
        rw [hnone]
        exact .none
  · intro h
    have hboth : ∀ name, name ∈ as.names ↔ name ∈ bs.names := by
      intro name
      rw [← Fields.isSome_get?_iff, ← Fields.isSome_get?_iff, isSome_eq_of_rel (h name)]
    have hperm : as.names.Perm bs.names := (List.perm_ext_iff_of_nodup ha hb).2 hboth
    refine ⟨?_, fun field hfield => ?_⟩
    · simpa [Fields.names] using hperm.length_eq
    · have hname := h field.1
      rw [Fields.get?_of_mem ha hfield] at hname
      exact exists_of_rel hname

/-! An equivalence -/

theorem same_self (v : Json) (h : v.Distinct) : v.same v = true := by
  induction v using induct with
  | null => rfl
  | bool b => exact beq_self_eq_true b
  | num n => exact Binary64.same_self n.isSome_place?
  | str s => exact beq_self_eq_true s
  | arr items ih =>
      rw [same, sameItems_iff, List.forall₂_same]
      exact fun v hv => ih v hv (distinctItems_iff.1 h v hv)
  | obj fields ih =>
      rw [same_obj_iff h.1 h.1]
      intro name
      cases hget : Fields.get? fields name with
      | none => exact .none
      | some v =>
          have hmem := Fields.mem_of_get? hget
          exact .some (ih _ hmem (distinctFields_iff.1 h.2 _ hmem))

theorem forall₂_symm {as bs : List Json} (h : List.Forall₂ (fun a b => a.same b = true) as bs)
    (hs : ∀ a ∈ as, ∀ b ∈ bs, a.same b = true → b.same a = true) :
    List.Forall₂ (fun b a => b.same a = true) bs as := by
  induction h with
  | nil => exact .nil
  | cons hab _ ih =>
      refine .cons (hs _ List.mem_cons_self _ List.mem_cons_self hab) (ih fun a ha b hb => ?_)
      exact hs a (List.mem_cons_of_mem _ ha) b (List.mem_cons_of_mem _ hb)

theorem same_symm {a b : Json} (ha : a.Distinct) (hb : b.Distinct) (h : a.same b = true) :
    b.same a = true := by
  induction a using induct generalizing b with
  | null => cases b <;> first | rfl | cases h
  | bool x =>
      cases b with
      | bool y => exact beq_iff_eq.2 (beq_iff_eq.1 h).symm
      | _ => cases h
  | num m =>
      cases b with
      | num n => exact (Binary64.same_comm _ _).trans h
      | _ => cases h
  | str x =>
      cases b with
      | str y => exact beq_iff_eq.2 (beq_iff_eq.1 h).symm
      | _ => cases h
  | arr items ih =>
      cases b with
      | arr other =>
          rw [same, sameItems_iff] at h ⊢
          refine forall₂_symm h fun v hv w hw => ?_
          exact ih v hv (distinctItems_iff.1 ha v hv) (distinctItems_iff.1 hb w hw)
      | _ => cases h
  | obj fields ih =>
      cases b with
      | obj other =>
          rw [same_obj_iff ha.1 hb.1] at h
          rw [same_obj_iff hb.1 ha.1]
          intro name
          have hname := h name
          cases hget : Fields.get? fields name with
          | none =>
              rw [hget] at hname
              cases hother : Fields.get? other name with
              | none => exact .none
              | some w =>
                  rw [hother] at hname
                  cases hname
          | some v =>
              rw [hget] at hname
              obtain ⟨w, hother, hsame⟩ := exists_of_rel hname
              rw [hother]
              exact .some (ih _ (Fields.mem_of_get? hget) (distinct_of_get? ha hget)
                (distinct_of_get? hb hother) hsame)
      | _ => cases h

theorem forall₂_trans {as bs cs : List Json}
    (h : List.Forall₂ (fun a b => a.same b = true) as bs)
    (h' : List.Forall₂ (fun b c => b.same c = true) bs cs)
    (ht : ∀ a ∈ as, ∀ b c, a.same b = true → b.same c = true → a.same c = true) :
    List.Forall₂ (fun a c => a.same c = true) as cs := by
  induction h generalizing cs with
  | nil => exact h'
  | cons hab _ ih =>
      cases h' with
      | cons hbc hrest =>
          refine .cons (ht _ List.mem_cons_self _ _ hab hbc) (ih hrest fun a ha => ?_)
          exact ht a (List.mem_cons_of_mem _ ha)

theorem same_trans {a b c : Json} (h : a.same b = true) (h' : b.same c = true) :
    a.same c = true := by
  induction a using induct generalizing b c with
  | null => cases b <;> first | exact h' | cases h
  | bool x =>
      cases b with
      | bool y => rwa [beq_iff_eq.1 h]
      | _ => cases h
  | num m =>
      cases b with
      | num n =>
          cases c with
          | num o => exact Binary64.same_trans h h'
          | _ => cases h'
      | _ => cases h
  | str x =>
      cases b with
      | str y => rwa [beq_iff_eq.1 h]
      | _ => cases h
  | arr items ih =>
      cases b with
      | arr second =>
          cases c with
          | arr third =>
              rw [same, sameItems_iff] at h h' ⊢
              exact forall₂_trans h h' fun v hv w u => ih v hv
          | _ => cases h'
      | _ => cases h
  | obj fields ih =>
      cases b with
      | obj second =>
          cases c with
          | obj third =>
              rw [same, Bool.and_eq_true, beq_iff_eq, sameFields_iff] at h h' ⊢
              refine ⟨h.1.trans h'.1, fun field hfield => ?_⟩
              obtain ⟨w, hw, hsame⟩ := h.2 field hfield
              obtain ⟨u, hu, hsame'⟩ := h'.2 _ (Fields.mem_of_get? hw)
              exact ⟨u, hu, ih field hfield hsame hsame'⟩
          | _ => cases h'
      | _ => cases h

theorem typeName_eq_of_same {a b : Json} (h : a.same b = true) : a.typeName = b.typeName := by
  cases a <;> cases b <;> first | rfl | cases h

theorem same_comm {a b : Json} (ha : a.Distinct) (hb : b.Distinct) : a.same b = b.same a := by
  rw [Bool.eq_iff_iff]
  exact ⟨same_symm ha hb, same_symm hb ha⟩

/-! Containers -/

theorem same_arr_replace {before after : List Json} {a b : Json}
    (hd : (arr (before ++ a :: after)).Distinct) (h : a.same b = true) :
    (arr (before ++ a :: after)).same (arr (before ++ b :: after)) = true := by
  have hall := distinctItems_iff.1 hd
  rw [same, sameItems_iff]
  refine List.rel_append (List.forall₂_same.2 fun v hv => ?_) (.cons h (List.forall₂_same.2 ?_))
  · exact same_self v (hall v (List.mem_append_left _ hv))
  · exact fun v hv => same_self v (hall v (List.mem_append_right _ (List.mem_cons_of_mem _ hv)))

theorem same_obj_replace {before after : Fields Json} {name : String} {a b : Json}
    (hd : (obj (before ++ (name, a) :: after)).Distinct) (h : a.same b = true) :
    (obj (before ++ (name, a) :: after)).same (obj (before ++ (name, b) :: after)) = true := by
  have hnames : (Fields.names (before ++ (name, b) :: after)).Nodup := by
    simpa [Fields.names] using hd.1
  have hall := distinctFields_iff.1 hd.2
  rw [same, Bool.and_eq_true, beq_iff_eq, sameFields_iff]
  refine ⟨by simp, fun field hfield => ?_⟩
  obtain hbefore | hrest := List.mem_append.1 hfield
  · exact ⟨field.2, Fields.get?_of_mem hnames (List.mem_append_left _ hbefore),
      same_self _ (hall field hfield)⟩
  · obtain rfl | hafter := List.mem_cons.1 hrest
    · exact ⟨b, Fields.get?_of_mem hnames (List.mem_append_right _ List.mem_cons_self), h⟩
    · exact ⟨field.2, Fields.get?_of_mem hnames
        (List.mem_append_right _ (List.mem_cons_of_mem _ hafter)), same_self _ (hall field hfield)⟩

theorem same_obj_perm {fields other : Fields Json} (hd : (obj fields).Distinct)
    (h : fields.Perm other) : (obj fields).same (obj other) = true := by
  rw [same, Bool.and_eq_true, beq_iff_eq, sameFields_iff]
  refine ⟨h.length_eq, fun field hfield => ⟨field.2, ?_, ?_⟩⟩
  · rw [Fields.get?_perm hd.1 h, Fields.get?_of_mem hd.1 hfield]
  · exact same_self _ (distinctFields_iff.1 hd.2 field hfield)

end Json

namespace Value

open Json (Distinct)

theorem strictlyEqual_self {v : Value} (h : v.Distinct) : strictlyEqual v v = true := by
  cases v with
  | none => rfl
  | some v => exact v.same_self h

theorem strictlyEqual_comm {v w : Value} (hv : v.Distinct) (hw : w.Distinct) :
    strictlyEqual v w = strictlyEqual w v := by
  cases v <;> cases w <;> first | rfl | exact Json.same_comm hv hw

theorem strictlyEqual_trans {u v w : Value} (h : strictlyEqual u v = true)
    (h' : strictlyEqual v w = true) : strictlyEqual u w = true := by
  cases u with
  | none => cases v <;> first | exact h' | cases h
  | some u =>
      cases v with
      | none => cases h
      | some v =>
          cases w with
          | none => cases h'
          | some w => exact Json.same_trans h h'

/-- Values that are strictly equal are both null, both undefined, or of one type. -/
theorem looselyEqual_of_strictlyEqual {v w : Value} (h : strictlyEqual v w = true) :
    looselyEqual v w = true := by
  cases v with
  | none => cases w <;> first | rfl | cases h
  | some v =>
      cases w with
      | none => cases h
      | some w =>
          have hnullish : isNullish (some v) = isNullish (some w) := by
            cases v <;> cases w <;> first | rfl | cases h
          have htype : v.sameType w = true := beq_iff_eq.2 (Json.typeName_eq_of_same h)
          unfold looselyEqual
          rw [← hnullish, Bool.or_self, Bool.and_self]
          split
          · assumption
          · simp only [htype, if_true]
            exact h

theorem looselyEqual_comm {v w : Value} (hv : v.Distinct) (hw : w.Distinct) :
    looselyEqual v w = looselyEqual w v := by
  unfold looselyEqual
  rw [Bool.or_comm, Bool.and_comm]
  split
  · rfl
  · cases v with
    | none => cases w <;> rfl
    | some v =>
        cases w with
        | none => rfl
        | some w =>
            have htype : v.sameType w = w.sameType v := by
              rw [Json.sameType, Json.sameType, Bool.eq_iff_iff, beq_iff_eq, beq_iff_eq]
              exact eq_comm
            simp only [htype, Json.same_comm hv hw, Binary64.same_comm (toNumber (some v)),
              Bool.and_comm v.isScalar]

/-- No value that a tree comes to names a field twice. Among such values strict equality is an
equivalence, and it implies loose equality, which is reflexive and symmetric. Strictly equal
parts, and fields in another order, make strictly equal containers. -/
theorem strictlyEqual_equivalence :
    (∀ undefinedAsNull n role s r, Scope.Distinct s →
      Evaluation.evaluate undefinedAsNull n role s = .ok r → r.value.Distinct) ∧
    (∀ v : Value, v.Distinct → strictlyEqual v v = true ∧ looselyEqual v v = true) ∧
    (∀ v w : Value, v.Distinct → w.Distinct →
      strictlyEqual v w = strictlyEqual w v ∧ looselyEqual v w = looselyEqual w v) ∧
    (∀ u v w, strictlyEqual u v = true → strictlyEqual v w = true → strictlyEqual u w = true) ∧
    (∀ v w, strictlyEqual v w = true → looselyEqual v w = true) ∧
    (∀ before a b after, Json.Distinct (.arr (before ++ a :: after)) →
      strictlyEqual (some a) (some b) = true →
      strictlyEqual (some (.arr (before ++ a :: after))) (some (.arr (before ++ b :: after)))
        = true) ∧
    (∀ before name a b after, Json.Distinct (.obj (before ++ (name, a) :: after)) →
      strictlyEqual (some a) (some b) = true →
      strictlyEqual (some (.obj (before ++ (name, a) :: after)))
        (some (.obj (before ++ (name, b) :: after))) = true) ∧
    ∀ fields other, Json.Distinct (.obj fields) → fields.Perm other →
      strictlyEqual (some (.obj fields)) (some (.obj other)) = true := by
  refine ⟨fun undefinedAsNull n role s r hs hr => ?_, fun v hv => ?_, fun v w hv hw => ?_,
    fun u v w => strictlyEqual_trans, fun v w => looselyEqual_of_strictlyEqual,
    fun before a b after => Json.same_arr_replace, fun before name a b after =>
      Json.same_obj_replace, fun fields other => Json.same_obj_perm⟩
  · exact (Evaluation.gives_evaluate undefinedAsNull n role hs r hr).value
  · have hself := strictlyEqual_self hv
    exact ⟨hself, looselyEqual_of_strictlyEqual hself⟩
  · exact ⟨strictlyEqual_comm hv hw, looselyEqual_comm hv hw⟩

/-- An integer for the float that it equals, in a list, in a field, and then in a field that has
moved. -/
theorem strictlyEqual_equivalence_moved :
    ∃ (one unit : Json) (first second third : Fields Json) (r : Evaluated),
      one = .num (.int 1 (by decide)) ∧ unit = .num (.float 1 (by decide +kernel)) ∧
      first = [("a", one), ("b", .arr [.null])] ∧ second = [("a", unit), ("b", .arr [.null])] ∧
      third = [("b", .arr [.null]), ("a", unit)] ∧
      Evaluation.evaluate false (.path ⟨[⟨"x", false⟩]⟩ (.empty 0)) .value
        (.ofParameters [("x", .obj first)]) = .ok r ∧ r.value = some (.obj first) ∧
      r.value.Distinct ∧ strictlyEqual r.value r.value = true ∧
      strictlyEqual (some one) (some unit) = true ∧
      strictlyEqual (some (.arr [.null, one])) (some (.arr [.null, unit])) = true ∧
      strictlyEqual r.value (some (.obj second)) = true ∧
      strictlyEqual (some (.obj second)) (some (.obj third)) = true ∧
      strictlyEqual r.value (some (.obj third)) = true ∧
      strictlyEqual r.value (some (.obj third)) = strictlyEqual (some (.obj third)) r.value ∧
      looselyEqual r.value (some (.obj third)) = true := by
  let one : Json := .num (.int 1 (by decide))
  let unit : Json := .num (.float 1 (by decide +kernel))
  have hnumbers : strictlyEqual (some one) (some unit) = true := by decide +kernel
  obtain ⟨hproduced, hself, hcomm, htrans, hloose, hitems, hfields, hperm⟩ :=
    strictlyEqual_equivalence
  have hd : ∀ w, Json.Distinct (.obj [("a", .num w), ("b", .arr [.null])]) := fun w =>
    ⟨by simp [Fields.names], trivial, ⟨trivial, trivial⟩, trivial⟩
  have hd' : Json.Distinct (.obj [("b", .arr [.null]), ("a", unit)]) :=
    ⟨by simp [Fields.names], ⟨trivial, trivial⟩, trivial, trivial⟩
  have hscope : Scope.Distinct
      (.ofParameters [("x", .obj [("a", one), ("b", .arr [.null])])]) :=
    ⟨⟨List.nodup_singleton "x", hd _, trivial⟩, List.forall_mem_nil _⟩
  have hvalue := hproduced false (.path ⟨[⟨"x", false⟩]⟩ (.empty 0)) .value _ _ hscope rfl
  have hreplaced := hfields [] "a" one unit [("b", .arr [.null])] (hd _) hnumbers
  have hmoved := hperm _ [("b", .arr [.null]), ("a", unit)] (hd _) (.swap _ _ [])
  have hboth := htrans _ _ _ hreplaced hmoved
  exact ⟨one, unit, _, _, _, _, rfl, rfl, rfl, rfl, rfl, rfl, rfl, hvalue, (hself _ hvalue).1,
    hnumbers, hitems [.null] one unit [] ⟨trivial, trivial, trivial⟩ hnumbers, hreplaced, hmoved,
    hboth, (hcomm _ (some (.obj _)) hvalue hd').1, hloose _ _ hboth⟩

end Value
end JsonTemplate
