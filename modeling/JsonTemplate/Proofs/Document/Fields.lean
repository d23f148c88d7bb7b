import JsonTemplate.Proofs.Document.Distinct
import Mathlib.Data.List.Nodup

/-!
Fields of an object after insertions and removals: which value a name has, and which names
there are, in which order. Names that are distinct stay so.
-/

namespace JsonTemplate
namespace Fields

variable {α : Type} {fields before after new : Fields α} {name : String} {v : α}

theorem mem_of_get? (h : fields.get? name = some v) : (name, v) ∈ fields := by
  induction fields with
  | nil => cases h
  | cons field rest ih =>
      rw [get?] at h
      split at h
      · next he =>
          cases h
          exact List.mem_cons.2 (.inl (Prod.ext he.symm rfl))
      · exact List.mem_cons_of_mem _ (ih h)

/-- Where names are distinct, a name stands for the value of its field. -/
theorem get?_of_mem (hd : fields.names.Nodup) (h : (name, v) ∈ fields) :
    fields.get? name = some v := by
  induction fields with
  | nil => cases h
  | cons field rest ih =>
      obtain ⟨hnew, hrest⟩ := List.nodup_cons.1 hd
      obtain rfl | hmem := List.mem_cons.1 h
      · exact if_pos rfl
      · have hne : field.1 ≠ name := fun he => hnew (he ▸ List.mem_map_of_mem hmem)
        rw [get?, if_neg hne, ih hrest hmem]

theorem get?_eq_none_iff : fields.get? name = none ↔ name ∉ fields.names := by
  rw [← isSome_get?_iff, Option.not_isSome_iff_eq_none]

/-- Only their order tells apart fields that are the same up to it. -/
theorem get?_perm {other : Fields α} (hd : fields.names.Nodup) (h : fields.Perm other)
    (wanted : String) : other.get? wanted = fields.get? wanted := by
  have hother : other.names.Nodup := (h.map Prod.fst).nodup_iff.1 hd
  refine Option.ext fun v => ⟨fun hv => ?_, fun hv => ?_⟩
  · exact get?_of_mem hd (h.mem_iff.2 (mem_of_get? hv))
  · exact get?_of_mem hother (h.mem_iff.1 (mem_of_get? hv))

/-! Removals -/

theorem ne_of_not_mem {field : String × α} (h : name ∉ fields.names) (hf : field ∈ fields) :
    field.1 ≠ name := by
  rintro rfl
  exact h (List.mem_map_of_mem hf)

theorem map_replace_of_not_mem (h : name ∉ fields.names) (last : String × α) :
    fields.map (fun field => if field.1 = name then last else field) = fields := by
  have hid : ∀ field ∈ fields, (if field.1 = name then last else field) = id field :=
    fun field hf => if_neg (ne_of_not_mem h hf)
  rw [List.map_congr_left hid, List.map_id]

theorem not_mem_of_nodup_split (hd : (names (before ++ (name, v) :: after)).Nodup) :
    name ∉ before.names ∧ name ∉ after.names := by
  rw [names, List.map_append, List.map_cons, List.nodup_middle] at hd
  exact not_or.1 (mt List.mem_append.2 (List.nodup_cons.1 hd).1)

/-- The last field takes the place of the one that is removed. -/
theorem erase_split (hd : (names (before ++ (name, v) :: after)).Nodup) :
    erase (before ++ (name, v) :: after) name
      = before ++ (after.getLast?.toList ++ after.dropLast) := by
  obtain ⟨hbefore, hafter⟩ := not_mem_of_nodup_split hd
  have hmem : name ∈ names (before ++ (name, v) :: after) :=
    List.mem_map_of_mem (List.mem_append_right _ List.mem_cons_self)
  rw [erase, contains, if_pos ((isSome_get?_iff _ _).2 hmem)]
  obtain rfl | ⟨init, last, rfl⟩ := List.eq_nil_or_concat' after
  · rw [List.getLast?_concat, List.dropLast_concat]
    exact (map_replace_of_not_mem hbefore _).trans (List.append_nil before).symm
  · have hinit : name ∉ names init := fun h => hafter (by
      rw [names, List.map_append]
      exact List.mem_append_left _ h)
    rw [← List.cons_append, ← List.append_assoc, List.getLast?_concat, List.dropLast_concat,
      List.getLast?_concat, List.dropLast_concat]
    simp only [List.map_append, List.map_cons, map_replace_of_not_mem hbefore,
      map_replace_of_not_mem hinit, if_true]
    rfl

theorem getLast?_perm (items : List (String × α)) :
    (items.getLast?.toList ++ items.dropLast).Perm items := by
  obtain rfl | ⟨init, last, rfl⟩ := List.eq_nil_or_concat' items
  · rfl
  · rw [List.getLast?_concat, List.dropLast_concat]
    exact List.perm_append_comm

/-- A removal leaves the order of the others as it is only where at most one of them is behind
it. -/
theorem names_erase_split_iff (hd : (names (before ++ (name, v) :: after)).Nodup) :
    names (erase (before ++ (name, v) :: after) name) = names (before ++ after) ↔
      after.length ≤ 1 := by
  rw [erase_split hd]
  simp only [names, List.map_append, List.append_cancel_left_eq]
  obtain rfl | ⟨init, last, rfl⟩ := List.eq_nil_or_concat' after
  · exact ⟨fun _ => Nat.zero_le 1, fun _ => rfl⟩
  rw [List.getLast?_concat, List.dropLast_concat]
  cases init with
  | nil => exact ⟨fun _ => Nat.le_refl 1, fun _ => rfl⟩
  | cons first rest =>
      constructor
      · intro h
        have hlast : last.1 = first.1 := (List.cons.inj h).1
        have hafter : (names (first :: (rest ++ [last]))).Nodup :=
          hd.sublist (((List.sublist_cons_self _ _).trans (List.sublist_append_right _ _)).map _)
        have hmem : last.1 ∈ names (rest ++ [last]) :=
          List.mem_map_of_mem (List.mem_append_right _ List.mem_cons_self)
        exact absurd (hlast ▸ hmem) (List.nodup_cons.1 hafter).1
      · intro h
        rw [List.length_append, List.length_cons, List.length_singleton] at h
        omega

/-- The fields of the other names, in their order. -/
def without (fields : Fields α) (name : String) : Fields α :=
  fields.filter fun field => field.1 ≠ name

theorem without_of_not_mem (h : name ∉ fields.names) : fields.without name = fields :=
  List.filter_eq_self.2 fun _ hf => decide_eq_true (ne_of_not_mem h hf)

theorem without_split (hd : (names (before ++ (name, v) :: after)).Nodup) :
    without (before ++ (name, v) :: after) name = before ++ after := by
  obtain ⟨hbefore, hafter⟩ := not_mem_of_nodup_split hd
  have hskip : without ((name, v) :: after) name = without after name :=
    List.filter_cons_of_neg fun h => of_decide_eq_true h rfl
  have happend : without (before ++ (name, v) :: after) name
      = without before name ++ without ((name, v) :: after) name := List.filter_append ..
  rw [happend, hskip, without_of_not_mem hbefore, without_of_not_mem hafter]

/-- A removal takes nothing but the field of its name. -/
theorem erase_perm (hd : fields.names.Nodup) (name : String) :
    (fields.erase name).Perm (fields.without name) := by
  by_cases h : name ∈ fields.names
  · obtain ⟨⟨_, v⟩, hmem, rfl⟩ := List.mem_map.1 h
    obtain ⟨before, after, rfl⟩ := List.append_of_mem hmem
    rw [erase_split hd, without_split hd]
    exact (getLast?_perm after).append_left before
  · rw [erase_of_not_mem h, without_of_not_mem h]

theorem nodup_names_without (hd : fields.names.Nodup) (name : String) :
    (fields.without name).names.Nodup :=
  hd.sublist (List.filter_sublist.map Prod.fst)

theorem nodup_names_erase (hd : fields.names.Nodup) (name : String) :
    (fields.erase name).names.Nodup :=
  ((erase_perm hd name).map Prod.fst).nodup_iff.2 (nodup_names_without hd name)

theorem get?_without (fields : Fields α) (name wanted : String) :
    (fields.without name).get? wanted = if name = wanted then none else fields.get? wanted := by
  induction fields with
  | nil => exact (ite_self none).symm
  | cons field rest ih =>
      obtain ⟨other, v⟩ := field
      by_cases ho : other = name
      · subst ho
        have hskip : without ((other, v) :: rest) other = without rest other :=
          List.filter_cons_of_neg fun h => of_decide_eq_true h rfl
        rw [hskip, ih]
        split
        · rfl
        · next hne => rw [get?, if_neg hne]
      · have hkeep : without ((other, v) :: rest) name = (other, v) :: without rest name :=
          List.filter_cons_of_pos (decide_eq_true ho)
        rw [hkeep, get?, ih, get?]
        by_cases hw : other = wanted
        · subst hw
          rw [if_pos rfl, if_pos rfl, if_neg (Ne.symm ho)]
        · rw [if_neg hw, if_neg hw]

theorem get?_erase (hd : fields.names.Nodup) (name wanted : String) :
    (fields.erase name).get? wanted = if name = wanted then none else fields.get? wanted := by
  rw [get?_perm (nodup_names_without hd name) (erase_perm hd name).symm, get?_without]

/-! Several insertions -/

theorem insertAll_cons (fields new : Fields α) (field : String × α) :
    fields.insertAll (field :: new) = (fields.insert field.1 field.2).insertAll new :=
  rfl

theorem nodup_names_insertAll (hd : fields.names.Nodup) (new : Fields α) :
    (fields.insertAll new).names.Nodup := by
  induction new generalizing fields with
  | nil => exact hd
  | cons field rest ih => exact ih (nodup_names_insert fields field.1 field.2 hd)

theorem get?_insertAll (fields : Fields α) (hd : new.names.Nodup) (wanted : String) :
    (fields.insertAll new).get? wanted = (new.get? wanted).or (fields.get? wanted) := by
  induction new generalizing fields with
  | nil => rfl
  | cons field rest ih =>
      obtain ⟨hnew, hrest⟩ := List.nodup_cons.1 hd
      rw [insertAll_cons, ih _ hrest, get?_insert, get?]
      split
      · next he =>
          subst he
          rw [get?_eq_none_iff.2 hnew]
          rfl
      · rfl

end Fields
end JsonTemplate
