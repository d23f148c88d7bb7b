/-!
Fields of an object in the order of their insertion. Writing a name that is present keeps
its place; removing one moves the last field into the hole. No operation makes a name
occur twice.
-/

namespace JsonTemplate

abbrev Fields (α : Type) := List (String × α)

namespace Fields

variable {α : Type}

def names (fields : Fields α) : List String := fields.map Prod.fst

def get? : Fields α → String → Option α
  | [], _ => none
  | (name, value) :: rest, wanted => if name = wanted then some value else get? rest wanted

def contains (fields : Fields α) (name : String) : Bool := (fields.get? name).isSome

def insert : Fields α → String → α → Fields α
  | [], name, value => [(name, value)]
  | (other, old) :: rest, name, value =>
      if other = name then (name, value) :: rest else (other, old) :: insert rest name value

def erase (fields : Fields α) (name : String) : Fields α :=
  if fields.contains name then
    match fields.getLast? with
    | none => []
    | some last =>
        fields.dropLast.map fun field => if field.1 = name then last else field
  else fields

theorem get?_insert (fields : Fields α) (name wanted : String) (value : α) :
    (fields.insert name value).get? wanted
      = if name = wanted then some value else fields.get? wanted := by
  induction fields with
  | nil => rfl
  | cons field rest ih =>
      obtain ⟨other, old⟩ := field
      by_cases h : other = name
      · subst h
        by_cases hw : other = wanted <;> simp [insert, get?, hw]
      · by_cases hw : other = wanted
        · subst hw
          have hn : name ≠ other := fun hn => h hn.symm
          simp [insert, get?, h, hn]
        · simp only [insert, get?, h, hw, if_false, ih]

theorem isSome_get?_iff (fields : Fields α) (name : String) :
    (fields.get? name).isSome = true ↔ name ∈ fields.names := by
  induction fields with
  | nil => simp [get?, names]
  | cons field rest ih =>
      obtain ⟨other, old⟩ := field
      by_cases h : other = name
      · simp [get?, names, h]
      · have hs : name ≠ other := fun hs => h hs.symm
        simpa [get?, names, h, hs] using ih

/-- A new name comes last. -/
theorem names_insert (fields : Fields α) (name : String) (value : α) :
    (fields.insert name value).names
      = if name ∈ fields.names then fields.names else fields.names ++ [name] := by
  induction fields with
  | nil => rfl
  | cons field rest ih =>
      obtain ⟨other, old⟩ := field
      by_cases h : other = name
      · simp [insert, names, h]
      · have hs : name ≠ other := fun hs => h hs.symm
        simp only [names] at ih
        by_cases hm : name ∈ rest.map Prod.fst <;> simp_all [insert, names]

/-- A field with a new name comes behind the others. -/
theorem insert_of_not_mem {fields : Fields α} {name : String} (h : name ∉ fields.names)
    (value : α) : fields.insert name value = fields ++ [(name, value)] := by
  induction fields with
  | nil => rfl
  | cons field rest ih =>
      obtain ⟨other, old⟩ := field
      obtain ⟨hne, hrest⟩ := not_or.1 (mt List.mem_cons.2 h)
      rw [insert, if_neg (Ne.symm hne), ih hrest, List.cons_append]

theorem erase_of_not_mem {fields : Fields α} {name : String} (h : name ∉ fields.names) :
    fields.erase name = fields :=
  if_neg (mt (isSome_get?_iff fields name).1 h)

theorem nodup_names_insert (fields : Fields α) (name : String) (value : α)
    (h : fields.names.Nodup) : (fields.insert name value).names.Nodup := by
  rw [names_insert]
  split
  · exact h
  · next hm =>
      rw [List.nodup_append]
      exact ⟨h, by simp, fun a ha b hb hab => hm (List.mem_singleton.1 hb ▸ hab ▸ ha)⟩

/-- Later values of a name replace earlier ones in place. -/
def ofList (entries : List (String × α)) : Fields α :=
  entries.foldl (fun fields entry => fields.insert entry.1 entry.2) []

def insertAll (fields entries : Fields α) : Fields α :=
  entries.foldl (fun fields entry => fields.insert entry.1 entry.2) fields

end Fields
end JsonTemplate
