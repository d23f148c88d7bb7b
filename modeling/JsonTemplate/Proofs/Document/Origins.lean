import JsonTemplate.Fault
import JsonTemplate.Proofs.Document.Fields
import JsonTemplate.Proofs.Document.Prefix

/-!
What the tokens of a document are made for. `Json.emitted` lists their kinds, each with the
part of the document that it belongs to, and says nothing of paths. The path of every token
leads back to this part, so that an error always has a place to show.
-/

namespace JsonTemplate
namespace Json

/-- The tokens of a string. All belong to the string, in a value and in a key alike. -/
def emittedText (s : String) : List (Kind × Json) :=
  (.opening .string, str s) :: s.toList.map (fun c => (.char c, str s))
    ++ [(.closing .string, str s)]

mutual

/-- The kinds of the tokens of a document, each with what it is made for. -/
def emitted : Json → List (Kind × Json)
  | null => [(.null, null)]
  | bool b => [(.bool b, bool b)]
  | num n => [(.number n, num n)]
  | str s => emittedText s
  | arr items =>
      (.opening .array, arr items) :: emittedItems (arr items) items
        ++ [(.closing .array, arr items)]
  | obj fields =>
      (.opening .object, obj fields) :: emittedFields (obj fields) fields
        ++ [(.closing .object, obj fields)]

/-- The marks around an item belong to the whole list. -/
def emittedItems (whole : Json) : List Json → List (Kind × Json)
  | [] => []
  | item :: rest =>
      (.opening .arrayEntry, whole) :: emitted item
        ++ (.closing .arrayEntry, whole) :: emittedItems whole rest

/-- The marks around a field, its key and its value belong to the whole object. -/
def emittedFields (whole : Json) : List (String × Json) → List (Kind × Json)
  | [] => []
  | (name, value) :: rest =>
      [(.opening .objectEntry, whole), (.opening .objectKey, whole)]
        ++ emittedText name
        ++ [(.closing .objectKey, whole), (.opening .value, whole)]
        ++ emitted value
        ++ [(.closing .value, whole), (.closing .objectEntry, whole)]
        ++ emittedFields whole rest

end

/-- A step more leads on from where the segments lead. What leads to a string may already
count its characters, so that only another position can follow. -/
theorem descend?_snoc {segments : List Segment} {document v : Json} {s : Segment}
    (h : descend? segments document = some v) (hs : ∀ text, v = str text → ∃ i, s = .index i) :
    descend? (segments ++ [s]) document = descend? [s] v := by
  induction segments generalizing document with
  | nil =>
      cases h
      rfl
  | cons first rest ih =>
      cases first with
      | index i =>
          cases document with
          | str text =>
              cases h
              obtain ⟨j, rfl⟩ := hs text rfl
              rfl
          | arr items =>
              obtain ⟨item, hitem, hrest⟩ := Option.bind_eq_some_iff.1 h
              rw [List.cons_append, descend?, hitem, Option.bind_some, ih hrest]
          | null | bool _ | num _ | obj _ => cases h
      | key name =>
          cases document with
          | obj fields =>
              obtain ⟨value, hvalue, hrest⟩ := Option.bind_eq_some_iff.1 h
              rw [List.cons_append, descend?, hvalue, Option.bind_some, ih hrest]
          | null | bool _ | num _ | str _ | arr _ => cases h

/-- The path of a value leads to it. -/
structure LeadsTo (document : Json) (p : Path) (v : Json) : Prop where
  role : p.role ≠ some .key
  target : descend? p.segments document = some v

theorem at?_of_role {p : Path} (h : p.role ≠ some .key) (document : Json) :
    document.at? p = descend? p.segments document := by
  obtain ⟨segments, role⟩ := p
  cases role with
  | none => rfl
  | some role =>
      cases role with
      | value => rfl
      | key => exact absurd rfl h

theorem at?_key (document : Json) (p : Path) (name : String) :
    document.at? (p.child (.key name) (some .key)) = some (str name) := by
  change (Path.lastKey? (p.segments ++ [.key name])).map str = some (str name)
  rw [Path.lastKey?_append_key]
  rfl

/-- A character leads to its string. -/
theorem at?_char {document : Json} {p : Path} {s : String} (h : document.at? p = some (str s))
    (i : Nat) : document.at? (p.child (.index i) p.role) = some (str s) := by
  by_cases hrole : p.role = some .key
  · have hchild : (p.child (.index i) p.role).role = some .key := hrole
    rw [at?, hrole] at h
    rw [at?, hchild]
    change (Path.lastKey? (p.segments ++ [.index i])).map str = some (str s)
    rwa [Path.lastKey?_append_index]
  · rw [at?_of_role hrole] at h
    rw [at?_of_role (p := p.child (.index i) p.role) hrole]
    exact descend?_snoc h fun _ _ => ⟨i, rfl⟩

namespace LeadsTo

variable {document v : Json} {p : Path}

theorem at? (h : LeadsTo document p v) : document.at? p = some v :=
  (at?_of_role h.role document).trans h.target

theorem item {items : List Json} {i : Nat} (h : LeadsTo document p (arr items))
    (hi : items[i]? = some v) : LeadsTo document (p.child (.index i) none) v := by
  refine ⟨nofun, (descend?_snoc h.target nofun).trans ?_⟩
  rw [descend?, hi]
  rfl

theorem field {fields : Fields Json} {name : String} (h : LeadsTo document p (obj fields))
    (hv : fields.get? name = some v) :
    LeadsTo document (p.child (.key name) (some .value)) v := by
  refine ⟨nofun, (descend?_snoc h.target nofun).trans ?_⟩
  rw [descend?, hv]
  rfl

end LeadsTo
end Json

namespace Token

open Json (LeadsTo emitted emittedText emittedItems emittedFields)

/-- A token by its kind and by what its path leads to. -/
def traced (document : Json) (t : Token) : Kind × Option Json := (t.kind, document.at? t.path)

/-- A token as one that leads to what it is made for. -/
def found (e : Kind × Json) : Kind × Option Json := (e.1, some e.2)

variable {document : Json} {p : Path}

theorem traced_mark {v : Json} (h : document.at? p = some v) (kind : Kind) :
    traced document (mark kind p) = found (kind, v) :=
  congrArg (Prod.mk kind) h

theorem traced_ofChars {s : String} (h : document.at? p = some (.str s)) (text : String)
    (i : Nat) (offset : String.Pos.Raw) (cs : List Char) :
    (ofChars p text i offset cs).map (traced document)
      = cs.map fun c => found (.char c, .str s) := by
  induction cs generalizing i offset with
  | nil => rfl
  | cons c rest ih =>
      rw [ofChars, List.map_cons, List.map_cons, ih]
      exact congrArg (fun v => (Kind.char c, v) :: _) (Json.at?_char h i)

theorem traced_ofString {s : String} (h : document.at? p = some (.str s)) :
    (ofString p s).map (traced document) = (emittedText s).map found := by
  simp only [ofString, emittedText, List.map_append, List.map_cons, List.map_nil, List.map_map,
    traced_mark h, traced_ofChars h]
  rfl

mutual

theorem traced_ofJson {p : Path} : (v : Json) → v.Distinct → LeadsTo document p v →
    (ofJson p v).map (traced document) = v.emitted.map found
  | .null, _, h | .bool _, _, h | .num _, _, h => by
      rw [ofJson, emitted, List.map_singleton, List.map_singleton, traced_mark h.at?]
  | .str s, _, h => traced_ofString h.at?
  | .arr items, hd, h => by
      simp only [ofJson, emitted, List.map_append, List.map_cons, List.map_nil, traced_mark h.at?]
      rw [traced_ofItems h 0 items rfl hd]
  | .obj fields, hd, h => by
      simp only [ofJson, emitted, List.map_append, List.map_cons, List.map_nil, traced_mark h.at?]
      rw [traced_ofFields h fields (fun _ hm => Fields.get?_of_mem hd.1 hm) hd.2]

/-- The items from position `i` of a list on. -/
theorem traced_ofItems {p : Path} {all : List Json} (h : LeadsTo document p (.arr all)) (i : Nat) :
    (items : List Json) → all.drop i = items → Json.DistinctItems items →
    (ofItems p i items).map (traced document) = (emittedItems (.arr all) items).map found
  | [], _, _ => rfl
  | item :: rest, hi, hd => by
      have hitem : all[i]? = some item := by
        rw [← Nat.add_zero i, ← List.getElem?_drop, hi]
        rfl
      have hrest : all.drop (i + 1) = rest := by
        rw [← List.drop_drop, hi]
        rfl
      simp only [ofItems, emittedItems, List.map_append, List.map_cons, traced_mark h.at?]
      rw [traced_ofJson item hd.1 (h.item hitem), traced_ofItems h (i + 1) rest hrest hd.2]

theorem traced_ofFields {p : Path} {all : Fields Json} (h : LeadsTo document p (.obj all)) :
    (fields : List (String × Json)) → (∀ field ∈ fields, all.get? field.1 = some field.2) →
    Json.DistinctFields fields →
    (ofFields p fields).map (traced document) = (emittedFields (.obj all) fields).map found
  | [], _, _ => rfl
  | (name, v) :: rest, hall, hd => by
      obtain ⟨hv, hrest⟩ := List.forall_mem_cons.1 hall
      simp only [ofFields, emittedFields, List.map_append, List.map_cons, List.map_nil,
        traced_mark h.at?]
      rw [traced_ofString (Json.at?_key document p name), traced_ofJson v hd.1 (h.field hv),
        traced_ofFields h rest hrest hd.2]

end

end Token

theorem TemplateError.locate_of_found {x : Failure} {tokens : Stream} {document v : Json} {t : Token}
    (ht : tokens[min x.head.span.start (tokens.size - 1)]? = some t)
    (hv : document.at? t.path = some v) :
    locate x tokens document = .failed t.path (shortened v.compact) x := by
  rw [locate, ht, Option.map_some, Option.getD_some, hv]
  rfl

theorem Json.tokenCount_pos (document : Json) : 0 < document.tokenCount := by
  cases document with
  | null | bool _ | num _ => exact Nat.one_pos
  | str _ | arr _ | obj _ => exact Nat.succ_pos _

namespace Stream

theorem traced_ofJson {document : Json} (hd : document.Distinct) :
    (ofJson document).toList.map (Token.traced document) = document.emitted.map Token.found :=
  Token.traced_ofJson document hd ⟨nofun, rfl⟩

theorem exists_at? {document : Json} (hd : document.Distinct) {t : Token}
    (h : t ∈ (ofJson document).toList) : ∃ v, document.at? t.path = some v := by
  have hmem : Token.traced document t ∈ document.emitted.map Token.found :=
    traced_ofJson hd ▸ List.mem_map_of_mem h
  obtain ⟨e, -, he⟩ := List.mem_map.1 hmem
  exact ⟨e.2, (congrArg Prod.snd he).symm⟩

/-- Every token of a document leads back to what it is made for, and a failure is located at
a part of the document, whatever its span. -/
theorem traces_back {document : Json} (hd : document.Distinct) :
    (ofJson document).toList.map (fun t => (t.kind, document.at? t.path))
        = document.emitted.map (fun e => (e.1, some e.2)) ∧
      ∀ x : Failure, ∃ t v,
        (ofJson document)[min x.head.span.start ((ofJson document).size - 1)]? = some t ∧
        document.at? t.path = some v ∧
        TemplateError.locate x (ofJson document) document
          = .failed t.path (TemplateError.shortened v.compact) x := by
  refine ⟨traced_ofJson hd, fun x => ?_⟩
  -- The place is cut down to that of the last token, and there is a token.
  have hlt : min x.head.span.start ((ofJson document).size - 1) < (ofJson document).size := by
    have hpos := document.tokenCount_pos
    rw [← size_ofJson] at hpos
    omega
  have ht := Array.getElem?_eq_getElem hlt
  obtain ⟨v, hv⟩ := exists_at? hd (Array.getElem_mem_toList hlt)
  exact ⟨_, v, ht, hv, TemplateError.locate_of_found ht hv⟩

/-- A name that reads as a position, and a string in lists below a key. -/
theorem traces_back_nested :
    ∃ document : Json, document = .obj [("0", .arr [.arr [.str "a"], .obj [("", .null)]])] ∧
      document.Distinct ∧
      (ofJson document).toList.map (fun t => (t.kind, document.at? t.path))
        = document.emitted.map (fun e => (e.1, some e.2)) ∧
      ∃ t v, (ofJson document)[10]? = some t ∧ document.at? t.path = some v ∧
        TemplateError.locate (.defect "" (.empty 10)) (ofJson document) document
          = .failed t.path (TemplateError.shortened v.compact) (.defect "" (.empty 10)) := by
  have hd : Json.Distinct (.obj [("0", .arr [.arr [.str "a"], .obj [("", .null)]])]) := by
    simp [Json.Distinct, Json.DistinctFields, Json.DistinctItems, Fields.names]
  exact ⟨_, rfl, hd, (traces_back hd).1, (traces_back hd).2 (.defect "" (.empty 10))⟩

end Stream
end JsonTemplate
