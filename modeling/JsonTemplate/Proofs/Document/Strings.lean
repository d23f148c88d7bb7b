import JsonTemplate.Proofs.Document.Coherence

/-!
The strings of a document, values and keys, in the order of their tokens. `strings` lists
them along the document, each with the place of its opening token; `Token.strings` lists
them along the tokens, and the two lists are the same.
-/

namespace JsonTemplate
namespace Json

mutual

/-- How many tokens a document has. -/
def tokenCount : Json → Nat
  | null | bool _ | num _ => 1
  | str s => s.toList.length + 2
  | arr items => 1 + tokenCountItems items + 1
  | obj fields => 1 + tokenCountFields fields + 1

def tokenCountItems : List Json → Nat
  | [] => 0
  | item :: rest => 1 + tokenCount item + 1 + tokenCountItems rest

def tokenCountFields : List (String × Json) → Nat
  | [] => 0
  | (name, value) :: rest =>
      2 + (name.toList.length + 2) + 2 + tokenCount value + 2 + tokenCountFields rest

end

mutual

/-- The strings of a document whose first token stands at `start`. -/
def strings (start : Nat) : Json → List (Nat × String)
  | null | bool _ | num _ => []
  | str s => [(start, s)]
  | arr items => stringsItems (start + 1) items
  | obj fields => stringsFields (start + 1) fields

def stringsItems (start : Nat) : List Json → List (Nat × String)
  | [] => []
  | item :: rest =>
      strings (start + 1) item ++ stringsItems (start + 1 + tokenCount item + 1) rest

def stringsFields (start : Nat) : List (String × Json) → List (Nat × String)
  | [] => []
  | (name, value) :: rest =>
      (start + 2, name)
        :: strings (start + 2 + (name.toList.length + 2) + 2) value
        ++ stringsFields (start + 2 + (name.toList.length + 2) + 2 + tokenCount value + 2) rest

end

end Json

namespace Token

theorem length_ofChars (path : Path) (text : String) (i : Nat) (offset : String.Pos.Raw)
    (cs : List Char) : (ofChars path text i offset cs).length = cs.length := by
  induction cs generalizing i offset with
  | nil => rfl
  | cons c rest ih => simp only [ofChars, List.length_cons, ih]

theorem length_ofString (path : Path) (s : String) :
    (ofString path s).length = s.toList.length + 2 := by
  simp [ofString, length_ofChars]

mutual

theorem length_ofJson (path : Path) : (v : Json) → (ofJson path v).length = v.tokenCount
  | .null | .bool _ | .num _ => rfl
  | .str s => length_ofString path s
  | .arr items => by
      simp only [ofJson, List.cons_append, List.length_cons, List.length_append, List.length_nil,
        length_ofItems path 0 items, Json.tokenCount]
      omega
  | .obj fields => by
      simp only [ofJson, List.cons_append, List.length_cons, List.length_append, List.length_nil,
        length_ofFields path fields, Json.tokenCount]
      omega

theorem length_ofItems (path : Path) (i : Nat) : (items : List Json) →
    (ofItems path i items).length = Json.tokenCountItems items
  | [] => rfl
  | item :: rest => by
      simp only [ofItems, List.cons_append, List.length_cons, List.length_append,
        length_ofJson _ item, length_ofItems path (i + 1) rest, Json.tokenCountItems]
      omega

theorem length_ofFields (path : Path) : (fields : List (String × Json)) →
    (ofFields path fields).length = Json.tokenCountFields fields
  | [] => rfl
  | (name, value) :: rest => by
      simp only [ofFields, List.cons_append, List.nil_append, List.length_cons,
        List.length_append, List.length_nil, length_ofString, length_ofJson _ value,
        length_ofFields path rest, Json.tokenCountFields]
      omega

end

/-- The strings that some tokens open, each with its place. -/
def strings : Nat → List Token → List (Nat × String)
  | _, [] => []
  | start, t :: ts =>
      if t.kind.tag = .opening .string then
        (start, String.ofList (spelled ts [])) :: strings (start + 1) ts
      else strings (start + 1) ts

theorem strings_opening {b : Bracket} (path : Path) (start : Nat) (ts : List Token)
    (h : b ≠ .string) :
    strings start (mark (.opening b) path :: ts) = strings (start + 1) ts :=
  if_neg fun ho => h (Tag.opening.inj ho)

theorem strings_closing (b : Bracket) (path : Path) (start : Nat) (ts : List Token) :
    strings start (mark (.closing b) path :: ts) = strings (start + 1) ts :=
  if_neg nofun

theorem strings_ofChars (path : Path) (text : String) (i : Nat) (offset : String.Pos.Raw)
    (cs : List Char) (start : Nat) (ts : List Token) :
    strings start (ofChars path text i offset cs ++ ts) = strings (start + cs.length) ts := by
  induction cs generalizing i offset start with
  | nil => rfl
  | cons c rest ih =>
      simp only [ofChars, List.cons_append, strings, Kind.tag, reduceCtorEq, if_false, ih,
        List.length_cons]
      rw [Nat.add_assoc, Nat.add_comm 1]

theorem strings_ofString (path : Path) (s : String) (start : Nat) (ts : List Token) :
    strings start (ofString path s ++ ts)
      = (start, s) :: strings (start + (s.toList.length + 2)) ts := by
  have ho : strings start (ofString path s ++ ts)
      = (start, String.ofList (spelled (ofString path s ++ ts).tail []))
        :: strings (start + 1) (ofString path s ++ ts).tail := if_pos rfl
  rw [ho]
  simp only [ofString, List.cons_append, List.append_assoc, List.nil_append, List.tail_cons]
  rw [spelled_ofChars path (Source.leaves_start s) 0 _ _ fun _ => rfl, String.ofList_toList,
    strings_ofChars, strings_closing, Nat.add_right_comm start]
  rfl

mutual

theorem strings_ofJson (path : Path) (start : Nat) : (v : Json) → (ts : List Token) →
    strings start (ofJson path v ++ ts) = v.strings start ++ strings (start + v.tokenCount) ts
  | .null, ts | .bool _, ts | .num _, ts => if_neg nofun
  | .str s, ts => strings_ofString path s start ts
  | .arr items, ts => by
      simp only [ofJson, List.cons_append, List.append_assoc, List.nil_append]
      rw [strings_opening _ _ _ (by decide), strings_ofItems path 0 (start + 1) items,
        strings_closing, Json.strings, Json.tokenCount]
      simp only [Nat.add_assoc]
  | .obj fields, ts => by
      simp only [ofJson, List.cons_append, List.append_assoc, List.nil_append]
      rw [strings_opening _ _ _ (by decide), strings_ofFields path (start + 1) fields,
        strings_closing, Json.strings, Json.tokenCount]
      simp only [Nat.add_assoc]

theorem strings_ofItems (path : Path) (i start : Nat) : (items : List Json) →
    (ts : List Token) → strings start (ofItems path i items ++ ts)
      = Json.stringsItems start items ++ strings (start + Json.tokenCountItems items) ts
  | [], _ => rfl
  | item :: rest, ts => by
      simp only [ofItems, List.cons_append, List.append_assoc]
      rw [strings_opening _ _ _ (by decide), strings_ofJson _ (start + 1) item,
        strings_closing, strings_ofItems path (i + 1) _ rest,
        Json.stringsItems, Json.tokenCountItems]
      simp only [Nat.add_assoc, List.append_assoc]

theorem strings_ofFields (path : Path) (start : Nat) : (fields : List (String × Json)) →
    (ts : List Token) → strings start (ofFields path fields ++ ts)
      = Json.stringsFields start fields ++ strings (start + Json.tokenCountFields fields) ts
  | [], _ => rfl
  | (name, value) :: rest, ts => by
      simp only [ofFields, List.cons_append, List.append_assoc, List.nil_append]
      rw [strings_opening _ _ _ (by decide), strings_opening _ _ _ (by decide),
        strings_ofString, strings_closing,
        strings_opening _ _ _ (by decide), strings_ofJson _ _ value, strings_closing, strings_closing,
        strings_ofFields path _ rest, Json.stringsFields, Json.tokenCountFields]
      simp only [Nat.add_assoc, Nat.reduceAdd, List.append_assoc, List.cons_append]

end

end Token

namespace Stream

variable {tokens : Stream}

theorem Holds.getElem? {start : Nat} {ts : List Token} (h : tokens.Holds start ts) {i : Nat}
    (hi : i < ts.length) : tokens[start + i]? = ts[i]? := by
  induction ts generalizing start i with
  | nil => cases hi
  | cons t ts ih =>
      cases i with
      | zero => exact h.1
      | succ i =>
          have := ih h.2 (Nat.lt_of_succ_lt_succ hi)
          rwa [Nat.add_right_comm] at this

theorem Holds.tagAt? {start : Nat} {ts : List Token} (h : tokens.Holds start ts) {i : Nat}
    (hi : i < ts.length) : tokens.tagAt? (start + i) = (ts.map fun t => t.kind.tag)[i]? := by
  rw [Stream.tagAt?, h.getElem? hi, List.getElem?_map]

theorem Holds.size {start : Nat} {t : Token} {ts : List Token} (h : tokens.Holds start (t :: ts)) :
    start + (t :: ts).length ≤ tokens.size := by
  induction ts generalizing start t with
  | nil => exact (Array.getElem?_eq_some_iff.1 h.1).1
  | cons u ts ih =>
      have := ih h.2
      simp only [List.length_cons] at this ⊢
      omega

end Stream

namespace Token

theorem tags_ofChars (path : Path) (text : String) (i : Nat) (offset : String.Pos.Raw)
    (cs : List Char) :
    (ofChars path text i offset cs).map (fun t => t.kind.tag) = List.replicate cs.length .char := by
  induction cs generalizing i offset with
  | nil => rfl
  | cons c rest ih =>
      rw [ofChars, List.map_cons, ih, List.length_cons, List.replicate_succ]
      rfl

theorem tags_ofString (path : Path) (s : String) :
    (ofString path s).map (fun t => t.kind.tag)
      = .opening .string :: (List.replicate s.toList.length .char ++ [.closing .string]) := by
  rw [ofString, List.cons_append, List.map_cons, List.map_append, tags_ofChars]
  rfl

end Token

/-! Where a string stands -/

/-- The tokens of this string stand at `start`. -/
def Stream.Spells (tokens : Stream) (start : Nat) (s : String) : Prop :=
  ∃ path, tokens.Holds start (Token.ofString path s)

namespace Stream.Spells

variable {tokens : Stream} {start : Nat} {s : String}

theorem tagAt? (h : tokens.Spells start s) : tokens.tagAt? start = some (.opening .string) := by
  obtain ⟨path, hp⟩ := h
  have := hp.tagAt? (i := 0) (by simp [Token.ofString])
  rwa [Token.tags_ofString] at this

theorem tagAt?_inner (h : tokens.Spells start s) {i : Nat} (hi : i < s.toList.length) :
    tokens.tagAt? (start + 1 + i) = some .char := by
  obtain ⟨path, hp⟩ := h
  have := hp.tagAt? (i := 1 + i) (by rw [Token.length_ofString]; omega)
  rw [Token.tags_ofString, Nat.add_comm 1, List.getElem?_cons_succ,
    List.getElem?_append_left (by simpa using hi), List.getElem?_replicate, if_pos hi] at this
  rwa [Nat.add_assoc, Nat.add_comm 1]

theorem tagAt?_last (h : tokens.Spells start s) :
    tokens.tagAt? (start + 1 + s.toList.length) = some (.closing .string) := by
  obtain ⟨path, hp⟩ := h
  have := hp.tagAt? (i := 1 + s.toList.length) (by rw [Token.length_ofString]; omega)
  rw [Token.tags_ofString, Nat.add_comm 1, List.getElem?_cons_succ,
    List.getElem?_append_right (by simp), List.length_replicate, Nat.sub_self] at this
  rwa [Nat.add_assoc, Nat.add_comm 1]

theorem charsAt (h : tokens.Spells start s) : tokens.charsAt (start + 1) = s.toList := by
  obtain ⟨path, hp⟩ := h
  have hleaves := Source.leaves_start s
  rw [Token.ofString, List.cons_append] at hp
  rw [Stream.charsAt]
  cases hs : s.toList with
  | nil =>
      rw [hs] at hp
      rw [hp.2.1]
      rfl
  | cons c rest =>
      rw [hs] at hp hleaves
      rw [hp.2.1]
      exact hleaves.rest

theorem size (h : tokens.Spells start s) : start + s.toList.length + 2 ≤ tokens.size := by
  obtain ⟨path, hp⟩ := h
  have hl := Token.length_ofString path s
  rw [Token.ofString, List.cons_append] at hp hl
  have := hp.size
  omega

end Stream.Spells

theorem Stream.spells_str (s : String) : (Stream.ofJson (.str s)).Spells 0 s :=
  ⟨.root, Stream.holds_ofJson (.str s)⟩

namespace Json

variable {tokens : Stream}

mutual

/-- A string that is listed stands where it is listed. -/
theorem spells_of_mem_strings {place : Nat} {s : String} (path : Path) (start : Nat) :
    (v : Json) → tokens.Holds start (Token.ofJson path v) → (place, s) ∈ v.strings start →
    tokens.Spells place s
  | .null, _, hp | .bool _, _, hp | .num _, _, hp => nomatch hp
  | .str s, h, hp => by
      cases List.mem_singleton.1 hp
      exact ⟨path, h⟩
  | .arr items, h, hp => by
      rw [Token.ofJson, List.cons_append] at h
      exact spells_of_mem_stringsItems path 0 (start + 1) items
        ((Stream.holds_append _ _ _).1 h.2).1 hp
  | .obj fields, h, hp => by
      rw [Token.ofJson, List.cons_append] at h
      exact spells_of_mem_stringsFields path (start + 1) fields
        ((Stream.holds_append _ _ _).1 h.2).1 hp

theorem spells_of_mem_stringsItems {place : Nat} {s : String} (path : Path) (i start : Nat) :
    (items : List Json) → tokens.Holds start (Token.ofItems path i items) →
    (place, s) ∈ stringsItems start items → tokens.Spells place s
  | [], _, hp => nomatch hp
  | item :: rest, h, hp => by
      rw [Token.ofItems, List.cons_append] at h
      obtain ⟨hitem, hrest⟩ := (Stream.holds_append _ _ _).1 h.2
      rw [Token.length_ofJson] at hrest
      exact (List.mem_append.1 hp).elim (spells_of_mem_strings _ (start + 1) item hitem)
        (spells_of_mem_stringsItems path (i + 1) _ rest hrest.2)

theorem spells_of_mem_stringsFields {place : Nat} {s : String} (path : Path) (start : Nat) :
    (fields : List (String × Json)) → tokens.Holds start (Token.ofFields path fields) →
    (place, s) ∈ stringsFields start fields → tokens.Spells place s
  | [], _, hp => nomatch hp
  | (name, v) :: rest, h, hp => by
      simp only [Token.ofFields, List.cons_append, List.nil_append, List.append_assoc] at h
      obtain ⟨hname, hvalue⟩ := (Stream.holds_append _ _ _).1 h.2.2
      rw [Token.length_ofString] at hvalue
      obtain ⟨hv, hrest⟩ := (Stream.holds_append _ _ _).1 hvalue.2.2
      rw [Token.length_ofJson] at hrest
      obtain hp | hp := List.mem_append.1 hp
      · obtain hp | hp := List.mem_cons.1 hp
        · cases hp
          exact ⟨_, hname⟩
        · exact spells_of_mem_strings _ _ v hv hp
      · exact spells_of_mem_stringsFields path _ rest hrest.2.2 hp

end

end Json

/-- Along the document and along its tokens the strings are the same. -/
theorem Stream.strings_ofJson (document : Json) :
    Token.strings 0 (Stream.ofJson document).toList = document.strings 0 := by
  have := Token.strings_ofJson .root 0 document []
  simpa [Stream.ofJson, Token.strings] using this

end JsonTemplate
