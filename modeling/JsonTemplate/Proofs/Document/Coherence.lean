import JsonTemplate.Document.Token

/-!
What a stream spells from one place to the next. A character is found in its string by the
bytes before it, and what is cut out of the string there are the characters from it on. In
the stream of a document a character is followed by the rest of its string, so that reading
on by as many places as there are characters in a text leaves what follows the text.
-/

namespace JsonTemplate

namespace Source

/-- From the place on the text is these characters. -/
def Leaves (s : Source) (cs : List Char) : Prop :=
  ∃ front : String, s.text = front ++ String.ofList cs ∧ s.offset = front.rawEndPos

theorem leaves_start (s : String) : Leaves ⟨s, 0⟩ s.toList :=
  ⟨"", by rw [String.empty_append, String.ofList_toList], rfl⟩

theorem Leaves.next {text : String} {offset : String.Pos.Raw} {c : Char} {cs : List Char}
    (h : Leaves ⟨text, offset⟩ (c :: cs)) : Leaves ⟨text, offset + c⟩ cs := by
  obtain ⟨front, rfl, rfl⟩ := h
  refine ⟨front.push c, ?_, ?_⟩
  · rw [← String.toList_inj]
    simp
  · simp

theorem Leaves.rest {s : Source} {cs : List Char} (h : s.Leaves cs) : s.rest = cs := by
  obtain ⟨front, htext, hoffset⟩ := h
  have hvalid : s.offset.IsValid s.text :=
    String.Pos.Raw.isValid_iff_exists_append.2 ⟨front, String.ofList cs, htext, hoffset⟩
  have hplace : s.text.pos? s.offset = some ⟨s.offset, hvalid⟩ := by
    have hslice : s.offset.isValidForSlice s.text.toSlice = true := by
      rwa [String.Pos.Raw.isValidForSlice_eq_true_iff, String.Pos.Raw.isValidForSlice_toSlice_iff]
    rw [String.pos?, String.Slice.pos?, dif_pos hslice]
    rfl
  have hsplits : String.Pos.Splits ⟨s.offset, hvalid⟩ front (String.ofList cs) :=
    ⟨htext, hoffset⟩
  rw [Source.rest, hplace]
  dsimp only
  rw [(String.Pos.splits _).eq_right hsplits, String.toList_ofList]

/-- No character begins at the second byte of one. -/
example : Source.rest ⟨"é!", ⟨1⟩⟩ = [] ∧ Source.rest ⟨"é!", ⟨2⟩⟩ = ['!'] := ⟨rfl, rfl⟩

end Source

namespace Token

@[simp] theorem rest_mark (kind : Kind) (path : Path) : (mark kind path).rest = [] := rfl

/-- What the string spells at the first of some tokens, or `after` if there are none. -/
def spelled : List Token → List Char → List Char
  | [], after => after
  | t :: _, _ => t.rest

/-- Every character is followed by the rest of its string; `after` is what the token
behind the last one spells. -/
def Linked : List Token → List Char → Prop
  | [], _ => True
  | t :: ts, after => (t.rest ≠ [] → spelled ts after = t.rest.tail) ∧ Linked ts after

theorem linked_append (front back : List Token) (after : List Char) :
    Linked (front ++ back) after ↔ Linked front (spelled back after) ∧ Linked back after := by
  induction front with
  | nil => simp [Linked]
  | cons t ts ih =>
      have hs : spelled (ts ++ back) after = spelled ts (spelled back after) := by
        cases ts <;> rfl
      simp only [List.cons_append, Linked, ih, hs, and_assoc]

theorem linked_mark (kind : Kind) (path : Path) (ts : List Token) (after : List Char) :
    Linked (mark kind path :: ts) after ↔ Linked ts after := by
  simp [Linked]

theorem spelled_ofChars (path : Path) {text : String} {offset : String.Pos.Raw} {cs : List Char}
    (h : Source.Leaves ⟨text, offset⟩ cs) (i : Nat) (ts : List Token) (after : List Char)
    (hts : cs = [] → spelled ts after = []) :
    spelled (ofChars path text i offset cs ++ ts) after = cs := by
  cases cs with
  | nil => exact hts rfl
  | cons c rest => exact h.rest

theorem linked_ofChars (path : Path) {text : String} {offset : String.Pos.Raw} {cs : List Char}
    (h : Source.Leaves ⟨text, offset⟩ cs) (i : Nat) :
    Linked (ofChars path text i offset cs) [] := by
  induction cs generalizing i offset with
  | nil => trivial
  | cons c rest ih =>
      refine ⟨fun _ => ?_, ih h.next (i + 1)⟩
      have hrest : Token.rest ⟨.char c, path.child (.index i) path.role, some ⟨text, offset⟩⟩
          = c :: rest := h.rest
      have hnext := spelled_ofChars path h.next (i + 1) [] [] fun _ => rfl
      rw [List.append_nil] at hnext
      rw [hrest, List.tail_cons]
      exact hnext

theorem linked_ofString (path : Path) (s : String) (after : List Char) :
    Linked (ofString path s) after := by
  rw [ofString, List.cons_append, linked_mark, linked_append]
  exact ⟨linked_ofChars path (Source.leaves_start s) 0, by simp [Linked]⟩

mutual

theorem linked_ofJson (path : Path) : (v : Json) → (after : List Char) →
    Linked (ofJson path v) after
  | .null, after | .bool _, after | .num _, after => by simp [ofJson, Linked]
  | .str s, after => linked_ofString path s after
  | .arr items, after => by
      rw [ofJson, List.cons_append, linked_mark, linked_append]
      exact ⟨linked_ofItems path 0 items _, by simp [Linked]⟩
  | .obj fields, after => by
      rw [ofJson, List.cons_append, linked_mark, linked_append]
      exact ⟨linked_ofFields path fields _, by simp [Linked]⟩

theorem linked_ofItems (path : Path) (i : Nat) : (items : List Json) → (after : List Char) →
    Linked (ofItems path i items) after
  | [], _ => trivial
  | item :: rest, after => by
      rw [ofItems, List.cons_append, linked_mark, linked_append, linked_mark]
      exact ⟨linked_ofJson _ item _, linked_ofItems path (i + 1) rest after⟩

theorem linked_ofFields (path : Path) : (fields : List (String × Json)) → (after : List Char) →
    Linked (ofFields path fields) after
  | [], _ => trivial
  | (name, value) :: rest, after => by
      simp only [ofFields, List.cons_append, List.nil_append, List.append_assoc, linked_mark,
        linked_append]
      exact ⟨linked_ofString _ name _, linked_ofJson _ value _, linked_ofFields path rest after⟩

end

end Token

namespace Stream

/-- Behind a character the string spells the rest. -/
def Coherent (tokens : Stream) : Prop :=
  ∀ position c rest, tokens.charsAt position = c :: rest → tokens.charsAt (position + 1) = rest

theorem charsAt_toArray_cons (t : Token) (ts : List Token) (position : Nat) :
    charsAt (t :: ts).toArray (position + 1) = charsAt ts.toArray position := by
  simp [charsAt]

theorem charsAt_toArray_zero (ts : List Token) :
    charsAt ts.toArray 0 = Token.spelled ts [] := by
  cases ts <;> simp [charsAt, Token.spelled]

theorem coherent_of_linked (ts : List Token) (h : Token.Linked ts []) :
    Coherent ts.toArray := by
  induction ts with
  | nil => intro position c rest hc; simp [charsAt] at hc
  | cons t ts ih =>
      intro position c rest hc
      cases position with
      | zero =>
          rw [charsAt_toArray_zero] at hc
          have hr : t.rest = c :: rest := hc
          rw [charsAt_toArray_cons, charsAt_toArray_zero, h.1 (by simp [hr]), hr]
          rfl
      | succ position =>
          rw [charsAt_toArray_cons] at hc ⊢
          exact ih h.2 position c rest hc

theorem coherent_ofJson (document : Json) : (ofJson document).Coherent :=
  coherent_of_linked _ (Token.linked_ofJson .root document [])

variable {tokens : Stream}

theorem charsAt_eq_nil (position : Nat) (h : tokens.size ≤ position) :
    tokens.charsAt position = [] := by
  simp [charsAt, h]

theorem lt_size_of_charsAt {position : Nat} {c : Char} {rest : List Char}
    (h : tokens.charsAt position = c :: rest) : position < tokens.size := by
  apply Nat.lt_of_not_le
  intro hn
  rw [charsAt_eq_nil position hn] at h
  contradiction

theorem Coherent.charsAt_add (hc : tokens.Coherent) (text rest : List Char) (position : Nat)
    (h : tokens.charsAt position = text ++ rest) :
    tokens.charsAt (position + text.length) = rest := by
  induction text generalizing position with
  | nil => exact h
  | cons c text ih =>
      have hn : tokens.charsAt (position + 1) = text ++ rest := hc position c _ h
      have := ih (position + 1) hn
      rwa [List.length_cons, Nat.add_comm text.length, ← Nat.add_assoc]

theorem Coherent.charsAt_drop (hc : tokens.Coherent) (position count : Nat)
    (h : count ≤ (tokens.charsAt position).length) :
    tokens.charsAt (position + count) = (tokens.charsAt position).drop count := by
  have hs := hc.charsAt_add ((tokens.charsAt position).take count)
    ((tokens.charsAt position).drop count) position (List.take_append_drop _ _).symm
  rwa [List.length_take_of_le h] at hs

/-- What a string spells fits into the stream. -/
theorem Coherent.charsAt_length_le (hc : tokens.Coherent) (position : Nat) :
    (tokens.charsAt position).length ≤ tokens.size - position := by
  cases hs : tokens.charsAt position with
  | nil => simp
  | cons c rest =>
      have hlast := hc.charsAt_drop position rest.length (by simp [hs])
      rw [hs] at hlast
      cases hd : (c :: rest).drop rest.length with
      | nil =>
          rw [List.drop_eq_nil_iff, List.length_cons] at hd
          omega
      | cons d _ =>
          have := lt_size_of_charsAt (hlast.trans hd)
          simp only [List.length_cons]
          omega

/-- The stream has these tokens from a position on. -/
def Holds (tokens : Stream) : Nat → List Token → Prop
  | _, [] => True
  | position, t :: ts => tokens[position]? = some t ∧ tokens.Holds (position + 1) ts

theorem holds_append (position : Nat) (front back : List Token) :
    tokens.Holds position (front ++ back) ↔
      tokens.Holds position front ∧ tokens.Holds (position + front.length) back := by
  induction front generalizing position with
  | nil => simp [Holds]
  | cons t ts ih =>
      simp only [List.cons_append, Holds, ih, List.length_cons, and_assoc]
      rw [Nat.add_assoc, Nat.add_comm 1]

theorem holds_toArray (front back : List Token) :
    Holds (front ++ back).toArray front.length back := by
  induction back generalizing front with
  | nil => trivial
  | cons t ts ih =>
      refine ⟨by simp, ?_⟩
      simpa using ih (front ++ [t])

theorem holds_ofJson (document : Json) :
    (ofJson document).Holds 0 (Token.ofJson .root document) :=
  holds_toArray [] _

end Stream
end JsonTemplate
