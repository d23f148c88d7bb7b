import JsonTemplate.Proofs.Document.Spelling

/-!
Runs of characters. What a string still spells at a character is cut out of the string at
the place of the character's first byte; the tokens say it one character at a time, up to
the first token that is none. Both agree all along a document, for its tokens are those of
its strings, each string in one piece, with marks between them.
-/

namespace JsonTemplate

/-- The character that a kind carries. -/
def Kind.char? : Kind → Option Char
  | char c => some c
  | _ => none

namespace Token

/-- The characters that tokens carry one behind the other, up to the first that carries
none. -/
def charRun : List Token → List Char
  | [] => []
  | t :: ts =>
      match t.kind.char? with
      | some c => c :: charRun ts
      | none => []

/-- Marks that carry no character, and whole strings. -/
inductive Laid : List Token → Prop
  | nil : Laid []
  | mark {kind : Kind} (path : Path) {ts : List Token} (hk : kind.char? = none) (h : Laid ts) :
      Laid (mark kind path :: ts)
  | string (path : Path) (s : String) {ts : List Token} (h : Laid ts) :
      Laid (ofString path s ++ ts)

mutual

theorem laid_ofJson (path : Path) {ts : List Token} (h : Laid ts) : (v : Json) →
    Laid (ofJson path v ++ ts)
  | .null | .bool _ | .num _ => .mark path rfl h
  | .str s => .string path s h
  | .arr items => by
      rw [ofJson, List.cons_append, List.cons_append, List.append_assoc]
      exact .mark path rfl (laid_ofItems path (.mark path rfl h) 0 items)
  | .obj fields => by
      rw [ofJson, List.cons_append, List.cons_append, List.append_assoc]
      exact .mark path rfl (laid_ofFields path (.mark path rfl h) fields)

theorem laid_ofItems (path : Path) {ts : List Token} (h : Laid ts) (i : Nat) :
    (items : List Json) → Laid (ofItems path i items ++ ts)
  | [] => h
  | item :: rest => by
      rw [ofItems, List.cons_append, List.cons_append, List.append_assoc]
      exact .mark path rfl
        (laid_ofJson _ (.mark path rfl (laid_ofItems path h (i + 1) rest)) item)

theorem laid_ofFields (path : Path) {ts : List Token} (h : Laid ts) :
    (fields : List (String × Json)) → Laid (ofFields path fields ++ ts)
  | [] => h
  | (name, value) :: rest => by
      have hrest := laid_ofFields path h rest
      simp only [ofFields, List.cons_append, List.nil_append, List.append_assoc]
      exact .mark path rfl (.mark path rfl (.string _ name (.mark path rfl (.mark path rfl
        (laid_ofJson _ (.mark path rfl (.mark path rfl hrest)) value)))))

end

theorem mem_strings_cons {start : Nat} (t : Token) {ts : List Token} {x : Nat × String}
    (h : x ∈ strings (start + 1) ts) : x ∈ strings start (t :: ts) := by
  rw [strings]
  split
  · exact List.mem_cons_of_mem _ h
  · exact h

end Token

namespace Stream

variable {tokens : Stream} {start p : Nat}

def kindAt? (tokens : Stream) (p : Nat) : Option Kind := tokens[p]?.map Token.kind

/-- The character that the token at a place carries. -/
def charAt? (tokens : Stream) (p : Nat) : Option Char := (tokens.kindAt? p).bind Kind.char?

/-- The characters of the tokens from a place on, up to the first token that is none. -/
def charRun (tokens : Stream) (p : Nat) : List Char := Token.charRun (tokens.toList.drop p)

theorem charRun_eq (tokens : Stream) (p : Nat) :
    tokens.charRun p =
      match tokens.charAt? p with
      | some c => c :: tokens.charRun (p + 1)
      | none => [] := by
  have hhead : (tokens.toList.drop p).head? = tokens[p]? := by
    rw [List.head?_drop, Array.getElem?_toList]
  rw [charAt?, kindAt?, ← hhead, charRun, charRun, ← List.tail_drop]
  cases tokens.toList.drop p with
  | nil => rfl
  | cons t ts => rfl

theorem charRun_eq_nil : tokens.charRun p = [] ↔ tokens.charAt? p = none := by
  rw [charRun_eq]
  cases tokens.charAt? p <;> simp

theorem charRun_eq_cons {c : Char} {rest : List Char} :
    tokens.charRun p = c :: rest ↔ tokens.charAt? p = some c ∧ tokens.charRun (p + 1) = rest := by
  rw [charRun_eq]
  cases tokens.charAt? p <;> simp

theorem charAt?_eq_some {c : Char} :
    tokens.charAt? p = some c ↔ tokens.kindAt? p = some (.char c) := by
  rw [charAt?]
  rcases tokens.kindAt? p with _ | (_ | _ | _ | _ | _ | _) <;> simp [Kind.char?]

/-- The tokens that a run begins with. -/
theorem spellsOut_of_prefix {text : List Char} (h : text <+: tokens.charRun p) :
    tokens.SpellsOut ⟨p, p + text.length⟩ text := by
  refine ⟨rfl, fun i c hi => ?_⟩
  induction text generalizing p i with
  | nil => cases hi
  | cons first text ih =>
      obtain ⟨tail, htail⟩ := h
      obtain ⟨hchar, hrest⟩ := charRun_eq_cons.1 htail.symm
      cases i with
      | zero =>
          cases hi
          exact charAt?_eq_some.1 hchar
      | succ i =>
          have hplace : p + (i + 1) = p + 1 + i := Nat.add_right_comm p i 1
          dsimp only
          rw [hplace]
          exact ih ⟨tail, hrest.symm⟩ i hi

/-- A run is told by its own tokens and by the one behind them. -/
theorem charRun_congr {first second : Stream} {p q : Nat}
    (h : ∀ i ≤ (first.charRun p).length, second.kindAt? (q + i) = first.kindAt? (p + i)) :
    second.charRun q = first.charRun p := by
  generalize hrun : first.charRun p = cs at h ⊢
  induction cs generalizing p q with
  | nil =>
      have hkind : second.kindAt? q = first.kindAt? p := h 0 (Nat.zero_le _)
      rw [charRun_eq_nil] at hrun ⊢
      rwa [charAt?, hkind]
  | cons c rest ih =>
      obtain ⟨hchar, hrest⟩ := charRun_eq_cons.1 hrun
      have hkind : second.kindAt? q = first.kindAt? p := h 0 (Nat.zero_le _)
      refine charRun_eq_cons.2 ⟨by rwa [charAt?, hkind], ih hrest fun i hi => ?_⟩
      have hnext := h (i + 1) (Nat.succ_le_succ hi)
      rwa [Nat.add_right_comm q, Nat.add_right_comm p]

/-- A token that is no character, or a place behind the last token. -/
def Plain (tokens : Stream) (p : Nat) : Prop := tokens.charsAt p = [] ∧ tokens.charAt? p = none

theorem plain_of_size_le (h : tokens.size ≤ p) : tokens.Plain p := by
  refine ⟨charsAt_eq_nil p h, ?_⟩
  rw [charAt?, kindAt?, Array.getElem?_eq_none h]
  rfl

theorem plain_of_mark {kind : Kind} {path : Path} (hk : kind.char? = none)
    (h : tokens[p]? = some (.mark kind path)) : tokens.Plain p := by
  refine ⟨?_, ?_⟩
  · rw [charsAt, h]
    rfl
  · rw [charAt?, kindAt?, h]
    exact hk

/-- The place is that of a character of one of the strings. -/
def Enclosed (strings : List (Nat × String)) (p : Nat) : Prop :=
  ∃ place s, (place, s) ∈ strings ∧ place < p ∧ p ≤ place + s.toList.length

theorem Enclosed.mono {front back : List (Nat × String)} (h : Enclosed front p)
    (hm : ∀ x ∈ front, x ∈ back) : Enclosed back p := by
  obtain ⟨place, s, hs, hp⟩ := h
  exact ⟨place, s, hm _ hs, hp⟩

theorem Spells.plain_first {s : String} (h : tokens.Spells start s) : tokens.Plain start := by
  obtain ⟨path, hp⟩ := h
  rw [Token.ofString, List.cons_append] at hp
  exact plain_of_mark rfl hp.1

theorem Spells.plain_last {s : String} (h : tokens.Spells start s) :
    tokens.Plain (start + 1 + s.toList.length) := by
  obtain ⟨path, hp⟩ := h
  rw [Token.ofString, List.cons_append] at hp
  obtain ⟨-, hlast⟩ := (holds_append _ _ _).1 hp.2
  rw [Token.length_ofChars] at hlast
  exact plain_of_mark rfl hlast.1

theorem plain_or_enclosed_of_laid {ts : List Token} (hl : Token.Laid ts)
    (h : tokens.Holds start ts) (hs : start ≤ p) (hp : p < start + ts.length) :
    tokens.Plain p ∨ Enclosed (Token.strings start ts) p := by
  induction hl generalizing start with
  | nil => exact absurd hs (Nat.not_le_of_lt hp)
  | @mark kind path ts hk _ ih =>
      obtain rfl | hlt := Nat.eq_or_lt_of_le hs
      · exact .inl (plain_of_mark hk h.1)
      · rw [List.length_cons] at hp
        refine (ih h.2 hlt (by omega)).imp_right fun hw => hw.mono fun x hx => ?_
        exact Token.mem_strings_cons _ hx
  | @string path s ts _ ih =>
      obtain ⟨hfirst, hrest⟩ := (holds_append _ _ _).1 h
      have hspells : tokens.Spells start s := ⟨path, hfirst⟩
      rw [Token.length_ofString] at hrest
      rw [List.length_append, Token.length_ofString] at hp
      rw [Token.strings_ofString]
      -- The opening token, a character, the closing token, or a place behind the string.
      obtain rfl | hlt := Nat.eq_or_lt_of_le hs
      · exact .inl hspells.plain_first
      by_cases hin : p ≤ start + s.toList.length
      · exact .inr ⟨start, s, List.mem_cons_self, hlt, hin⟩
      by_cases hlast : p = start + 1 + s.toList.length
      · exact .inl (hlast ▸ hspells.plain_last)
      refine (ih hrest (by omega) (by omega)).imp_right fun hw => hw.mono fun x hx => ?_
      exact List.mem_cons_of_mem _ hx

theorem plain_or_enclosed (document : Json) (p : Nat) :
    (ofJson document).Plain p ∨ Enclosed (document.strings 0) p := by
  by_cases hp : p < (ofJson document).size
  · have hlaid := Token.laid_ofJson .root .nil document
    rw [List.append_nil] at hlaid
    have hsize : p < 0 + (Token.ofJson .root document).length := by
      rwa [Nat.zero_add, ← List.size_toArray]
    rw [← strings_ofJson document, ofJson, List.toList_toArray]
    exact plain_or_enclosed_of_laid hlaid (holds_ofJson document) (Nat.zero_le p) hsize
  · exact .inl (plain_of_size_le (Nat.le_of_not_lt hp))

/-- Only inside of strings there are characters. -/
theorem enclosed_of_charRun (document : Json) (p : Nat) (h : (ofJson document).charRun p ≠ []) :
    Enclosed (document.strings 0) p :=
  (plain_or_enclosed document p).resolve_left fun hplain => h (charRun_eq_nil.2 hplain.2)

theorem spells_of_mem {document : Json} {place : Nat} {s : String}
    (h : (place, s) ∈ document.strings 0) : (ofJson document).Spells place s :=
  Json.spells_of_mem_strings .root 0 document (holds_ofJson document) h

/-- What the string at a place still spells begins with the character of the token there. -/
theorem head?_charsAt (document : Json) (p : Nat) :
    ((ofJson document).charsAt p).head? = (ofJson document).charAt? p := by
  obtain ⟨hchars, hchar⟩ | ⟨place, s, hs, hlt, hle⟩ := plain_or_enclosed document p
  · rw [hchars, hchar]
    rfl
  · have hspells := spells_of_mem hs
    have hi : p - (place + 1) < s.toList.length := by omega
    have hkind := hspells.kind (List.getElem?_eq_getElem hi)
    rw [Nat.add_sub_cancel' hlt] at hkind
    rw [hspells.charsAt_inner (coherent_ofJson document) hlt (by omega), List.head?_drop,
      List.getElem?_eq_getElem hi, charAt?, kindAt?, hkind]
    rfl

/-- What the string at a place still spells is the run of characters from there on. -/
theorem charsAt_eq_charRun (document : Json) (p : Nat) :
    (ofJson document).charsAt p = (ofJson document).charRun p := by
  -- Along the characters: behind the first one the string spells the others.
  generalize hchars : (ofJson document).charsAt p = cs
  induction cs generalizing p with
  | nil =>
      have hhead := head?_charsAt document p
      rw [hchars, List.head?_nil] at hhead
      exact (charRun_eq_nil.2 hhead.symm).symm
  | cons c rest ih =>
      have hhead := head?_charsAt document p
      rw [hchars, List.head?_cons] at hhead
      have hrest := ih (p + 1) (coherent_ofJson document p c rest hchars)
      exact (charRun_eq_cons.2 ⟨hhead.symm, hrest.symm⟩).symm

/-- Inside of a string the run goes on up to the closing token. -/
theorem length_charRun {document : Json} {place : Nat} {s : String}
    (h : (place, s) ∈ document.strings 0) (hlt : place < p) (hle : p ≤ place + s.toList.length) :
    p + ((ofJson document).charRun p).length = place + 1 + s.toList.length := by
  rw [← charsAt_eq_charRun,
    (spells_of_mem h).charsAt_inner (coherent_ofJson document) hlt (by omega), List.length_drop]
  omega

end Stream
end JsonTemplate
