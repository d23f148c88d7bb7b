import JsonTemplate.Fault
import JsonTemplate.Proofs.Document.Strings

/-!
Characters of a stream. Inside a string every token is a character of it, so what the
string spells from a place on is what the tokens from there on are.
-/

namespace JsonTemplate

namespace Stream

/-- The span is that of these tokens, which stand at `start`. -/
def Covers (tokens : Stream) (start : Nat) (ts : List Token) (span : Span) : Prop :=
  span = ⟨start, start + ts.length⟩ ∧ tokens.Holds start ts

/-- The tokens of a span are these characters. -/
def SpellsOut (tokens : Stream) (span : Span) (text : List Char) : Prop :=
  span.stop = span.start + text.length ∧
    ∀ i c, text[i]? = some c → (tokens[span.start + i]?).map Token.kind = some (.char c)

end Stream

theorem Token.kinds_ofChars (path : Path) (text : String) (i : Nat) (offset : String.Pos.Raw)
    (cs : List Char) : (ofChars path text i offset cs).map Token.kind = cs.map Kind.char := by
  induction cs generalizing i offset with
  | nil => rfl
  | cons c rest ih => rw [ofChars, List.map_cons, List.map_cons, ih]

namespace Stream.Spells

variable {tokens : Stream} {start : Nat} {s : String}

theorem kind (h : tokens.Spells start s) {i : Nat} {c : Char} (hi : s.toList[i]? = some c) :
    (tokens[start + 1 + i]?).map Token.kind = some (.char c) := by
  obtain ⟨path, hp⟩ := h
  have hlt : i < s.toList.length := (List.getElem?_eq_some_iff.1 hi).1
  have hchars : ((Token.ofChars path s 0 0 s.toList)[i]?).map Token.kind = some (.char c) := by
    rw [← List.getElem?_map, Token.kinds_ofChars, List.getElem?_map, hi]
    rfl
  have hget := hp.getElem? (i := i + 1) (by rw [Token.length_ofString]; omega)
  rw [Token.ofString, List.cons_append, List.getElem?_cons_succ,
    List.getElem?_append_left (by rwa [Token.length_ofChars])] at hget
  rw [Nat.add_right_comm, Nat.add_assoc, hget, hchars]

/-- What a string spells at a place inside of it. -/
theorem charsAt_inner (hc : tokens.Coherent) (h : tokens.Spells start s) {place : Nat}
    (hs : start + 1 ≤ place) (ht : place ≤ start + 1 + s.toList.length) :
    tokens.charsAt place = s.toList.drop (place - (start + 1)) := by
  have hle : place - (start + 1) ≤ (tokens.charsAt (start + 1)).length := by
    rw [h.charsAt]
    omega
  have := hc.charsAt_drop (start + 1) (place - (start + 1)) hle
  rwa [Nat.add_sub_cancel' hs, h.charsAt] at this

/-- The tokens from one place of a string to another are what it spells between them. -/
theorem spellsOut (hc : tokens.Coherent) (h : tokens.Spells start s) {place stop : Nat}
    (hs : start + 1 ≤ place) (hle : place ≤ stop) (ht : stop ≤ start + 1 + s.toList.length) :
    tokens.SpellsOut ⟨place, stop⟩ ((tokens.charsAt place).take (stop - place)) := by
  rw [h.charsAt_inner hc hs (Nat.le_trans hle ht)]
  refine ⟨?_, fun i c hi => ?_⟩
  · simp only [List.length_take, List.length_drop]
    omega
  · have hlt := (List.getElem?_eq_some_iff.1 hi).1
    rw [List.length_take] at hlt
    rw [List.getElem?_take_of_lt (by omega), List.getElem?_drop] at hi
    have hplace : start + 1 + (place - (start + 1) + i) = place + i := by omega
    rw [← hplace]
    exact h.kind hi

end Stream.Spells
end JsonTemplate
