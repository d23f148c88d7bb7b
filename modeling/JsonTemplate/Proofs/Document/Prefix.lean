import JsonTemplate.Proofs.Document.Strings
import Mathlib.Data.List.Forall2

/-!
A document inside another one. Its tokens are those that it has alone, but for their paths:
each begins with the segment that leads to the document, and leads to what it led to before.
-/

namespace JsonTemplate

namespace Path

theorem lastKey?_append_key (segments : List Segment) (name : String) :
    lastKey? (segments ++ [.key name]) = some name := by
  rw [lastKey?, List.reverse_append]
  rfl

theorem lastKey?_append_index (segments : List Segment) (i : Nat) :
    lastKey? (segments ++ [.index i]) = lastKey? segments := by
  rw [lastKey?, List.reverse_append]
  rfl

theorem lastKey?_cons {segments : List Segment} {name : String} (h : lastKey? segments = some name)
    (s : Segment) : lastKey? (s :: segments) = some name := by
  rw [lastKey?] at h
  rw [lastKey?, List.reverse_cons, List.findSome?_append, h]
  rfl

/-- The path of a place in a document, and that of the place in a document around it. The
role may say that there is a value where it said nothing before. -/
structure Prefixed (s : Segment) (inner outer : Path) : Prop where
  segments : outer.segments = s :: inner.segments
  role : outer.role = inner.role ∨ inner.role = none ∧ outer.role = some .value
  named : inner.role = some .key → ∃ name, lastKey? inner.segments = some name

namespace Prefixed

variable {s : Segment} {inner outer : Path}

theorem item (h : Prefixed s inner outer) (i : Nat) :
    Prefixed s (inner.child (.index i) none) (outer.child (.index i) none) := by
  refine ⟨?_, .inl rfl, nofun⟩
  rw [child, child, h.segments, List.cons_append]

theorem key (h : Prefixed s inner outer) (name : String) (role : Role) :
    Prefixed s (inner.child (.key name) (some role)) (outer.child (.key name) (some role)) := by
  refine ⟨?_, .inl rfl, fun _ => ⟨name, lastKey?_append_key _ name⟩⟩
  rw [child, child, h.segments, List.cons_append]

/-- A character keeps the role of its string. -/
theorem char (h : Prefixed s inner outer) (i : Nat) :
    Prefixed s (inner.child (.index i) inner.role) (outer.child (.index i) outer.role) := by
  refine ⟨?_, h.role, fun hrole => ?_⟩
  · rw [child, child, h.segments, List.cons_append]
  · rw [child, lastKey?_append_index]
    exact h.named hrole

end Prefixed
end Path

/-- Both paths lead to the same, if the segment leads from one document to the other. -/
theorem Json.at?_prefixed {s : Segment} {inner outer : Path} {document around : Json}
    (h : Path.Prefixed s inner outer)
    (hd : ∀ segments, descend? (s :: segments) around = descend? segments document) :
    around.at? outer = document.at? inner := by
  obtain ⟨segments, role⟩ := inner
  obtain ⟨_, _⟩ := outer
  obtain ⟨rfl, hrole, hnamed⟩ := h
  cases role with
  | none =>
      obtain rfl | ⟨-, rfl⟩ := hrole
      · exact hd segments
      · exact hd segments
  | some role =>
      obtain rfl | ⟨hnone, -⟩ := hrole
      · cases role with
        | value => exact hd segments
        | key =>
            obtain ⟨name, hname⟩ := hnamed rfl
            change (Path.lastKey? (s :: segments)).map str = (Path.lastKey? segments).map str
            rw [hname, Path.lastKey?_cons hname]
      · cases hnone

namespace Token

/-- Tokens one by one with the same places in a document around theirs. -/
def AllPrefixed (s : Segment) : List Token → List Token → Prop :=
  List.Forall₂ fun t u => Path.Prefixed s t.path u.path

variable {s : Segment} {inner outer : Path}

theorem prefixed_mark (h : Path.Prefixed s inner outer) (kind : Kind) :
    AllPrefixed s [mark kind inner] [mark kind outer] :=
  .cons h .nil

theorem prefixed_ofChars (h : Path.Prefixed s inner outer) (text : String) (i : Nat)
    (offset : String.Pos.Raw) (cs : List Char) :
    AllPrefixed s (ofChars inner text i offset cs) (ofChars outer text i offset cs) := by
  induction cs generalizing i offset with
  | nil => exact .nil
  | cons c rest ih => exact .cons (h.char i) (ih (i + 1) (offset + c))

theorem prefixed_ofString (h : Path.Prefixed s inner outer) (text : String) :
    AllPrefixed s (ofString inner text) (ofString outer text) :=
  .cons h (List.rel_append (prefixed_ofChars h text 0 0 text.toList) (prefixed_mark h _))

mutual

theorem prefixed_ofJson {inner outer : Path} (h : Path.Prefixed s inner outer) : (v : Json) →
    AllPrefixed s (ofJson inner v) (ofJson outer v)
  | .null | .bool _ | .num _ => prefixed_mark h _
  | .str text => prefixed_ofString h text
  | .arr items => .cons h (List.rel_append (prefixed_ofItems h 0 items) (prefixed_mark h _))
  | .obj fields => .cons h (List.rel_append (prefixed_ofFields h fields) (prefixed_mark h _))

theorem prefixed_ofItems {inner outer : Path} (h : Path.Prefixed s inner outer) (i : Nat) :
    (items : List Json) → AllPrefixed s (ofItems inner i items) (ofItems outer i items)
  | [] => .nil
  | item :: rest =>
      .cons h (List.rel_append (prefixed_ofJson (h.item i) item)
        (.cons h (prefixed_ofItems h (i + 1) rest)))

theorem prefixed_ofFields {inner outer : Path} (h : Path.Prefixed s inner outer) :
    (fields : List (String × Json)) → AllPrefixed s (ofFields inner fields) (ofFields outer fields)
  | [] => .nil
  | (name, v) :: rest => by
      have hmarks : ∀ first second : Kind, AllPrefixed s [mark first inner, mark second inner]
          [mark first outer, mark second outer] := fun _ _ => .cons h (.cons h .nil)
      rw [ofFields, ofFields]
      exact List.rel_append (List.rel_append (List.rel_append (List.rel_append (List.rel_append
        (hmarks _ _) (prefixed_ofString (h.key name .key) name)) (hmarks _ _))
        (prefixed_ofJson (h.key name .value) v)) (hmarks _ _)) (prefixed_ofFields h rest)

end

end Token

namespace Stream

theorem size_ofJson (document : Json) : (ofJson document).size = document.tokenCount := by
  rw [ofJson, List.size_toArray, Token.length_ofJson]

/-- The tokens at one place of a document, alone and inside of another one. -/
theorem prefixed_of_holds {tokens : Stream} {place : Nat} {s : Segment} {outer : Path}
    {document : Json} (hp : Path.Prefixed s .root outer)
    (h : tokens.Holds place (Token.ofJson outer document)) {i : Nat} (hi : i < document.tokenCount) :
    ∃ t u, (ofJson document)[i]? = some t ∧ tokens[place + i]? = some u ∧
      Path.Prefixed s t.path u.path := by
  have hall := Token.prefixed_ofJson hp document
  have hinner : i < (Token.ofJson .root document).length := by rwa [Token.length_ofJson]
  have houter : i < (Token.ofJson outer document).length := by rwa [Token.length_ofJson]
  refine ⟨_, _, ?_, ?_, hall.get hinner houter⟩
  · rw [ofJson, List.getElem?_toArray, List.getElem?_eq_getElem hinner]
    rfl
  · rw [h.getElem? houter, List.getElem?_eq_getElem houter]
    rfl

end Stream
end JsonTemplate
