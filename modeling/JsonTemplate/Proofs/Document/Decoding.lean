import JsonTemplate.Document.Token

/-!
A document from the kinds of its tokens. A decoder goes through the kinds once and keeps
what is open around the place that it has come to. It finds every document in its own
stream, and nothing may follow a whole document, so that no stream begins with that of
another document.
-/

namespace JsonTemplate

namespace Decoder

/-- What is open around a value: the entry of an array, the key of an object, or the value
under a key, each with what its container held before. -/
inductive Frame
  | entry (before : List Json)
  | key (before : List (String × Json))
  | field (before : List (String × Json)) (name : String)

/-- What the decoder has read, which says what may come next. -/
inductive Progress
  /-- A value comes next. -/
  | begin
  /-- A string, as far as it has been spelled. -/
  | text (characters : List Char)
  | complete (value : Json)
  /-- An array or object between two entries. -/
  | items (before : List Json)
  | fields (before : List (String × Json))
  /-- An entry of an object: before its key, between key and value, and behind its value. -/
  | entered (before : List (String × Json))
  | named (before : List (String × Json)) (name : String)
  | valued (fields : List (String × Json))

end Decoder

/-- A decoder under way, with what is open around it from the inside out. -/
abbrev Decoder := Decoder.Progress × List Decoder.Frame

namespace Decoder

def step : Decoder → Kind → Option Decoder
  | (.begin, around), .null => some (.complete .null, around)
  | (.begin, around), .bool b => some (.complete (.bool b), around)
  | (.begin, around), .number n => some (.complete (.num n), around)
  | (.begin, around), .opening .string => some (.text [], around)
  | (.begin, around), .opening .array => some (.items [], around)
  | (.begin, around), .opening .object => some (.fields [], around)
  | (.text cs, around), .char c => some (.text (cs ++ [c]), around)
  | (.text cs, around), .closing .string => some (.complete (.str (String.ofList cs)), around)
  | (.items before, around), .opening .arrayEntry => some (.begin, .entry before :: around)
  | (.complete v, .entry before :: around), .closing .arrayEntry =>
      some (.items (before ++ [v]), around)
  | (.items before, around), .closing .array => some (.complete (.arr before), around)
  | (.fields before, around), .opening .objectEntry => some (.entered before, around)
  | (.entered before, around), .opening .objectKey => some (.begin, .key before :: around)
  | (.complete (.str name), .key before :: around), .closing .objectKey =>
      some (.named before name, around)
  | (.named before name, around), .opening .value => some (.begin, .field before name :: around)
  | (.complete v, .field before name :: around), .closing .value =>
      some (.valued (before ++ [(name, v)]), around)
  | (.valued fields, around), .closing .objectEntry => some (.fields fields, around)
  | (.fields before, around), .closing .object => some (.complete (.obj before), around)
  | _, _ => none

def run (kinds : List Kind) (d : Decoder) : Option Decoder := kinds.foldlM step d

theorem run_append (front back : List Kind) (d : Decoder) :
    run (front ++ back) d = (run front d).bind (run back) :=
  List.foldlM_append

theorem run_cons (kind : Kind) (kinds : List Kind) (d : Decoder) :
    run (kind :: kinds) d = (step d kind).bind (run kinds) :=
  List.foldlM_cons

theorem run_nil (d : Decoder) : run [] d = some d := rfl

end Decoder

/-- The document that the kinds spell out, if they spell out one and nothing else. -/
def Json.decode? (kinds : List Kind) : Option Json :=
  match Decoder.run kinds (.begin, []) with
  | some (.complete document, []) => some document
  | _ => none

/-- The kinds of the tokens of a document, without their places. -/
def Json.kinds (document : Json) : List Kind := (Stream.ofJson document).toList.map Token.kind

namespace Token

open Decoder (Frame run run_append run_cons run_nil step)

theorem run_ofChars (path : Path) (text : String) (i : Nat) (offset : String.Pos.Raw)
    (cs before : List Char) (around : List Frame) :
    run ((ofChars path text i offset cs).map kind) (.text before, around)
      = some (.text (before ++ cs), around) := by
  induction cs generalizing i offset before with
  | nil => rw [List.append_nil]; rfl
  | cons c rest ih =>
      have hs : step (.text before, around) (.char c) = some (.text (before ++ [c]), around) := rfl
      rw [ofChars, List.map_cons, run_cons, hs, Option.bind_some, ih, List.append_assoc]
      rfl

theorem run_ofString (path : Path) (s : String) (around : List Frame) :
    run ((ofString path s).map kind) (.begin, around) = some (.complete (.str s), around) := by
  simp only [ofString, mark, List.cons_append, List.map_cons, List.map_append, List.map_nil,
    run_cons, run_append, run_nil, step, Option.bind_some, run_ofChars, List.nil_append,
    String.ofList_toList]

mutual

/-- Where a value is expected, the kinds of its tokens complete it. -/
theorem run_ofJson (path : Path) (around : List Frame) : (v : Json) →
    run ((ofJson path v).map kind) (.begin, around) = some (.complete v, around)
  | .null | .bool _ | .num _ => rfl
  | .str s => run_ofString path s around
  | .arr items => by
      simp only [ofJson, mark, List.cons_append, List.map_cons, List.map_append, List.map_nil,
        run_cons, run_append, run_nil, step, Option.bind_some, run_ofItems path around 0 [] items,
        List.nil_append]
  | .obj fields => by
      simp only [ofJson, mark, List.cons_append, List.map_cons, List.map_append, List.map_nil,
        run_cons, run_append, run_nil, step, Option.bind_some, run_ofFields path around [] fields,
        List.nil_append]

theorem run_ofItems (path : Path) (around : List Frame) (i : Nat) (before : List Json) :
    (items : List Json) →
    run ((ofItems path i items).map kind) (.items before, around)
      = some (.items (before ++ items), around)
  | [] => by rw [List.append_nil]; rfl
  | item :: rest => by
      have hitem := run_ofJson (path.child (.index i) none) (.entry before :: around) item
      have hrest := run_ofItems path around (i + 1) (before ++ [item]) rest
      simp only [ofItems, mark, List.cons_append, List.map_cons, List.map_append,
        run_cons, run_append, step, Option.bind_some, hitem, hrest, List.append_assoc,
        List.nil_append]

theorem run_ofFields (path : Path) (around : List Frame) (before : List (String × Json)) :
    (fields : List (String × Json)) →
    run ((ofFields path fields).map kind) (.fields before, around)
      = some (.fields (before ++ fields), around)
  | [] => by rw [List.append_nil]; rfl
  | (name, v) :: rest => by
      have hname := run_ofString (path.child (.key name) (some .key)) name (.key before :: around)
      have hvalue := run_ofJson (path.child (.key name) (some .value))
        (.field before name :: around) v
      have hrest := run_ofFields path around (before ++ [(name, v)]) rest
      simp only [ofFields, mark, List.cons_append, List.nil_append, List.append_assoc,
        List.map_cons, List.map_append, run_cons, run_append, step, Option.bind_some, hname,
        hvalue, hrest]

end

end Token

namespace Json

theorem run_kinds (document : Json) :
    Decoder.run document.kinds (.begin, []) = some (.complete document, []) := by
  rw [kinds, Stream.ofJson, List.toList_toArray]
  exact Token.run_ofJson .root [] document

theorem decode?_kinds (document : Json) : decode? document.kinds = some document := by
  rw [decode?, run_kinds]

theorem kinds_injective {first second : Json} (h : first.kinds = second.kinds) :
    first = second := by
  have hd : decode? first.kinds = decode? second.kinds := congrArg decode? h
  rw [decode?_kinds, decode?_kinds] at hd
  exact Option.some.inj hd

/-- Behind a whole document the decoder takes nothing. -/
theorem run_complete_cons (document : Json) (kind : Kind) (kinds : List Kind) :
    Decoder.run (kind :: kinds) (.complete document, []) = none := by
  have hs : Decoder.step (.complete document, []) kind = none := by cases document <;> rfl
  rw [Decoder.run_cons, hs]
  rfl

theorem eq_of_kinds_front {first second : Json} (h : first.kinds <+: second.kinds) :
    first.kinds = second.kinds := by
  obtain ⟨rest, hrest⟩ := h
  have hrun := run_kinds second
  rw [← hrest, Decoder.run_append, run_kinds, Option.bind_some] at hrun
  cases rest with
  | nil => rw [← hrest, List.append_nil]
  | cons kind rest =>
      rw [run_complete_cons] at hrun
      cases hrun

/-- The kinds of its tokens tell a document, and tell it from every other one as soon as
they have all been seen. -/
theorem kinds_tell (first second : Json) :
    decode? first.kinds = some first ∧ (first.kinds = second.kinds ↔ first = second) ∧
      (first.kinds <+: second.kinds ↔ first = second) := by
  refine ⟨decode?_kinds first, ⟨kinds_injective, congrArg kinds⟩, fun h => ?_, fun h => ?_⟩
  · exact kinds_injective (eq_of_kinds_front h)
  · exact h ▸ List.prefix_refl _

end Json
end JsonTemplate
