import JsonTemplate.Proofs.Expression.Steps
import JsonTemplate.Proofs.Template.Containers
import JsonTemplate.Proofs.Template.Loops

/-!
Every place in the parameters has a path. A value that is stored below a name, behind keys and
positions, is what the path of these keys and positions leads to, whichever of its steps are
optional; and spread alone in a string it is the result of the string, whatever it is.
-/

namespace JsonTemplate

/-- A value is stored behind these keys and positions. -/
inductive Json.Stores : Json → List Segment → Json → Prop
  | here (v : Json) : Stores v [] v
  | field {fields : Fields Json} {name : String} {v w : Json} {segments : List Segment}
      (h : Fields.get? fields name = some v) (hs : Stores v segments w) :
      Stores (.obj fields) (.key name :: segments) w
  | item {items : List Json} {i : Nat} {v w : Json} {segments : List Segment}
      (h : items[i]? = some v) (hs : Stores v segments w) :
      Stores (.arr items) (.index i :: segments) w

open Writing

theorem position?_repr (i : Nat) : position? (Nat.repr i) = some i := by
  obtain ⟨c, rest, hdigits, hc⟩ := Literal.toDigits_cons i
  have htext : (Nat.repr i).toList = c :: rest := String.toList_ofList.trans hdigits
  have hall : (c :: rest).all Char.isDigit = true := by
    rw [← hdigits, List.all_eq_true]
    exact fun d hd => Nat.isDigit_of_mem_toDigits (by decide) (by decide) hd
  have hvalue : Numeral.ofDigits (c :: rest) = i := by
    rw [← hdigits, Literal.ofDigits_toDigits]
  have hplus : c ≠ '+' := by
    rintro rfl
    cases hc
  unfold position?
  rw [htext]
  split
  · next he => exact absurd (List.cons.inj he).1 hplus
  · simp only [List.isEmpty_cons, hall, hvalue, Bool.not_true, Bool.or_self, Bool.false_eq_true,
      if_false]

theorem Json.Stores.read? {v w : Json} {segment : Segment} {segments : List Segment}
    (h : v.Stores (segment :: segments) w) :
    Value.isNullish (some v) = false ∧
      ∃ u, v.read? segment.text = some u ∧ u.Stores segments w := by
  cases h with
  | field h hs => exact ⟨rfl, _, h, hs⟩
  | @item items i u _ _ h hs =>
      have hread : Json.read? (.arr items) (Nat.repr i) = some u := by
        rw [Json.read?, position?_repr, Option.bind_some, h]
      exact ⟨rfl, u, hread, hs⟩

namespace VariablePath

variable {span : Span} {steps : List Step} {v w : Json}

theorem follow_stored (consumed : List String) (tolerant : Bool)
    (h : v.Stores (steps.map Step.segment) w) :
    follow span consumed tolerant (steps.map Step.part) (some v) = .ok (some w) := by
  induction steps generalizing v consumed tolerant with
  | nil =>
      cases h
      rfl
  | cons s rest ih =>
      obtain ⟨hpresent, u, hread, hrest⟩ := Json.Stores.read? h
      have hu : (some v : Value).bind (·.read? s.part.name) = some u := hread
      rw [List.map_cons, follow, if_neg (Bool.eq_false_iff.1 hpresent), hu]
      exact ih _ _ hrest

theorem resolve_stored {root : String} {optional : Bool} {parameters : Fields Json}
    (h : (Json.obj parameters).Stores (.key root :: steps.map Step.segment) w) :
    (placePath root optional steps).resolve span (.ofParameters parameters) = .ok (some w) := by
  cases h with
  | field h hs =>
      have hlookup : (Scope.ofParameters parameters).lookup root = some _ := h
      change follow span [root] optional _ ((Scope.ofParameters parameters).lookup root) = _
      rw [hlookup]
      exact follow_stored _ _ hs

end VariablePath

namespace Rules

/-- A path that is spread, alone in a string. -/
theorem reads_spread_path {p : VariablePath} {t : List Char} (h : Denotes t p) (ho : Opens t) :
    Reads interpolation ("\x7b\x7b ".toList ++ ("...".toList ++ (t ++ " \x7d\x7d".toList))) []
      (IsNode (.interpolation true [] (.path p (.empty 0)) (.empty 0))) := by
  have hstatement : Reads statement (t ++ []) ([' '] ++ "\x7d\x7d".toList)
      (IsNode (.path p (.empty 0))) := by
    rw [List.append_nil]
    exact reads_statement_operand ho (read_atom (read_denoted h)) before_close
  have hflatten : firstWord t ≠ "flatten" := fun hw => ho.2 (by rw [hw]; decide)
  exact reads_between_blanks (.yes (List.forall_mem_nil _)) .none ho.1 hflatten
    (List.nil_append _) hstatement

end Rules

namespace Template

open Evaluation Rules

/-- Whatever is stored in the parameters below a name, twenty keys and positions deep at most,
is what a string comes to that spreads the path to it, with any of the steps optional. -/
theorem expand_location {root : String} {steps : List Step} {parameters : Fields Json} {v : Json}
    (hr : IsIdentifier root.toList) (hs : ∀ s ∈ steps, s.isWritable = true)
    (hl : steps.length ≤ 19)
    (h : (Json.obj parameters).Stores (.key root :: steps.map Step.segment) v) (optional : Bool)
    (o : Options) :
    expand
        (.str ("\x7b\x7b ..." ++ String.ofList (placeText root optional steps) ++ " \x7d\x7d"))
        (.obj parameters) o
      = .ok v := by
  have hlength : steps.length < Variable.maximumLength := Nat.lt_succ_of_le hl
  have hread := reads_spread_path (denotes_placeText hr optional hs hlength)
    (opens_placeText hr optional steps)
  have htext :
      ("\x7b\x7b ..." ++ String.ofList (placeText root optional steps) ++ " \x7d\x7d").toList
        = "\x7b\x7b ".toList ++ ("...".toList ++
          (placeText root optional steps ++ " \x7d\x7d".toList)) := by
    have hopen : "\x7b\x7b ...".toList = "\x7b\x7b ".toList ++ "...".toList := rfl
    rw [String.toList_append, String.toList_append, String.toList_ofList (l := placeText _ _ _),
      hopen, List.append_assoc, List.append_assoc]
  rw [← htext] at hread
  let path : Node := .path (placePath root optional steps) (.empty 0)
  have hpath : evaluate (o.effective parameters) path .value (.ofParameters parameters)
      = .ok (.plain (some v)) := by
    rw [evaluate, VariablePath.resolve_stored h]
    rfl
  have hvalue : evaluate (o.effective parameters)
      (.template [.interpolation true [] path (.empty 0)] (.empty 0)) .value
        (.ofParameters parameters)
      = .ok ⟨some v, { spread := true }⟩ := by
    simp only [evaluate, evaluateAll]
    rw [hpath]
    rfl
  exact expand_eq_ok_iff.2 ⟨_, rootResult_of_reads hread hvalue rfl, rfl⟩

/-- A null behind a key with a dash, a position and a key that is a digit. -/
theorem expand_location_null :
    ∃ (steps : List Step) (parameters : Fields Json),
      steps = [.quoted "b-c" false, .indexed 1 true, .dotted "0" false] ∧
      parameters = [("a", .obj [("b-c", .arr [.bool true, .obj [("0", .null)]])])] ∧
      IsIdentifier "a".toList ∧ (∀ s ∈ steps, s.isWritable = true) ∧ steps.length ≤ 19 ∧
      (Json.obj parameters).Stores (.key "a" :: steps.map Step.segment) .null ∧
      expand (.str "\x7b\x7b ...a?['b-c'][1]?.0 \x7d\x7d") (.obj parameters) .none = .ok .null := by
  have hr : IsIdentifier "a".toList :=
    ⟨⟨'a', [], rfl, rfl⟩, List.forall_mem_singleton.2 rfl, by decide⟩
  have hs : ∀ s ∈ [Step.quoted "b-c" false, .indexed 1 true, .dotted "0" false],
      s.isWritable = true := by
    decide
  have hl : [Step.quoted "b-c" false, .indexed 1 true, .dotted "0" false].length ≤ 19 := by decide
  have hstored : (Json.obj [("a", .obj [("b-c", .arr [.bool true, .obj [("0", .null)]])])]).Stores
      [.key "a", .key "b-c", .index 1, .key "0"] .null :=
    .field rfl (.field rfl (.item rfl (.field rfl (.here .null))))
  have hexpand := expand_location hr hs hl hstored true .none
  exact ⟨_, _, rfl, rfl, hr, hs, hl, hstored, hexpand⟩

end Template
end JsonTemplate
