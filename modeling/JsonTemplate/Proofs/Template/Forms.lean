import JsonTemplate.Proofs.Evaluation.MixedText

/-!
Texts with names between them. A string of any number of texts, with a name in brackets between
each two, comes to the texts with the values of the names between them: no character of a text is
lost or moved, whatever it looks like.
-/

namespace JsonTemplate

open Writing

/-- A text, and behind it as often as wanted a name with a text behind it. -/
inductive Form
  | text (t : String)
  | gap (t name : String) (rest : Form)

/-- A value that holds no others. -/
def Json.isLeaf : Json → Bool
  | .arr _ | .obj _ => false
  | _ => true

namespace Form

/-- The texts with something put in for each name. -/
def fill (insert : String → String) : Form → String
  | text t => t
  | gap t name rest => t ++ (insert name ++ rest.fill insert)

/-- The form as it is written, each name in brackets between two blanks. -/
def written : Form → String := fill fun name => "\x7b\x7b " ++ name ++ " \x7d\x7d"

def names : Form → List String
  | text _ => []
  | gap _ name rest => name :: rest.names

def texts : Form → List String
  | text t => [t]
  | gap t _ rest => t :: rest.texts

/-- No text opens brackets, alone or with those of the name behind it. -/
inductive IsReadable : Form → Prop
  | text {t : String} (ht : IsPlain t) : IsReadable (.text t)
  | gap {t name : String} {rest : Form} (ht : IsPlain t) (he : t.toList.getLast? ≠ some '\x7b')
      (hn : IsIdentifier name.toList) (hr : IsReadable rest) : IsReadable (.gap t name rest)

/-- What is put in for a name: the text of its value, and nothing for null or no value. -/
def insertion (parameters : Fields Json) (name : String) : String :=
  match Fields.get? parameters name with
  | some (.str s) => s
  | some (.bool b) => if b then "true" else "false"
  | some (.num n) => n.text
  | _ => ""

/-! The parts of the string -/

def textPart (t : String) : List Node := if t = "" then [] else [.text t (.empty 0)]

def namePart (name : String) : Node :=
  .interpolation false [] (.path ⟨[⟨name, false⟩]⟩ (.empty 0)) (.empty 0)

def parts : Form → List Node
  | text t => textPart t
  | gap t name rest => textPart t ++ namePart name :: rest.parts

end Form

namespace Rules

/-- A text that opens no brackets is read up to the brackets behind it. -/
theorem widthUntil_before {t more : List Char} (ht : ¬ "\x7b\x7b".toList <:+: t)
    (he : t.getLast? ≠ some '\x7b') :
    widthUntil "\x7b\x7b".toList (t ++ ("\x7b\x7b".toList ++ more)) = t.length := by
  have hbrackets : "\x7b\x7b".toList = ['\x7b', '\x7b'] := rfl
  rw [hbrackets] at ht ⊢
  induction t with
  | nil => rfl
  | cons c t ih =>
      obtain ⟨hstart, hlater⟩ := not_or.1 (mt List.infix_cons_iff.2 ht)
      have hno : ¬ ['\x7b', '\x7b'] <+: c :: (t ++ (['\x7b', '\x7b'] ++ more)) := by
        intro hprefix
        obtain ⟨rfl, hnext⟩ := List.cons_prefix_cons.1 hprefix
        cases t with
        | nil => exact he rfl
        | cons d t =>
            obtain ⟨rfl, -⟩ := List.cons_prefix_cons.1 hnext
            exact hstart ⟨t, rfl⟩
      have hlast : t.getLast? ≠ some '\x7b' := by
        cases t with
        | nil => nofun
        | cons d t => rwa [List.getLast?_cons_cons] at he
      rw [List.cons_append, widthUntil, if_neg (mt List.isPrefixOf_iff_prefix.1 hno),
        ih hlater hlast, List.length_cons]

theorem reads_textPart {t : String} {more : List Char} {nodes : List Node}
    (hw : widthUntil "\x7b\x7b".toList (t.toList ++ more) = t.toList.length)
    (h : Reads (.many (.oneOf [interpolation, plainText])) more [] (IsNodes nodes)) :
    Reads (.many (.oneOf [interpolation, plainText])) (t.toList ++ more) []
      (IsNodes (Form.textPart t ++ nodes)) := by
  unfold Form.textPart
  split
  · next hempty =>
      rw [hempty]
      exact h
  · next hne =>
      have htext : t.toList ≠ [] := mt String.toList_eq_nil_iff.1 hne
      have hread := reads_part_text htext hw
      rw [String.ofList_toList] at hread
      exact reads_nodes_more htext hread h

/-- A name between two blanks in brackets. -/
theorem writes_namePart {name : String} (hn : IsIdentifier name.toList) :
    WritesInterpolation (Form.namePart name) ("\x7b\x7b " ++ name ++ " \x7d\x7d").toList := by
  have hb := gap_blank
  have hpath : WritesPath ⟨[⟨String.ofList name.toList, false⟩]⟩ (name.toList ++ (mark false ++ [])) :=
    .mk hn .nil (by decide)
  have hwritten := WritesInterpolation.mk hb .no .none (.operand (.atom (.path hpath))) hb .none
  rw [String.ofList_toList] at hwritten
  rw [String.toList_append, String.toList_append]
  simpa [Form.namePart, mark] using hwritten

/-- The parts of a form are read off the string, each text as it stands. -/
theorem reads_form {f : Form} (hf : f.IsReadable) :
    Reads (.many (.oneOf [interpolation, plainText])) f.written.toList [] (IsNodes f.parts) := by
  induction hf with
  | @text t ht =>
      have hwidth : widthUntil "\x7b\x7b".toList (t.toList ++ []) = t.toList.length := by
        rw [List.append_nil, widthUntil_of_not_infix ht]
      have hread := reads_textPart hwidth reads_nodes_none
      rwa [List.append_nil, List.append_nil] at hread
  | @gap t name rest ht he hn _ ih =>
      have hname : Reads interpolation ("\x7b\x7b " ++ name ++ " \x7d\x7d").toList rest.written.toList
          (IsNode (Form.namePart name)) := reads_interpolation (writes_namePart hn) _
      -- The brackets of the name are the first in what stands behind the text.
      have hopen : ("\x7b\x7b " ++ name ++ " \x7d\x7d").toList
          = "\x7b\x7b".toList ++ (' ' :: (name.toList ++ " \x7d\x7d".toList)) := by
        rw [String.toList_append, String.toList_append, List.append_assoc]
        rfl
      have hmore := reads_nodes_more (by rw [hopen]; nofun) (reads_oneOf_head hname) ih
      have hwidth : widthUntil "\x7b\x7b".toList
          (t.toList ++ (("\x7b\x7b " ++ name ++ " \x7d\x7d").toList ++ rest.written.toList))
            = t.toList.length := by
        rw [hopen, List.append_assoc]
        exact widthUntil_before ht he
      have hread := reads_textPart hwidth hmore
      rwa [← String.toList_append, ← String.toList_append] at hread

end Rules

namespace Evaluation

open Form

variable {undefinedAsNull tolerated : Bool} {parameters : Fields Json} {owner : Node}
  {f : Form} {t : String}

/-- What the parts of a form come to: text where there is some, and the values of the names. -/
def textResults (t : String) : List Evaluated := if t = "" then [] else [.plain (some (.str t))]

def formResults (parameters : Fields Json) : Form → List Evaluated
  | .text t => textResults t
  | .gap t name rest =>
      textResults t ++ .plain (Fields.get? parameters name) :: formResults parameters rest

theorem evaluateAll_textPart {nodes : List Node} {results : List Evaluated} {s : Scope}
    (h : evaluateAll undefinedAsNull nodes s = .ok results) :
    evaluateAll undefinedAsNull (textPart t ++ nodes) s = .ok (textResults t ++ results) := by
  unfold textPart textResults
  split
  · exact h
  · rw [List.singleton_append, evaluateAll, h]
    rfl

/-- The parts of a form have values, whatever the names stand for. -/
theorem evaluateAll_parts (f : Form) :
    evaluateAll undefinedAsNull f.parts (.ofParameters parameters)
      = .ok (formResults parameters f) := by
  induction f with
  | text t =>
      have htext := evaluateAll_textPart (t := t)
        (rfl : evaluateAll undefinedAsNull [] (.ofParameters parameters) = .ok [])
      rwa [List.append_nil, List.append_nil] at htext
  | gap t name rest ih =>
      apply evaluateAll_textPart
      rw [evaluateAll, ih]
      rfl

/-! The text of the parts -/

theorem joinTexts_textResults {results : List Evaluated} {text : String} {total : Nat}
    (h : ∀ index, joinTexts tolerated owner total index results = .ok text) (index : Nat) :
    joinTexts tolerated owner total index (textResults t ++ results) = .ok (t ++ text) := by
  unfold textResults
  split
  · next hempty =>
      rw [hempty, String.empty_append]
      exact h index
  · rw [List.singleton_append, joinTexts, h]
    rfl

/-- A value that can stand in text where missing ones are tolerated or not. -/
def Fits (tolerated : Bool) (v : Value) : Prop :=
  match v with
  | none => tolerated = true
  | some v => v.isLeaf = true

theorem partText_insertion {name : String} (h : Fits tolerated (Fields.get? parameters name))
    (index total : Nat) :
    partText tolerated owner index total (Fields.get? parameters name)
      = .ok (insertion parameters name) := by
  unfold insertion
  cases hv : Fields.get? parameters name with
  | none =>
      rw [hv] at h
      exact if_pos h
  | some v =>
      rw [hv] at h
      cases v with
      | null | bool | num | str => rfl
      | arr | obj => cases h

/-- Where the values fit, the texts of the parts are the form with the values put in. -/
theorem joinTexts_formResults
    (h : ∀ name ∈ f.names, Fits tolerated (Fields.get? parameters name)) (total index : Nat) :
    joinTexts tolerated owner total index (formResults parameters f)
      = .ok (f.fill (insertion parameters)) := by
  induction f generalizing index with
  | text t =>
      have htext := joinTexts_textResults (t := t) (fun index =>
        (rfl : joinTexts tolerated owner total index [] = .ok "")) index
      rwa [List.append_nil, String.append_empty] at htext
  | gap t name rest ih =>
      obtain ⟨hname, hrest⟩ := List.forall_mem_cons.1 h
      refine joinTexts_textResults (fun index => ?_) index
      have hpart : partText tolerated owner index total
          (Evaluated.plain (Fields.get? parameters name)).value
            = .ok (insertion parameters name) := partText_insertion hname index total
      rw [joinTexts, hpart, ih hrest]
      rfl

/-- Text that fails behind some other text fails with it. -/
theorem joinTexts_textResults_error {results : List Evaluated} {total : Nat}
    (h : ∀ index, ∃ x, joinTexts tolerated owner total index results = .error x) (index : Nat) :
    ∃ x, joinTexts tolerated owner total index (textResults t ++ results) = .error x := by
  unfold textResults
  split
  · exact h index
  · obtain ⟨x, hx⟩ := h (index + 1)
    refine ⟨x, ?_⟩
    rw [List.singleton_append, joinTexts, hx]
    rfl

/-- One name without a value is enough for there to be no text. -/
theorem joinTexts_missing {name : String} (hn : name ∈ f.names)
    (hm : Fields.get? parameters name = none) (total index : Nat) :
    ∃ x, joinTexts false owner total index (formResults parameters f) = .error x := by
  induction f generalizing index with
  | text t => cases hn
  | gap t first rest ih =>
      refine joinTexts_textResults_error (fun index => ?_) index
      rw [joinTexts]
      cases hpart : partText false owner index total
          (Evaluated.plain (Fields.get? parameters first)).value with
      | error x => exact ⟨x, rfl⟩
      | ok text =>
          cases hn with
          | head =>
              rw [Evaluated.plain, hm] at hpart
              cases hpart
          | tail _ hn =>
              obtain ⟨x, hx⟩ := ih hn (index + 1)
              exact ⟨x, by rw [hx]; rfl⟩

/-- A form is no interpolation by itself, unless it is one name and no text. -/
theorem isLone_parts (h : f.names.length = 1 → ∃ t ∈ f.texts, t ≠ "") :
    Node.isLone f.parts = false := by
  cases f with
  | text t =>
      unfold parts textPart
      split <;> rfl
  | gap t name rest =>
      unfold parts textPart
      split
      · next hempty =>
          cases rest with
          | gap u next more =>
              unfold parts textPart
              split <;> rfl
          | text u =>
              obtain ⟨v, hv, hne⟩ := h rfl
              rw [texts, texts, List.mem_cons, List.mem_singleton] at hv
              have hu : u ≠ "" := by
                rintro rfl
                obtain rfl | rfl := hv
                · exact hne hempty
                · exact hne rfl
              rw [parts, textPart, if_neg hu]
              rfl
      · rfl

end Evaluation

namespace Template

open Evaluation Rules

variable {parameters : Fields Json} {o : Options}

/-- A string comes to what the template of its parts comes to, and fails where that fails. -/
theorem expand_of_parts {s : String} {nodes : List Node}
    (h : Reads stringParts s.toList [] (IsNodes nodes)) :
    (∀ r, evaluate (o.effective parameters) (.template nodes (.empty 0)) .value
        (.ofParameters parameters) = .ok r →
      expand (.str s) (.obj parameters) o = .ok (r.value.getD .null)) ∧
    ∀ x, evaluate (o.effective parameters) (.template nodes (.empty 0)) .value
        (.ofParameters parameters) = .error x →
      ∃ e, expand (.str s) (.obj parameters) o = .error e := by
  obtain ⟨n, hn, hbare⟩ := readText_of_reads h
  have hread := read_str_of_readText hn
  have hsame := evaluate_relocate (fun _ => .empty 0) (o.effective parameters)
    (n.relocate (Span.shift 0)) .value (.refl (Scope.ofParameters parameters))
  rw [← Node.bare, Node.bare_relocate, hbare] at hsame
  constructor
  · intro r hr
    obtain ⟨r', hr', rfl⟩ := Failure.transport_eq_ok.1 (hsame ▸ hr)
    exact expand_eq_ok_iff.2 ⟨r', rootResult_eq_ok_iff.2 ⟨_, hread, hr'⟩, rfl⟩
  · intro x hx
    cases hv : expand (.str s) (.obj parameters) o with
    | error e => exact ⟨e, rfl⟩
    | ok v =>
        obtain ⟨r, hr, -⟩ := expand_eq_ok_iff.1 hv
        obtain ⟨m, hm, hvalue⟩ := rootResult_eq_ok_iff.1 hr
        cases hread.symm.trans hm
        rw [hvalue, hx] at hsame
        cases hsame

/-- The string of a form comes to the texts with the values of the names between them. Where a
name has no value it fails, unless missing values are taken for null, and then the name leaves
nothing. -/
theorem expand_written {f : Form} (hf : f.IsReadable)
    (hm : f.names.length = 1 → ∃ t ∈ f.texts, t ≠ "") (parameters : Fields Json) (o : Options) :
    ((∀ name ∈ f.names, ∃ v, Fields.get? parameters name = some v ∧ v.isLeaf = true) →
      expand (.str f.written) (.obj parameters) o
        = .ok (.str (f.fill (Form.insertion parameters)))) ∧
    ((∃ name ∈ f.names, Fields.get? parameters name = none) → o.effective parameters = false →
      ∃ e, expand (.str f.written) (.obj parameters) o = .error e) ∧
    (o.effective parameters = true →
      (∀ name ∈ f.names, ∀ v, Fields.get? parameters name = some v → v.isLeaf = true) →
      expand (.str f.written) (.obj parameters) o
        = .ok (.str (f.fill (Form.insertion parameters)))) := by
  obtain ⟨hvalue, herror⟩ := @expand_of_parts parameters o _ _ (reads_must (reads_form hf) _)
  have hparts : evaluate (o.effective parameters) (.template f.parts (.empty 0)) .value
      (.ofParameters parameters) = (do
        let text ← joinTexts (o.effective parameters) (.template f.parts (.empty 0))
          (formResults parameters f).length 0 (formResults parameters f)
        return ⟨some (.str text), absorbAll (formResults parameters f)⟩) := by
    rw [evaluate, evaluateAll_parts]
    refine (finishTemplate_mixed .value _ (isLone_parts hm)).trans ?_
    rw [show (Role.value == Role.key) = false from rfl, Bool.or_false]
  have hfilled : (∀ name ∈ f.names,
        Fits (o.effective parameters) (Fields.get? parameters name)) →
      expand (.str f.written) (.obj parameters) o
        = .ok (.str (f.fill (Form.insertion parameters))) := by
    intro hfits
    rw [joinTexts_formResults hfits] at hparts
    exact hvalue _ hparts
  refine ⟨fun hbound => hfilled fun name hname => ?_, fun hmissing hstrict => ?_,
    fun htolerant hbound => hfilled fun name hname => ?_⟩
  · obtain ⟨v, hv, hleaf⟩ := hbound name hname
    rw [hv]
    exact hleaf
  · obtain ⟨name, hname, hnone⟩ := hmissing
    obtain ⟨x, hx⟩ : ∃ x, joinTexts false (.template f.parts (.empty 0))
        (formResults parameters f).length 0 (formResults parameters f) = .error x :=
      joinTexts_missing hname hnone _ _
    rw [hstrict, hx] at hparts
    exact herror x (hstrict ▸ hparts)
  · cases hv : Fields.get? parameters name with
    | none => exact htolerant
    | some v => exact hbound name hname v hv

/-- A brace at either end, two names side by side, and then no value for the second. -/
theorem expand_written_braces :
    ∃ (f : Form) (bound missing : Fields Json),
      f = .gap "é\x7d " "a" (.gap "" "b" (.text "\x7b")) ∧
      bound = [("a", .num (.int 1 (by decide))), ("b", .bool true)] ∧ missing = [("a", .null)] ∧
      f.IsReadable ∧ (f.names.length = 1 → ∃ t ∈ f.texts, t ≠ "") ∧
      f.written = "é\x7d \x7b\x7b a \x7d\x7d\x7b\x7b b \x7d\x7d\x7b" ∧
      expand (.str f.written) (.obj bound) .none = .ok (.str "é\x7d 1true\x7b") ∧
      (∃ e, expand (.str f.written) (.obj missing) .none = .error e) ∧
      expand (.str f.written) (.obj missing) ⟨true⟩ = .ok (.str "é\x7d \x7b") := by
  let f : Form := .gap "é\x7d " "a" (.gap "" "b" (.text "\x7b"))
  let bound : Fields Json := [("a", .num (.int 1 (by decide))), ("b", .bool true)]
  let missing : Fields Json := [("a", .null)]
  have hletter : ∀ c, Variable.isNameStart c = true → isWordChar c = true →
      String.ofList [c] ∉ keywords → IsIdentifier [c] := fun c hs hw hk =>
    ⟨⟨c, [], rfl, hs⟩, List.forall_mem_singleton.2 hw, hk⟩
  have hf : f.IsReadable :=
    .gap (by decide +kernel) (by decide +kernel) (hletter 'a' rfl rfl (by decide))
      (.gap (by decide +kernel) (by decide +kernel) (hletter 'b' rfl rfl (by decide))
        (.text (by decide +kernel)))
  have hm : f.names.length = 1 → ∃ t ∈ f.texts, t ≠ "" := nofun
  have hbound : ∀ name ∈ f.names, ∃ v, Fields.get? bound name = some v ∧ v.isLeaf = true :=
    List.forall_mem_cons.2 ⟨⟨_, rfl, rfl⟩, List.forall_mem_singleton.2 ⟨_, rfl, rfl⟩⟩
  have hnone : ∃ name ∈ f.names, Fields.get? missing name = none :=
    ⟨"b", List.mem_cons_of_mem _ List.mem_cons_self, rfl⟩
  have hleaf : ∀ name ∈ f.names, ∀ v, Fields.get? missing name = some v → v.isLeaf = true := by
    refine List.forall_mem_cons.2 ⟨fun v hv => ?_, List.forall_mem_singleton.2 nofun⟩
    cases hv
    rfl
  obtain ⟨hfilled, -, -⟩ := expand_written hf hm bound .none
  obtain ⟨-, hfails, -⟩ := expand_written hf hm missing .none
  obtain ⟨-, -, htolerated⟩ := expand_written hf hm missing ⟨true⟩
  exact ⟨f, bound, missing, rfl, rfl, rfl, hf, hm, by decide +kernel, hfilled hbound,
    hfails hnone rfl, htolerated rfl hleaf⟩

end Template
end JsonTemplate
