import JsonTemplate.Json.Reader

/-!
No document that is read from text names a field twice. The reader keeps this of all that it
has read: of the value that it holds and of the containers that are still open.
-/

namespace JsonTemplate
namespace Json

theorem distinctItems_iff {items : List Json} : DistinctItems items ↔ ∀ v ∈ items, v.Distinct := by
  induction items with
  | nil => exact ⟨nofun, fun _ => trivial⟩
  | cons item rest ih => rw [DistinctItems, List.forall_mem_cons, ih]

theorem distinct_reverse {items : List Json} (h : DistinctItems items) :
    (arr items.reverse).Distinct :=
  distinctItems_iff.2 fun v hv => distinctItems_iff.1 h v (List.mem_reverse.1 hv)

theorem distinctFields_insert {fields : Fields Json} {v : Json} (h : DistinctFields fields)
    (hv : v.Distinct) (name : String) : DistinctFields (fields.insert name v) := by
  induction fields with
  | nil => exact ⟨hv, trivial⟩
  | cons field rest ih =>
      rw [Fields.insert]
      split
      · exact ⟨hv, h.2⟩
      · exact ⟨h.1, ih h.2⟩

theorem distinct_insert {fields : Fields Json} {v : Json} (h : (obj fields).Distinct)
    (hv : v.Distinct) (name : String) : (obj (fields.insert name v)).Distinct :=
  ⟨fields.nodup_names_insert name v h.1, distinctFields_insert h.2 hv name⟩

namespace Reader

def Lexeme.IsDistinct : Lexeme → Prop
  | value v => v.Distinct
  | _ => True

def Frame.IsDistinct : Frame → Prop
  | array items => DistinctItems items
  | object fields _ => (obj fields).Distinct

def Stage.IsDistinct : Stage → Prop
  | after v => v.Distinct
  | _ => True

structure State.IsDistinct (s : State) : Prop where
  stack : ∀ frame ∈ s.stack, frame.IsDistinct
  stage : s.stage.IsDistinct

theorem isDistinct_lexeme {text rest : List Char} {lexeme : Lexeme}
    (h : lexeme? text = some (lexeme, rest)) : lexeme.IsDistinct := by
  unfold lexeme? at h
  split at h
  case h_7 | h_11 =>
    obtain ⟨_, _, h⟩ := Option.map_eq_some_iff.1 h
    cases h
    trivial
  all_goals
    cases h
    trivial

theorem isDistinct_lexemes {fuel : Nat} {text : List Char} {found : List Lexeme}
    (h : lexemes fuel text = some found) : ∀ lexeme ∈ found, lexeme.IsDistinct := by
  induction fuel generalizing text found with
  | zero =>
      rw [lexemes, Option.ite_none_right_eq_some] at h
      cases h.2
      exact List.forall_mem_nil _
  | succ fuel ih =>
      cases text with
      | nil =>
          cases h
          exact List.forall_mem_nil _
      | cons c rest =>
          rw [lexemes] at h
          split at h
          · exact ih h
          · split at h
            · cases h
            · next lexeme rest hlexeme =>
                obtain ⟨more, hmore, rfl⟩ := Option.map_eq_some_iff.1 h
                exact List.forall_mem_cons.2 ⟨isDistinct_lexeme hlexeme, ih hmore⟩

theorem isDistinct_opened {stack : List Frame} {stage : Stage} {frame : Frame} {s : State}
    (h : opened stack stage frame = some s) (hstack : ∀ other ∈ stack, other.IsDistinct)
    (hstage : stage.IsDistinct) (hframe : frame.IsDistinct) : s.IsDistinct := by
  rw [opened, Option.ite_none_left_eq_some] at h
  cases h.2
  exact ⟨List.forall_mem_cons.2 ⟨hframe, hstack⟩, hstage⟩

theorem isDistinct_innermost {stack rest : List Frame} {frame : Frame}
    (hstack : ∀ other ∈ stack, other.IsDistinct) (h : stack = frame :: rest) :
    frame.IsDistinct ∧ ∀ other ∈ rest, other.IsDistinct :=
  List.forall_mem_cons.1 (h ▸ hstack)

/-- One lexeme more. A field that is named again gives its place to the later value. -/
theorem isDistinct_step {s s' : State} {lexeme : Lexeme} (hs : s.IsDistinct)
    (hl : lexeme.IsDistinct) (h : step s lexeme = some s') : s'.IsDistinct := by
  obtain ⟨hstack, hstage⟩ := hs
  unfold step at h
  split at h
  case h_1 | h_2 =>
    cases h
    exact ⟨hstack, hl⟩
  case h_3 | h_4 | h_11 | h_12 =>
    cases h
    exact ⟨hstack, trivial⟩
  case h_5 | h_6 => exact isDistinct_opened h hstack trivial trivial
  case h_7 | h_8 => exact isDistinct_opened h hstack trivial ⟨.nil, trivial⟩
  case h_17 => cases h
  -- The other lexemes change the innermost container.
  case h_9 =>
    split at h
    · next hopen =>
        cases h
        exact ⟨(isDistinct_innermost hstack hopen).2, trivial⟩
    · cases h
  case h_10 =>
    split at h
    · next hopen =>
        cases h
        exact ⟨(isDistinct_innermost hstack hopen).2, .nil, trivial⟩
    · cases h
  case h_13 =>
    split at h
    · next hopen =>
        cases h
        obtain ⟨hframe, hrest⟩ := isDistinct_innermost hstack hopen
        exact ⟨List.forall_mem_cons.2 ⟨hframe, hrest⟩, trivial⟩
    · cases h
  case h_14 v hafter =>
    rw [hafter] at hstage
    split at h
    · next hopen =>
        cases h
        obtain ⟨hframe, hrest⟩ := isDistinct_innermost hstack hopen
        exact ⟨List.forall_mem_cons.2 ⟨⟨hstage, hframe⟩, hrest⟩, trivial⟩
    · next hopen =>
        cases h
        obtain ⟨hframe, hrest⟩ := isDistinct_innermost hstack hopen
        exact ⟨List.forall_mem_cons.2 ⟨distinct_insert hframe hstage _, hrest⟩, trivial⟩
    · cases h
  case h_15 v hafter =>
    rw [hafter] at hstage
    split at h
    · next hopen =>
        cases h
        obtain ⟨hframe, hrest⟩ := isDistinct_innermost hstack hopen
        exact ⟨hrest, distinct_reverse ⟨hstage, hframe⟩⟩
    · cases h
  case h_16 v hafter =>
    rw [hafter] at hstage
    split at h
    · next hopen =>
        cases h
        obtain ⟨hframe, hrest⟩ := isDistinct_innermost hstack hopen
        exact ⟨hrest, distinct_insert hframe hstage _⟩
    · cases h

theorem distinct_of_run {s : State} {found : List Lexeme} {v : Json} (hs : s.IsDistinct)
    (hl : ∀ lexeme ∈ found, lexeme.IsDistinct) (h : run s found = some v) : v.Distinct := by
  induction found generalizing s with
  | nil =>
      obtain ⟨-, hstage⟩ := hs
      rw [run] at h
      split at h
      · next hafter _ =>
          cases h
          rw [hafter] at hstage
          exact hstage
      · cases h
  | cons lexeme rest ih =>
      obtain ⟨hlexeme, hrest⟩ := List.forall_mem_cons.1 hl
      rw [run] at h
      split at h
      · cases h
      · next hstep => exact ih (isDistinct_step hs hlexeme hstep) hrest h

end Reader

/-- No object of a document that is read from text names a field twice. -/
theorem distinct_of_parse {text : String} {d : Json} (h : parse? text = some d) : d.Distinct := by
  simp only [parse?] at h
  split at h
  · cases h
  · next hlexemes =>
      have hs : Reader.State.IsDistinct ⟨[], .value⟩ := ⟨List.forall_mem_nil _, trivial⟩
      exact Reader.distinct_of_run hs (Reader.isDistinct_lexemes hlexemes) h

end Json
end JsonTemplate
