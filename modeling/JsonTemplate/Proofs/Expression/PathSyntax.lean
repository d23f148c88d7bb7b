import JsonTemplate.Proofs.Expression.Lexemes

/-!
The syntax of paths. `SpellsPath quoting parts text` says that `text` spells a path of these
parts, where `quoting` says which quotes may stand around a name in brackets. The rule for
paths reads the longest text that the lenient syntax allows, in which either quote may be
missing: all that is documented, and `a['b]` besides.
-/

namespace JsonTemplate
namespace Variable

open Writing

/-- Whether a name in brackets may have a quote before it, and one behind it. -/
abbrev Quoting := Bool → Bool → Prop

namespace Quoting

/-- Both quotes, or none. -/
def paired : Quoting := fun before after => before = after

def lenient : Quoting := fun _ _ => True

end Quoting

def quote (present : Bool) : List Char := if present then ['\''] else []

inductive SpellsStep (quoting : Quoting) : PathPart → List Char → Prop
  | dotted {name : List Char} (optional : Bool) (hn : name ≠ [])
      (hw : ∀ c ∈ name, isWordChar c = true) :
      SpellsStep quoting ⟨String.ofList name, optional⟩ ('.' :: (name ++ mark optional))
  | bracketed {name : List Char} {before after : Bool} (optional : Bool)
      (hq : quoting before after) (hn : name ≠ []) (hw : ∀ c ∈ name, isBracketChar c = true) :
      SpellsStep quoting ⟨String.ofList name, optional⟩
        ('[' :: (quote before ++ (name ++ (quote after ++ ']' :: mark optional))))

inductive SpellsSteps (quoting : Quoting) : List PathPart → List Char → Prop
  | nil : SpellsSteps quoting [] []
  | cons {part : PathPart} {parts : List PathPart} {text more : List Char}
      (h : SpellsStep quoting part text) (hs : SpellsSteps quoting parts more) :
      SpellsSteps quoting (part :: parts) (text ++ more)

inductive SpellsPath (quoting : Quoting) : List PathPart → List Char → Prop
  | mk {c : Char} {name text : List Char} {parts : List PathPart} (optional : Bool)
      (hc : isNameStart c = true) (hw : ∀ d ∈ name, isWordChar d = true)
      (hs : SpellsSteps quoting parts text) :
      SpellsPath quoting (⟨String.ofList (c :: name), optional⟩ :: parts)
        (c :: name ++ (mark optional ++ text))

/-- The longest text of a path that a run of characters begins with. -/
structure LongestPath (quoting : Quoting) (run : List Char) (parts : List PathPart)
    (text : List Char) : Prop where
  spells : SpellsPath quoting parts text
  begins : text <+: run
  longest : ∀ {others : List PathPart} {other : List Char}, SpellsPath quoting others other →
    other <+: run → other.length ≤ text.length

section Weaken

variable {strict loose : Quoting} {part : PathPart} {parts : List PathPart} {text : List Char}

theorem SpellsStep.weaken (hq : ∀ before after, strict before after → loose before after)
    (h : SpellsStep strict part text) : SpellsStep loose part text := by
  cases h with
  | dotted optional hn hw => exact .dotted optional hn hw
  | bracketed optional hb hn hw => exact .bracketed optional (hq _ _ hb) hn hw

theorem SpellsSteps.weaken (hq : ∀ before after, strict before after → loose before after)
    (h : SpellsSteps strict parts text) : SpellsSteps loose parts text := by
  induction h with
  | nil => exact .nil
  | cons h _ ih => exact .cons (h.weaken hq) ih

theorem SpellsPath.weaken (hq : ∀ before after, strict before after → loose before after)
    (h : SpellsPath strict parts text) : SpellsPath loose parts text := by
  cases h with
  | mk optional hc hw hs => exact .mk optional hc hw (hs.weaken hq)

/-- A path with paired quotes is one with any. -/
theorem SpellsPath.lenient (h : SpellsPath strict parts text) :
    SpellsPath .lenient parts text :=
  h.weaken fun _ _ _ => trivial

end Weaken

/-! What is read is spelled so -/

theorem stepOf_split (name : List Char) (width : Nat) (text : List Char) :
    ∃ optional rest, text = mark optional ++ rest ∧
      stepOf name width text
        = (⟨String.ofList name, optional⟩, width + (mark optional).length) := by
  cases text with
  | nil => exact ⟨false, [], rfl, rfl⟩
  | cons c text =>
      by_cases hc : c = '?'
      · exact ⟨true, text, by rw [hc]; rfl, by rw [hc]; rfl⟩
      · exact ⟨false, c :: text, rfl, by rw [stepOf, markWidth_of_ne hc]; rfl⟩

theorem quoteWidth_split (text : List Char) :
    ∃ present rest, text = quote present ++ rest ∧ quoteWidth text = (quote present).length := by
  cases text with
  | nil => exact ⟨false, [], rfl, rfl⟩
  | cons c text =>
      by_cases hc : c = '\''
      · exact ⟨true, text, by rw [hc]; rfl, by rw [hc]; rfl⟩
      · exact ⟨false, c :: text, rfl, by rw [quoteWidth_of_ne hc]; rfl⟩

section Sound

variable {run : List Char} {part : PathPart} {width : Nat}

theorem dotted?_sound (h : dotted? run = some (part, width)) :
    ∃ text rest, '.' :: run = text ++ rest ∧ width = text.length ∧
      SpellsStep .lenient part text := by
  obtain ⟨name, behind, rfl, hname, hw⟩ := takeWhile_split isWordChar run
  obtain ⟨optional, rest, rfl, hstep⟩ := stepOf_split name (name.length + 1) behind
  simp only [dotted?, hname, List.drop_left, hstep] at h
  split at h
  · cases h
  · next hn =>
      cases h
      refine ⟨'.' :: (name ++ mark optional), rest, by simp, ?_, .dotted optional ?_ hw⟩
      · simp only [List.length_cons, List.length_append]
        omega
      · exact fun hnil => hn (List.isEmpty_iff.2 hnil)

theorem bracketed?_sound (h : bracketed? run = some (part, width)) :
    ∃ text rest, '[' :: run = text ++ rest ∧ width = text.length ∧
      SpellsStep .lenient part text := by
  obtain ⟨before, inner, rfl, hbefore⟩ := quoteWidth_split run
  obtain ⟨name, closing, rfl, hname, hw⟩ := takeWhile_split isBracketChar inner
  obtain ⟨after, behind, rfl, hafter⟩ := quoteWidth_split closing
  simp only [bracketed?, hbefore, List.drop_left, hname, hafter] at h
  split at h
  · cases h
  · next hn =>
      split at h
      · next rest =>
          obtain ⟨optional, rest, rfl, hstep⟩ := stepOf_split name
            ((quote before).length + name.length + (quote after).length + 2) rest
          rw [hstep] at h
          cases h
          refine ⟨'[' :: (quote before ++ (name ++ (quote after ++ ']' :: mark optional))), rest,
            by simp, ?_, .bracketed optional trivial ?_ hw⟩
          · simp only [List.length_cons, List.length_append]
            omega
          · exact fun hnil => hn (List.isEmpty_iff.2 hnil)
      · cases h

theorem step?_sound (h : step? run = some (part, width)) :
    ∃ text rest, run = text ++ rest ∧ width = text.length ∧ SpellsStep .lenient part text := by
  unfold step? at h
  split at h
  · exact dotted?_sound h
  · exact bracketed?_sound h
  · cases h

theorem root?_sound (h : root? run = some (part, width)) :
    ∃ c name optional rest, run = c :: name ++ (mark optional ++ rest) ∧
      width = (c :: name ++ mark optional).length ∧ isNameStart c = true ∧
      (∀ d ∈ name, isWordChar d = true) ∧ part = ⟨String.ofList (c :: name), optional⟩ := by
  cases run with
  | nil => cases h
  | cons c run =>
      obtain ⟨name, behind, rfl, hname, hw⟩ := takeWhile_split isWordChar run
      obtain ⟨optional, rest, rfl, hstep⟩ := stepOf_split (c :: name) (name.length + 1) behind
      simp only [root?, hname, List.drop_left, hstep] at h
      split at h
      · next hc =>
          cases h
          refine ⟨c, name, optional, rest, rfl, ?_, hc, hw, rfl⟩
          simp only [List.length_append, List.length_cons]
      · cases h

end Sound

theorem steps_sound (run : List Char) :
    ∃ text rest, run = text ++ rest ∧ (steps run).2 = text.length ∧
      SpellsSteps .lenient (steps run).1 text := by
  induction hn : run.length using Nat.strongRecOn generalizing run with
  | ind n ih =>
      cases hs : step? run with
      | none =>
          refine ⟨[], run, rfl, ?_, ?_⟩ <;> rw [steps_of_none hs]
          · rfl
          · exact .nil
      | some step =>
          obtain ⟨part, width⟩ := step
          have hpos := (step?_width_pos hs).1
          obtain ⟨text, behind, rfl, rfl, hstep⟩ := step?_sound hs
          obtain ⟨more, rest, rfl, hwidth, hmore⟩ := ih behind.length
            (by rw [← hn, List.length_append]; omega) behind rfl
          rw [steps_of_some hs, List.drop_left]
          refine ⟨text ++ more, rest, by rw [List.append_assoc], ?_, .cons hstep hmore⟩
          rw [hwidth, List.length_append]

theorem path?_sound {run : List Char} {parts : List PathPart} {width : Nat}
    (h : path? run = some (parts, width)) :
    ∃ text rest, run = text ++ rest ∧ width = text.length ∧ SpellsPath .lenient parts text := by
  unfold path? at h
  split at h
  · cases h
  · next hroot =>
      obtain ⟨c, name, optional, behind, rfl, rfl, hc, hw, rfl⟩ := root?_sound hroot
      obtain ⟨more, rest, rfl, hwidth, hmore⟩ := steps_sound behind
      rw [← List.append_assoc, List.drop_left] at h
      cases h
      refine ⟨c :: name ++ (mark optional ++ more), rest, by simp, ?_, .mk optional hc hw hmore⟩
      rw [hwidth]
      simp only [List.length_append, Nat.add_assoc]

/-! What is spelled so is read -/

section Complete

variable {quoting : Quoting}

theorem SpellsStep.head {part : PathPart} {text : List Char} (h : SpellsStep quoting part text) :
    ∃ c rest, text = c :: rest ∧ (c = '.' ∨ c = '[') := by
  cases h with
  | dotted => exact ⟨_, _, rfl, .inl rfl⟩
  | bracketed => exact ⟨_, _, rfl, .inr rfl⟩

theorem SpellsSteps.halts {parts : List PathPart} {text rest : List Char}
    (h : SpellsSteps quoting parts text) (hr : text = [] → Halts rest) : Halts (text ++ rest) := by
  cases h with
  | nil => exact hr rfl
  | cons h _ =>
      obtain ⟨c, more, rfl, hc⟩ := h.head
      exact Continues.halts fun d hd => Option.some.inj hd ▸ hc

theorem quoteWidth_quote (present : Bool) {text : List Char} (h : text.head? ≠ some '\'') :
    quoteWidth (quote present ++ text) = (quote present).length := by
  cases present with
  | true => rfl
  | false =>
      cases text with
      | nil => rfl
      | cons c text => exact quoteWidth_of_ne (by simpa using h) text

theorem step?_bracketed {name : List Char} (before after : Bool) (hn : name ≠ [])
    (hw : ∀ c ∈ name, isBracketChar c = true) (rest : List Char) :
    step? ('[' :: (quote before ++ (name ++ (quote after ++ ']' :: rest))))
      = some (stepOf name ((quote before).length + name.length + (quote after).length + 2)
          rest) := by
  have hbefore : quoteWidth (quote before ++ (name ++ (quote after ++ ']' :: rest)))
      = (quote before).length := by
    refine quoteWidth_quote before fun hq => ?_
    cases name with
    | nil => exact hn rfl
    | cons c name =>
        obtain rfl := Option.some.inj hq
        cases hw _ List.mem_cons_self
  have hafter : quoteWidth (quote after ++ ']' :: rest) = (quote after).length :=
    quoteWidth_quote after (by simp)
  have hname : (name ++ (quote after ++ ']' :: rest)).takeWhile isBracketChar = name := by
    refine takeWhile_append_stop hw fun c hc => ?_
    cases after <;> cases hc <;> rfl
  simp only [step?, bracketed?, hbefore, List.drop_left, hname, hafter, List.isEmpty_iff, hn,
    if_false]

theorem mark_length_le (optional : Bool) (rest : List Char) :
    (mark optional).length ≤ markWidth (mark optional ++ rest) := by
  cases optional with
  | true => exact Nat.le_refl 1
  | false => exact Nat.zero_le _

/-- A word may be read beyond the one that is spelled, but then no mark is spelled. -/
theorem word_mark_length_le {name : List Char} (hw : ∀ c ∈ name, isWordChar c = true)
    (optional : Bool) (rest : List Char) {read : List Char}
    (hread : (name ++ (mark optional ++ rest)).takeWhile isWordChar = read) :
    name.length + (mark optional).length
      ≤ read.length + markWidth ((name ++ (mark optional ++ rest)).drop read.length) := by
  rw [List.takeWhile_append_of_pos hw] at hread
  subst hread
  cases optional with
  | true =>
      have : (mark true ++ rest).takeWhile isWordChar = [] := rfl
      rw [this, List.append_nil, List.drop_left]
      exact Nat.le_refl _
  | false =>
      rw [List.length_append]
      simp only [mark, Bool.false_eq_true, if_false, List.length_nil]
      omega

variable {part : PathPart} {parts : List PathPart} {text : List Char}

/-- A step is read as it is spelled if no name goes on behind it. -/
theorem SpellsStep.read_before (h : SpellsStep quoting part text) {rest : List Char}
    (hr : Halts rest) : step? (text ++ rest) = some (part, text.length) := by
  cases h with
  | dotted optional hn hw => exact step?_dotted optional hn hw hr
  | @bracketed name before after optional _ hn hw =>
      have hread := step?_bracketed before after hn hw (mark optional ++ rest)
      rw [stepOf_mark _ _ _ hr.head_ne] at hread
      simp only [List.cons_append, List.append_assoc, hread, List.length_cons, List.length_append]
      rw [show (quote before).length + name.length + (quote after).length + 2
          + (mark optional).length
        = (quote before).length + (name.length + ((quote after).length
          + ((mark optional).length + 1))) + 1 by omega]

theorem SpellsStep.read (h : SpellsStep quoting part text) (rest : List Char) :
    ∃ read, step? (text ++ rest) = some read ∧ text.length ≤ read.2 := by
  cases h with
  | @dotted name optional hn hw =>
      obtain ⟨word, hword⟩ :
        ∃ word, (name ++ (mark optional ++ rest)).takeWhile isWordChar = word :=
        ⟨_, rfl⟩
      have hle := word_mark_length_le hw optional rest hword
      have hne : word.isEmpty = false := by
        rw [← hword, List.takeWhile_append_of_pos hw]
        simp [hn]
      refine ⟨stepOf word (word.length + 1) ((name ++ (mark optional ++ rest)).drop word.length),
        ?_, ?_⟩
      · simp only [List.cons_append, List.append_assoc, step?, dotted?, hword, hne,
          Bool.false_eq_true, if_false]
      · simp only [stepOf, List.length_cons, List.length_append]
        omega
  | @bracketed name before after optional _ hn hw =>
      have hread := step?_bracketed before after hn hw (mark optional ++ rest)
      have hle := mark_length_le optional rest
      refine ⟨_, by simpa only [List.cons_append, List.append_assoc] using hread, ?_⟩
      simp only [stepOf, List.length_cons, List.length_append]
      omega

theorem SpellsSteps.read (h : SpellsSteps quoting parts text) (rest : List Char) :
    text.length ≤ (steps (text ++ rest)).2 := by
  induction h with
  | nil => exact Nat.zero_le _
  | @cons part parts text more h hs ih =>
      rw [List.append_assoc, List.length_append]
      by_cases hmore : more = []
      · obtain ⟨⟨other, width⟩, hread, hle⟩ := h.read (more ++ rest)
        rw [steps_of_some hread, hmore]
        exact Nat.le_add_right_of_le hle
      · rw [steps_of_some (h.read_before (hs.halts fun hnil => absurd hnil hmore)), List.drop_left]
        exact Nat.add_le_add_left ih _

theorem SpellsPath.read (h : SpellsPath quoting parts text) (rest : List Char) :
    ∃ read, path? (text ++ rest) = some read ∧ text.length ≤ read.2 := by
  cases h with
  | @mk c name text parts optional hc hw hs =>
      by_cases htext : text = []
      · subst htext
        obtain ⟨word, hword⟩ :
        ∃ word, (name ++ (mark optional ++ rest)).takeWhile isWordChar = word :=
          ⟨_, rfl⟩
        have hle := word_mark_length_le hw optional rest hword
        have hread : root? (c :: (name ++ (mark optional ++ rest)))
            = some (stepOf (c :: word) (word.length + 1)
                ((name ++ (mark optional ++ rest)).drop word.length)) := by
          rw [root?, if_pos hc, hword]
        simp only [List.append_nil, List.cons_append, List.append_assoc, path?, hread]
        refine ⟨_, rfl, ?_⟩
        simp only [stepOf, List.length_append, List.length_cons]
        omega
      · have hhalts : Halts (text ++ rest) := hs.halts fun hnil => absurd hnil htext
        have hroot := root?_word hc hw optional hhalts
        have hsteps := hs.read rest
        rw [List.append_assoc, List.append_assoc, ← List.append_assoc (c :: name)]
        simp only [path?, hroot, List.drop_left]
        refine ⟨_, rfl, ?_⟩
        simp only [List.length_append] at hsteps ⊢
        omega

/-- No path goes on here. -/
def Leaves (rest : List Char) : Prop :=
  ∀ c ∈ rest.head?, isWordChar c = false ∧ c ≠ '?' ∧ c ≠ '.' ∧ c ≠ '['

theorem leaves_cons {c : Char} (h : isWordChar c = false ∧ c ≠ '?' ∧ c ≠ '.' ∧ c ≠ '[')
    (rest : List Char) : Leaves (c :: rest) := by
  intro d hd
  cases hd
  exact h

theorem leaves_gap {c : Char} (h : isGap c = true) (rest : List Char) : Leaves (c :: rest) := by
  apply leaves_cons
  obtain rfl | rfl | rfl | rfl := isGap_cases h <;> decide

theorem leaves_of_spaced {rest : List Char} (h : Spaced rest) : Leaves rest := by
  obtain ⟨c, more, rfl, hc⟩ := h
  exact leaves_gap hc more

theorem Leaves.blanks {a rest : List Char} (h : Leaves rest) (ha : ∀ c ∈ a, isGap c = true) :
    Leaves (a ++ rest) := by
  cases a with
  | nil => exact h
  | cons c a => exact leaves_gap (ha c List.mem_cons_self) _

theorem Leaves.halts {rest : List Char} (h : Leaves rest) : Halts rest :=
  fun c hc => ⟨(h c hc).1, (h c hc).2.1⟩

theorem Leaves.step? {rest : List Char} (h : Leaves rest) : step? rest = none := by
  cases rest with
  | nil => rfl
  | cons c rest => exact step?_of_ne (h c rfl).2.2.1 (h c rfl).2.2.2 rest

theorem SpellsSteps.read_before (h : SpellsSteps quoting parts text) {rest : List Char}
    (hr : Leaves rest) : steps (text ++ rest) = (parts, text.length) := by
  induction h with
  | nil => exact steps_of_none hr.step?
  | cons h hs ih =>
      rw [List.append_assoc, steps_of_some (h.read_before (hs.halts fun _ => hr.halts)),
        List.drop_left, ih, List.length_append]

/-- A path is read as it is spelled if none goes on behind it. -/
theorem SpellsPath.read_before (h : SpellsPath quoting parts text) {rest : List Char}
    (hr : Leaves rest) : path? (text ++ rest) = some (parts, text.length) := by
  cases h with
  | @mk c name text parts optional hc hw hs =>
      have hroot := root?_word hc hw optional (hs.halts fun _ => hr.halts)
      have hl : (c :: name ++ (mark optional ++ text)).length
          = (c :: name ++ mark optional).length + text.length := by
        rw [← List.append_assoc, List.length_append]
      rw [List.append_assoc, List.append_assoc, ← List.append_assoc (c :: name)]
      simp only [path?, hroot, List.drop_left, hs.read_before hr, hl]

theorem SpellsPath.read_alone (h : SpellsPath quoting parts text) :
    path? text = some (parts, text.length) := by
  have hread := h.read_before (nofun : Leaves [])
  rwa [List.append_nil] at hread

theorem spellsPath_of_path? {text : List Char} {parts : List PathPart}
    (h : path? text = some (parts, text.length)) : SpellsPath .lenient parts text := by
  obtain ⟨spelled, rest, rfl, hlength, hspells⟩ := path?_sound h
  have hnil : rest = [] := List.length_eq_zero_iff.1 (by
    rw [List.length_append] at hlength
    omega)
  rwa [hnil, List.append_nil]

/-- A text that is a path as a whole is read up to where no path goes on. -/
theorem path?_append {text rest : List Char} {parts : List PathPart}
    (h : path? text = some (parts, text.length)) (hr : Leaves rest) :
    path? (text ++ rest) = some (parts, text.length) :=
  (spellsPath_of_path? h).read_before hr

end Complete

/-! The longest path -/

theorem longestPath_of_path? {run : List Char} {parts : List PathPart} {width : Nat}
    (h : path? run = some (parts, width)) :
    LongestPath .lenient run parts (run.take width) ∧ (run.take width).length = width := by
  obtain ⟨text, rest, rfl, rfl, hspells⟩ := path?_sound h
  rw [List.take_left]
  refine ⟨⟨hspells, ⟨rest, rfl⟩, fun {others other} ho hpre => ?_⟩, rfl⟩
  obtain ⟨behind, hbehind⟩ := hpre
  obtain ⟨read, hread, hle⟩ := ho.read behind
  rw [hbehind, h] at hread
  cases hread
  exact hle

theorem not_spellsPath_of_path? {run : List Char} (h : path? run = none) {quoting : Quoting}
    {parts : List PathPart} {text : List Char} (ht : SpellsPath quoting parts text) :
    ¬ text <+: run := by
  rintro ⟨rest, rfl⟩
  obtain ⟨read, hread, -⟩ := ht.read rest
  rw [h] at hread
  cases hread

/-- The longest path with paired quotes lies within the longest path with any, and is all of it
just where that has its quotes paired. -/
theorem LongestPath.within_lenient {run text : List Char} {parts : List PathPart}
    (h : LongestPath .paired run parts text) :
    ∃ others other, LongestPath .lenient run others other ∧ text <+: other ∧
      (other = text ↔ SpellsPath .paired others other) := by
  cases hread : path? run with
  | none => exact absurd h.begins (not_spellsPath_of_path? hread h.spells)
  | some read =>
      obtain ⟨hlongest, -⟩ := longestPath_of_path? hread
      have hlength := hlongest.longest h.spells.lenient h.begins
      have hwithin := List.prefix_of_prefix_length_le h.begins hlongest.begins hlength
      refine ⟨_, _, hlongest, hwithin, fun heq => ?_, fun hpaired => ?_⟩
      · have hsame := hlongest.spells.read_alone
        rw [heq, h.spells.read_alone] at hsame
        cases hsame
        exact heq ▸ h.spells
      · exact (hwithin.eq_of_length_le (h.longest hpaired hlongest.begins)).symm

/-- A word that begins as names do is a path of one name. -/
theorem spellsPath_word (quoting : Quoting) {c : Char} {name : List Char}
    (hc : isNameStart c = true) (hw : ∀ d ∈ name, isWordChar d = true) :
    SpellsPath quoting [⟨String.ofList (c :: name), false⟩] (c :: name) := by
  have hspells : SpellsPath quoting _ _ := SpellsPath.mk false hc hw .nil
  rwa [mark, if_neg Bool.false_ne_true, List.nil_append, List.append_nil] at hspells

/-- A text of word characters is a single name. -/
theorem SpellsPath.single {quoting : Quoting} {parts : List PathPart} {text : List Char}
    (h : SpellsPath quoting parts text) (hw : ∀ c ∈ text, isWordChar c = true) :
    parts.length = 1 := by
  cases h with
  | mk optional hc _ hs =>
      cases hs with
      | nil => rfl
      | cons hstep _ =>
          obtain ⟨d, more, rfl, hd⟩ := hstep.head
          have hword := hw d (by simp)
          obtain rfl | rfl := hd <;> cases hword

theorem isWordChar_of_reserved :
    ∀ word ∈ reservedWords, ∀ c ∈ word.toList, isWordChar c = true := by
  have h : reservedWords.all (fun word => word.toList.all isWordChar) = true := by decide
  simpa only [List.all_eq_true] using h

theorem SpellsPath.single_of_reserved {quoting : Quoting} {parts : List PathPart}
    {text : List Char} (h : SpellsPath quoting parts text)
    (hr : String.ofList text ∈ reservedWords) : parts.length = 1 :=
  h.single fun c hc => isWordChar_of_reserved _ hr c (by rwa [String.toList_ofList])

/-- The characters of paths. -/
def isPathChar (c : Char) : Bool := isBracketChar c || ['.', '?', '[', ']', '\''].contains c

theorem isPathChar_of_isBracketChar {c : Char} (h : isBracketChar c = true) :
    isPathChar c = true := by
  rw [isPathChar, h, Bool.true_or]

theorem isPathChar_of_isWordChar {c : Char} (h : isWordChar c = true) : isPathChar c = true :=
  isPathChar_of_isBracketChar (by rw [isBracketChar, h, Bool.true_or, Bool.true_or])

theorem isPathChar_of_mem_mark {optional : Bool} : ∀ c ∈ mark optional, isPathChar c = true := by
  cases optional <;> exact List.all_eq_true.1 rfl

theorem isPathChar_of_mem_quote {present : Bool} : ∀ c ∈ quote present, isPathChar c = true := by
  cases present <;> exact List.all_eq_true.1 rfl

section Chars

variable {quoting : Quoting} {part : PathPart} {parts : List PathPart} {text : List Char}

theorem SpellsStep.isPathChar (h : SpellsStep quoting part text) :
    ∀ c ∈ text, isPathChar c = true := by
  cases h with
  | dotted optional _ hw =>
      simp only [List.forall_mem_cons, List.forall_mem_append]
      exact ⟨rfl, fun c hc => isPathChar_of_isWordChar (hw c hc), isPathChar_of_mem_mark⟩
  | bracketed optional _ _ hw =>
      simp only [List.forall_mem_cons, List.forall_mem_append]
      exact ⟨rfl, isPathChar_of_mem_quote, fun c hc => isPathChar_of_isBracketChar (hw c hc),
        isPathChar_of_mem_quote, rfl, isPathChar_of_mem_mark⟩

theorem SpellsSteps.isPathChar (h : SpellsSteps quoting parts text) :
    ∀ c ∈ text, isPathChar c = true := by
  induction h with
  | nil => nofun
  | cons h _ ih => exact List.forall_mem_append.2 ⟨h.isPathChar, ih⟩

theorem isWordChar_of_isNameStart {c : Char} (h : isNameStart c = true) : isWordChar c = true := by
  simp only [isNameStart, Bool.or_eq_true] at h
  simp only [isWordChar, Bool.or_eq_true]
  exact h.imp_left .inl

theorem SpellsPath.isPathChar (h : SpellsPath quoting parts text) :
    ∀ c ∈ text, isPathChar c = true := by
  cases h with
  | mk optional hc hw hs =>
      simp only [List.forall_mem_append, List.forall_mem_cons]
      exact ⟨⟨isPathChar_of_isWordChar (isWordChar_of_isNameStart hc),
        fun d hd => isPathChar_of_isWordChar (hw d hd)⟩, isPathChar_of_mem_mark, hs.isPathChar⟩

end Chars

end Variable
end JsonTemplate
