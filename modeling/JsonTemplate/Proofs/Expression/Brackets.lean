import JsonTemplate.Proofs.Expression.NumberSyntax

/-!
Texts whose brackets balance. A scan counts the open brackets, and knows quotes and the
square brackets of a path, between which a bracket is a character as any other. Where a text
that balances ends at a closing bracket, no other one ends at another.
-/

namespace JsonTemplate
namespace Brackets

/-- Where a scan stands: between words, between quotes, behind a backslash there, or between
square brackets. -/
inductive Mode
  | plain
  | quoted (quote : Char)
  | escaped (quote : Char)
  | square

/-- The mode and the number of open brackets behind a character; no bracket closes that is
not open. -/
def step : Mode × Nat → Char → Option (Mode × Nat)
  | (.plain, depth), c =>
      if c = '(' then some (.plain, depth + 1)
      else if c = ')' then if depth = 0 then none else some (.plain, depth - 1)
      else if c = '"' ∨ c = '\'' then some (.quoted c, depth)
      else if c = '[' then some (.square, depth)
      else some (.plain, depth)
  | (.quoted quote, depth), c =>
      if c = quote then some (.plain, depth)
      else if c = '\\' then some (.escaped quote, depth)
      else some (.quoted quote, depth)
  | (.escaped quote, depth), _ => some (.quoted quote, depth)
  | (.square, depth), c => some (if c = ']' then .plain else .square, depth)

def scan : List Char → Mode × Nat → Option (Mode × Nat)
  | [], state => some state
  | c :: rest, state => (step state c).bind (scan rest)

/-- As many brackets are open behind the text as before it, and none of those before it is
closed in between. -/
def Balanced (text : List Char) : Prop := ∀ depth, scan text (.plain, depth) = some (.plain, depth)

theorem scan_append (s t : List Char) (state : Mode × Nat) :
    scan (s ++ t) state = (scan s state).bind (scan t) := by
  induction s generalizing state with
  | nil => rfl
  | cons c s ih =>
      rw [List.cons_append, scan, scan]
      cases step state c with
      | none => rfl
      | some next => exact ih next

theorem balanced_nil : Balanced [] := fun _ => rfl

theorem Balanced.append {s t : List Char} (hs : Balanced s) (ht : Balanced t) :
    Balanced (s ++ t) := by
  intro depth
  rw [scan_append, hs depth]
  exact ht depth

theorem balanced_group {t : List Char} (h : Balanced t) : Balanced ('(' :: (t ++ [')'])) := by
  intro depth
  have hinner := h (depth + 1)
  simp only [scan, step, if_true, Option.bind_some, scan_append, hinner]
  rfl

/-! Closing brackets -/

/-- No bracket closes behind a balanced text. -/
theorem not_balanced_close {s : List Char} (hs : Balanced s) (rest : List Char) :
    ¬ Balanced (s ++ ')' :: rest) := by
  intro h
  have hscan := h 0
  rw [scan_append, hs 0] at hscan
  cases hscan

/-- A balanced text ends where the first bracket closes, so there are no two of them. -/
theorem Balanced.unique {s t q r : List Char} (hs : Balanced s) (ht : Balanced t)
    (h : s ++ ')' :: q = t ++ ')' :: r) : s = t := by
  obtain ⟨more, ht', hq⟩ | ⟨more, hs', hr⟩ := List.append_eq_append_iff.1 h
  · cases more with
    | nil => rw [ht', List.append_nil]
    | cons c more =>
        cases hq
        exact absurd (ht' ▸ ht) (not_balanced_close hs more)
  · cases more with
    | nil => rw [hs', List.append_nil]
    | cons c more =>
        cases hr
        exact absurd (hs' ▸ hs) (not_balanced_close ht more)

/-! Words -/

/-- The characters that a scan acts upon between words. -/
def marks : List Char := ['(', ')', '"', '\'', '[']

theorem step_of_not_mem {c : Char} (h : c ∉ marks) (depth : Nat) :
    step (.plain, depth) c = some (.plain, depth) := by
  simp only [marks, List.mem_cons, List.not_mem_nil, or_false, not_or] at h
  simp only [step, h, or_self, if_false]

theorem not_mem_marks {p : Char → Bool} (hp : marks.any p = false) {c : Char}
    (h : p c = true) : c ∉ marks :=
  fun hc => List.any_eq_false.1 hp c hc h

theorem balanced_plain {text : List Char} (h : ∀ c ∈ text, c ∉ marks) : Balanced text := by
  intro depth
  induction text with
  | nil => rfl
  | cons c text ih =>
      rw [scan, step_of_not_mem (h c List.mem_cons_self)]
      exact ih fun d hd => h d (List.mem_cons_of_mem c hd)

/-- A text of characters among which there are no marks. -/
theorem balanced_of_all {p : Char → Bool} (hp : marks.any p = false) {text : List Char}
    (h : ∀ c ∈ text, p c = true) : Balanced text :=
  balanced_plain fun c hc => not_mem_marks hp (h c hc)

theorem balanced_blanks {text : List Char} (h : ∀ c ∈ text, isGap c = true) : Balanced text :=
  balanced_of_all rfl h

theorem balanced_word {text : List Char} (h : ∀ c ∈ text, isWordChar c = true) : Balanced text :=
  balanced_of_all rfl h

theorem balanced_number {text : List Char} (h : Literal.SpellsNumber text) : Balanced text :=
  balanced_of_all rfl h.isNumberChar

/-! Paths -/

theorem scan_square {text : List Char} (h : ∀ c ∈ text, c ≠ ']') (depth : Nat) :
    scan (text ++ [']']) (.square, depth) = some (.plain, depth) := by
  induction text with
  | nil => rfl
  | cons c text ih =>
      simp only [List.cons_append, scan, step, if_neg (h c List.mem_cons_self), Option.bind_some]
      exact ih fun d hd => h d (List.mem_cons_of_mem c hd)

theorem balanced_square {text : List Char} (h : ∀ c ∈ text, c ≠ ']') :
    Balanced ('[' :: (text ++ [']'])) :=
  scan_square h

theorem balanced_mark (optional : Bool) : Balanced (Writing.mark optional) := by
  cases optional <;> exact fun _ => rfl

theorem balanced_step {quoting : Variable.Quoting} {part : PathPart} {text : List Char}
    (h : Variable.SpellsStep quoting part text) : Balanced text := by
  cases h with
  | dotted optional hn hw =>
      have hdot : Balanced ['.'] := fun _ => rfl
      exact hdot.append ((balanced_word hw).append (balanced_mark optional))
  | @bracketed name before after optional hq hn hw =>
      have hquote : ∀ present, ∀ c ∈ Variable.quote present, c ≠ ']' := by
        rintro present c hc rfl
        cases present <;> exact absurd hc (by decide)
      have hname : ∀ c ∈ name, c ≠ ']' := by
        rintro c hc rfl
        cases hw _ hc
      have hinner : ∀ c ∈ Variable.quote before ++ (name ++ Variable.quote after), c ≠ ']' :=
        List.forall_mem_append.2
          ⟨hquote before, List.forall_mem_append.2 ⟨hname, hquote after⟩⟩
      have hstep := (balanced_square hinner).append (balanced_mark optional)
      simpa only [List.append_assoc, List.cons_append, List.nil_append] using hstep

theorem balanced_path {quoting : Variable.Quoting} {parts : List PathPart} {text : List Char}
    (h : Variable.SpellsPath quoting parts text) : Balanced text := by
  have hsteps : ∀ {parts : List PathPart} {text : List Char},
      Variable.SpellsSteps quoting parts text → Balanced text := by
    intro parts text h
    induction h with
    | nil => exact balanced_nil
    | cons h _ ih => exact (balanced_step h).append ih
  cases h with
  | mk optional hc hw hs =>
      have hname := balanced_word
        (List.forall_mem_cons.2 ⟨Variable.isWordChar_of_isNameStart hc, hw⟩)
      exact hname.append ((balanced_mark optional).append (hsteps hs))

/-! Strings in quotes -/

theorem scan_quoted {quote : Char} (hq : quote ≠ '\\') {text : List Char} {width : Nat}
    (h : Literal.quotedTailWidth? quote text = some width) (depth : Nat) :
    scan (text.take width) (.quoted quote, depth) = some (.plain, depth) := by
  induction text using Literal.quotedTailWidth?.induct quote generalizing width with
  | case1 => cases h
  | case2 rest => simp [Literal.quotedTailWidth?] at h
  | case3 c rest hc ih =>
      rw [Literal.quotedTailWidth?, if_neg hc] at h
      obtain ⟨behind, hbehind, rfl⟩ := Option.map_eq_some_iff.1 h
      simp only [List.take_succ_cons, scan, step, if_neg hq.symm, if_true, Option.bind_some]
      exact ih hbehind
  | case4 rest =>
      rw [Writing.quotedTailWidth?_of_ne hq, if_pos rfl] at h
      cases h
      simp only [List.take_succ_cons, List.take_zero, scan, step, if_true, Option.bind_some]
  | case5 rest hrest hne =>
      cases rest with
      | nil => simp [Literal.quotedTailWidth?, hne] at h
      | cons c rest => exact (hrest c rest rfl rfl).elim
  | case6 c rest _ hne hb ih =>
      rw [Writing.quotedTailWidth?_of_ne hb, if_neg hne] at h
      obtain ⟨behind, hbehind, rfl⟩ := Option.map_eq_some_iff.1 h
      simp only [List.take_succ_cons, scan, step, if_neg hne, if_neg hb, Option.bind_some]
      exact ih hbehind

theorem balanced_quoted {quote : Char} (hq : quote = '"' ∨ quote = '\'') {run : List Char}
    (h : Literal.quotedWidth quote run ≠ 0) :
    Balanced (run.take (Literal.quotedWidth quote run)) := by
  have hb : quote ≠ '\\' := by obtain rfl | rfl := hq <;> decide
  cases run with
  | nil => exact absurd rfl h
  | cons c rest =>
      by_cases hc : c = quote
      · subst hc
        rw [Literal.quotedWidth, if_pos rfl] at h ⊢
        cases htail : Literal.quotedTailWidth? c rest with
        | none =>
            rw [htail] at h
            exact absurd rfl h
        | some width =>
            intro depth
            have hopen : step (.plain, depth) c = some (.quoted c, depth) := by
              obtain rfl | rfl := hq <;> rfl
            simp only [Option.map_some, Option.getD_some, List.take_succ_cons, scan, hopen,
              Option.bind_some]
            exact scan_quoted hb htail depth
      · exact absurd (by rw [Literal.quotedWidth, if_neg hc]) h

end Brackets
end JsonTemplate
