import JsonTemplate.Proofs.Expression.Constructs

/-!
How expressions begin. No written expression begins with a word of the statements, and
where none of the characters stands that expressions begin with, every rule for them is
refused.
-/

namespace JsonTemplate
namespace Rules

open Writing

/-- The characters that expressions begin with. -/
def isOpening (c : Char) : Bool :=
  c == '(' || isDigit c || c == '-' || Variable.isNameStart c || c == '"' || c == '\''

/-- The words that statements begin with. -/
def statementWords : List String := ["if", "ifelse", "else", "each", "flatten"]

def Starts (text : List Char) : Prop := ∃ c more, text = c :: more ∧ isOpening c = true

/-- A text begins as expressions do, and not as another statement. -/
def Opens (text : List Char) : Prop := Starts text ∧ firstWord text ∉ statementWords

variable {n : Node} {text rest : List Char}

theorem isGap_of_isOpening {c : Char} (h : isOpening c = true) : isGap c = false := by
  apply Bool.eq_false_iff.2
  intro hg
  obtain rfl | rfl | rfl | rfl := isGap_cases hg <;> cases h

theorem Starts.begins (h : Starts text) : Begins text := by
  obtain ⟨c, more, rfl, hc⟩ := h
  exact ⟨c, more, rfl, isGap_of_isOpening hc⟩

theorem Starts.append (h : Starts text) (rest : List Char) : Starts (text ++ rest) := by
  obtain ⟨c, more, rfl, hc⟩ := h
  exact ⟨c, more ++ rest, rfl, hc⟩

theorem Starts.avoids {p : Char → Bool} (h : Starts text) (hp : ∀ c, p c = true → isOpening c = false)
    (rest : List Char) : Avoids p (text ++ rest) := by
  obtain ⟨c, more, rfl, hc⟩ := h
  refine avoids_cons (Bool.eq_false_iff.2 fun h => ?_) _
  rw [hp c h] at hc
  cases hc

theorem Opens.begins (h : Opens text) : Begins text := h.1.begins

theorem Opens.append (h : Opens text) (hr : Spaced rest) : Opens (text ++ rest) :=
  ⟨h.1.append rest, by rw [firstWord_append _ hr]; exact h.2⟩

/-- Words that begin with a letter are not first where no letter stands. -/
theorem opens_of_not_isLetter {c : Char} (hc : isOpening c = true) (hl : isLetter c = false)
    (more : List Char) : Opens (c :: more) := by
  refine ⟨⟨c, more, rfl, hc⟩, fun hw => ?_⟩
  have hletter : ∀ s ∈ statementWords, ∃ d rest, s.toList = d :: rest ∧ isLetter d = true := by
    intro s hs
    simp only [statementWords, List.mem_cons, List.not_mem_nil, or_false] at hs
    obtain rfl | rfl | rfl | rfl | rfl := hs <;> exact ⟨_, _, rfl, rfl⟩
  obtain ⟨d, rest, hd, hdl⟩ := hletter _ hw
  rw [firstWord, String.toList_ofList, List.takeWhile_cons] at hd
  split at hd
  · cases hd
    rw [hl] at hdl
    cases hdl
  · cases hd

theorem isLetter_of_isDigit {c : Char} (h : isDigit c = true) : isLetter c = false := by
  simp only [isDigit, isLetter, Bool.and_eq_true, decide_eq_true_eq, Bool.or_eq_false_iff,
    Bool.and_eq_false_iff, decide_eq_false_iff_not, Char.le_def] at h ⊢
  have h9 : c.val ≤ 57 := h.2
  exact ⟨.inl fun ha => absurd (UInt32.le_trans ha h9) (by decide),
    .inl fun ha => absurd (UInt32.le_trans ha h9) (by decide)⟩

theorem opens_number (i : Int) : Opens (toString i).toList := by
  obtain ⟨c, more, ht, hc⟩ := Literal.toString_cons i
  rw [ht]
  obtain hd | rfl := hc
  · exact opens_of_not_isLetter (by simp [isOpening, hd]) (isLetter_of_isDigit hd) more
  · exact opens_of_not_isLetter rfl rfl more

theorem opens_identifier {name : List Char} (hn : IsIdentifier name)
    (hr : ∀ c ∈ rest.head?, isWordChar c = false) : Opens (name ++ rest) := by
  obtain ⟨c, more, rfl, hc⟩ := hn.start
  refine ⟨⟨c, more ++ rest, rfl, by simp [isOpening, hc]⟩, ?_⟩
  rw [firstWord, takeWhile_append_stop hn.word hr]
  intro hw
  apply hn.free
  have : ∀ s ∈ statementWords, s ∈ keywords := by decide
  exact this _ hw

theorem opens_path {p : VariablePath} (h : WritesPath p text) : Opens text := by
  obtain @⟨name, more, optional, parts, hn, hs, -⟩ := h
  exact opens_identifier hn (hs.continues.halts.head_mark optional)

theorem Denotes.nameStart {p : VariablePath} (h : Denotes text p) :
    ∃ c more, text = c :: more ∧ Variable.isNameStart c = true := by
  cases text with
  | nil => cases h.whole
  | cons c more =>
      refine ⟨c, more, rfl, ?_⟩
      have hwhole := h.whole
      cases hc : Variable.isNameStart c with
      | true => rfl
      | false => simp [Variable.path?, Variable.root?, hc] at hwhole

theorem Denotes.starts {p : VariablePath} (h : Denotes text p) : Starts text := by
  obtain ⟨c, more, rfl, hc⟩ := h.nameStart
  exact ⟨c, more, rfl, by simp [isOpening, hc]⟩

theorem opens_literal (h : WritesLiteral n text) : Opens text := by
  cases h with
  | null | undefined => exact ⟨⟨_, _, rfl, rfl⟩, by decide⟩
  | bool b => cases b <;> exact ⟨⟨_, _, rfl, rfl⟩, by decide⟩
  | quoted s hq => obtain rfl | rfl := hq <;> exact opens_of_not_isLetter rfl rfl _

theorem opens_writes {layer : Layer} (h : Writes layer n text) : Opens text := by
  induction h with
  | number => exact opens_number _
  | path h => exact opens_path h
  | group | enclosed => exact opens_of_not_isLetter rfl rfl _
  | literal h | enclosedLiteral h => exact opens_literal h
  | operation _ _ ha _ _ ih _ | comparison _ _ ha _ _ ih _ | nullish _ ha _ _ ih _
  | nullishMore _ ha _ _ ih _ | ternary _ ha _ _ _ _ _ ih _ _ => exact ih.append (ha.spaced _)
  | atom _ ih | operand _ ih | term _ ih | compared _ ih | enclosedTernary _ ih
  | enclosedNullish _ ih | enclosedComparison _ ih => exact ih

/-! Refusals -/

theorem refuses_parenthesized {inner : TemplateRule} (h : Avoids (· == '(') text) :
    Refuses (parenthesized inner) text :=
  (declines_sequence (declines_char h)).refuses

theorem refuses_leftOfOperation (hg : Refuses (.ref .operandGroup) text) (hn : Refuses number text)
    (hp : Refuses path text) : Refuses (.ref .leftOfOperation) text := by
  refine refuses_ref (refuses_oneOf fun r hr => ?_)
  simp only [List.mem_cons, List.not_mem_nil, or_false] at hr
  obtain rfl | rfl | rfl := hr
  · exact hg
  · exact hn
  · exact hp

theorem refuses_operand (hg : Refuses (.ref .operandGroup) text) (hn : Refuses number text)
    (hp : Refuses path text) : Refuses (.ref .operand) text := by
  refine refuses_ref (refuses_oneOf fun r hr => ?_)
  simp only [List.mem_cons, List.not_mem_nil, or_false] at hr
  obtain rfl | rfl | rfl | rfl := hr
  · exact refuses_ref (refuses_sequence (refusesAll_head (refuses_leftOfOperation hg hn hp)))
  · exact hg
  · exact hn
  · exact hp

theorem refuses_comparison (h : Refuses (.ref .leftOfComparison) text) :
    Refuses (.ref .comparison) text :=
  refuses_ref (refuses_sequence (refusesAll_head h))

theorem refuses_ternary (h : Refuses (.ref .comparison) text) : Refuses ternary text :=
  refuses_sequence (refusesAll_head (refuses_must h _))

theorem refuses_term (h : Avoids isOpening text) : ∀ r ∈ termRules, Refuses r text := by
  have hword : Avoids isWordChar text := h.mono fun c hc => by
    simp only [isWordChar, isOpening, Variable.isNameStart, Bool.or_eq_true] at hc ⊢
    grind
  have hfirst := firstWord_of_avoids hword
  have hbracket : Avoids (· == '(') text := h.mono fun c hc => by
    rw [eq_of_beq hc]
    rfl
  have hnumber : Refuses number text := refuses_number (h.mono fun c hc => by
    simp only [isOpening, Bool.or_eq_true] at hc ⊢
    grind)
  have hpath : Refuses path text := refuses_path (h.mono fun c hc => by simp [isOpening, hc])
  intro r hr
  simp only [termRules, literalRules, List.mem_cons, List.not_mem_nil, or_false] at hr
  obtain rfl | rfl | rfl | rfl | rfl | rfl | rfl | rfl := hr
  · exact refuses_operand (refuses_ref (refuses_parenthesized hbracket)) hnumber hpath
  · exact refuses_ref (refuses_parenthesized hbracket)
  · exact hnumber
  · exact refuses_boolean (by rw [hfirst]; decide) (by rw [hfirst]; decide)
  · exact refuses_null (by rw [hfirst]; decide)
  · exact refuses_undefined (by rw [hfirst]; decide)
  · exact hpath
  · refine refuses_quoted (h.mono fun c hc => ?_)
    simp only [isOpening, Bool.or_eq_true] at hc ⊢
    grind

theorem refuses_operand_of_avoids (h : Avoids isOpening text) : Refuses (.ref .operand) text :=
  refuses_term h _ List.mem_cons_self

theorem refuses_expression_of_avoids (h : Avoids isOpening text) :
    Refuses (.ref .expression) text := by
  refine refuses_ref (refuses_oneOf fun r hr => ?_)
  cases hr with
  | head => exact refuses_comparison (refuses_ref (refuses_oneOf (refuses_term h)))
  | tail _ hr => exact refuses_term h r hr

/-! Statements -/

theorem refuses_conditional (h : firstWord text ∉ ["if", "ifelse", "else"]) :
    Refuses conditional text := by
  have hne : ∀ s ∈ ["if", "ifelse", "else"], firstWord text ≠ s := fun s hs he => h (he ▸ hs)
  have hif := hne "if" (by decide)
  have helse := hne "else" (by decide)
  apply refuses_oneOf
  intro r hr
  simp only [List.mem_cons, List.not_mem_nil, or_false] at hr
  obtain rfl | rfl | rfl := hr
  · exact (declines_sequence (declines_keyword rfl hif)).refuses
  · refine (declines_sequence (declines_oneOf fun r hr => ?_)).refuses
    simp only [List.mem_cons, List.not_mem_nil, or_false] at hr
    obtain rfl | rfl := hr
    · exact declines_keyword rfl (hne "ifelse" (by decide))
    · exact declines_sequence (declines_keyword rfl helse)
  · exact refuses_keyword_map rfl helse

theorem refuses_each (h : firstWord text ≠ "each") : Refuses each text :=
  (declines_sequence (declines_keyword rfl h)).refuses

theorem Opens.refuses_words (h : Opens text) : Refuses conditional text ∧ Refuses each text := by
  refine ⟨refuses_conditional fun hw => h.2 ?_, refuses_each fun hw => h.2 ?_⟩
  · have : ∀ s ∈ ["if", "ifelse", "else"], s ∈ statementWords := by decide
    exact this _ hw
  · rw [hw]
    decide

end Rules
end JsonTemplate
