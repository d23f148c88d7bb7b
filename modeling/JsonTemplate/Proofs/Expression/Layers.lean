import JsonTemplate.Proofs.Expression.Openings

/-!
Expressions are read back. A rule that comes before the right one either does not begin as
the text does or misses what must stand behind its first operand, so it is refused; what
must not follow an expression depends on its layer. By induction on how a tree is written,
each layer is read by its rule (`Writes.read`). An expression that only a group holds must
also be no operand with a bracket behind it, since brackets around operands are tried first.
-/

namespace JsonTemplate
namespace Rules

open Writing

variable {n : Node} {text rest after a b t : List Char} {P : Payload Fragment → Prop}

/-! What follows -/

/-- Behind some blanks stands such a text. -/
def Before (ends : List Char → Prop) (rest : List Char) : Prop :=
  ∃ a after, rest = a ++ after ∧ Gap a ∧ Avoids isGap after ∧ ends after

/-- No operation goes on here; a comment begins like a division. -/
def EndsOperand (text : List Char) : Prop :=
  Avoids isArithmetic text ∨ ∃ more, text = '/' :: '*' :: more

/-- No operand goes on here: no word does, nor an operation behind any blanks. -/
structure Ceases (rest : List Char) : Prop where
  word : Variable.Leaves rest
  operation : ∃ a after, rest = a ++ after ∧ (∀ c ∈ a, isGap c = true) ∧ Avoids isGap after ∧
    EndsOperand after

structure EndsExpression (text : List Char) : Prop where
  operand : EndsOperand text
  sign : Avoids isComparing text

/-- Neither a coalescing nor a ternary goes on here. -/
structure EndsValue (text : List Char) : Prop where
  expression : EndsExpression text
  mark : Avoids (· == '?') text

/-- No group ends here. -/
structure StaysOpen (text : List Char) : Prop where
  operand : EndsOperand text
  bracket : Avoids (· == ')') text

theorem before {ends : List Char → Prop} (ha : Gap a) (h : Avoids isGap after) (he : ends after) :
    Before ends (a ++ after) :=
  ⟨a, after, rfl, ha, h, he⟩

theorem Before.spaced {ends : List Char → Prop} (h : Before ends rest) : Spaced rest := by
  obtain ⟨a, after, rfl, ha, -, -⟩ := h
  exact ha.spaced after

theorem Before.imp {p q : List Char → Prop} (h : Before p rest) (hpq : ∀ after, p after → q after) :
    Before q rest := by
  obtain ⟨a, after, rfl, ha, hg, hp⟩ := h
  exact ⟨a, after, rfl, ha, hg, hpq after hp⟩

theorem Before.ceases (h : Before EndsOperand rest) : Ceases rest := by
  refine ⟨Variable.leaves_of_spaced h.spaced, ?_⟩
  obtain ⟨a, after, rfl, ha, hg, he⟩ := h
  exact ⟨a, after, rfl, ha.all_isGap, hg, he⟩

theorem endsExpression_cons {c : Char} (ha : isArithmetic c = false) (hc : isComparing c = false)
    (more : List Char) : EndsExpression (c :: more) :=
  ⟨.inl (avoids_cons ha more), avoids_cons hc more⟩

theorem endsValue_cons {c : Char} (ha : isArithmetic c = false) (hc : isComparing c = false)
    (hm : (c == '?') = false) (more : List Char) : EndsValue (c :: more) :=
  ⟨endsExpression_cons ha hc more, avoids_cons (p := (· == '?')) hm more⟩

theorem staysOpen_cons {c : Char} (ha : isArithmetic c = false) (hb : (c == ')') = false)
    (more : List Char) : StaysOpen (c :: more) :=
  ⟨.inl (avoids_cons ha more), avoids_cons (p := (· == ')')) hb more⟩

theorem staysOpen_comparison (op : Comparison) (more : List Char) :
    StaysOpen (op.sign.toList ++ more) := by
  cases op <;> exact staysOpen_cons rfl rfl _

/-! Rules that miss what stands behind their first operand -/

/-- Where no operation goes on, the sign is missing or the text behind it is no operand. -/
theorem refuses_operation (hl : Reads (body .leftOfOperation) text rest P)
    (h : Ceases rest) : Refuses (.ref .operation) (text ++ rest) := by
  obtain ⟨a, after, rfl, ha, hg, hends⟩ := h.operation
  refine refuses_ref (refuses_sequence (refusesAll_tail (reads_ref hl)
    (refusesAll_tail (reads_blanks ha hg) ?_)))
  obtain havoid | ⟨more, rfl⟩ := hends
  · exact refusesAll_head (refuses_arithmetic_sign havoid)
  · have hno : Refuses (.ref .operand) ('*' :: more) :=
      refuses_operand_of_avoids (avoids_cons rfl more)
    change RefusesAll _ (Arithmetic.div.sign.toList ++ ([] ++ '*' :: more))
    exact refusesAll_tail (reads_arithmetic_sign .div _)
      (refusesAll_tail (reads_no_space (avoids_cons rfl more)) (refusesAll_head hno))

theorem refuses_comparison_unsigned (hl : Reads (body .leftOfComparison) text rest P)
    (h : Before (Avoids isComparing) rest) : Refuses (.ref .comparison) (text ++ rest) := by
  obtain ⟨a, after, rfl, ha, hg, hends⟩ := h
  exact refuses_ref (refuses_sequence (refusesAll_tail (reads_ref hl)
    (refusesAll_tail (reads_space ha hg)
      (refusesAll_head (refuses_must (refuses_comparison_sign hends) _)))))

theorem refuses_nullish_unmarked (hl : Reads expression text rest P)
    (h : Before (Avoids (· == '?')) rest) : Refuses (.ref .nullish) (text ++ rest) := by
  obtain ⟨a, after, rfl, ha, hg, hends⟩ := h
  have hleft : Reads (.ref .leftOfNullish) text (a ++ after) P := reads_ref hl
  refine refuses_ref (refuses_sequence (refusesAll_tail hleft
    (refusesAll_tail (reads_space ha hg) (refusesAll_head ?_))))
  exact (declines_text_of_avoids ⟨'?', ['?'], rfl, rfl⟩ hends).refuses

theorem refuses_ternary_unmarked (hc : Reads (.ref .comparison) text rest P)
    (h : Before (Avoids (· == '?')) rest) : Refuses ternary (text ++ rest) := by
  obtain ⟨a, after, rfl, ha, hg, hends⟩ := h
  refine refuses_sequence (refusesAll_tail (reads_must hc _)
    (refusesAll_tail (reads_space ha hg) (refusesAll_head (refuses_must ?_ _))))
  exact (declines_text_of_avoids ⟨'?', [], rfl, rfl⟩ hends).refuses

/-- A ternary takes the first mark of two, and no branch begins with the second. -/
theorem refuses_ternary_nullish {more : List Char} (ha : Gap a)
    (hc : Reads (.ref .comparison) text (a ++ ("??".toList ++ more)) P) :
    Refuses ternary (text ++ (a ++ ("??".toList ++ more))) := by
  have hmark : Reads (.text "?") ['?'] ('?' :: more) (· = .text "?") := reads_text "?" _
  have hno : Refuses (.ref .expression) ('?' :: more) :=
    refuses_expression_of_avoids (avoids_cons rfl more)
  refine refuses_sequence (refusesAll_tail (reads_must hc _)
    (refusesAll_tail (reads_space ha (avoids_cons rfl _)) ?_))
  change RefusesAll _ (['?'] ++ ([] ++ '?' :: more))
  exact refusesAll_tail (reads_must hmark _)
    (refusesAll_tail (reads_no_space (avoids_cons rfl more)) (refusesAll_head (refuses_must hno _)))

/-! Brackets around operands -/

/-- What stands here is no operand with a bracket behind it. -/
def Unclosed (text : List Char) : Prop := RefusesAll [.ref .operand, space, .char ')'] text

theorem unclosed_of_reads (h : Reads (.ref .operand) text rest P)
    (hr : Before (Avoids (· == ')')) rest) : Unclosed (text ++ rest) := by
  obtain ⟨a, after, rfl, ha, hg, hends⟩ := hr
  exact refusesAll_tail h (refusesAll_tail (reads_space ha hg)
    (refusesAll_head (declines_char hends).refuses))

theorem refuses_operandGroup (ha : Gap a) (hg : Avoids isGap text) (h : Unclosed text) :
    Refuses (.ref .operandGroup) ('(' :: (a ++ text)) := by
  change Refuses _ (['('] ++ (a ++ text))
  exact refuses_ref (refuses_sequence (refusesAll_tail (reads_char '(' _)
    (refusesAll_tail (reads_space ha hg) h)))

/-! Literals -/

/-- A text is no operand, no group and no number. -/
structure NoOperand (text : List Char) : Prop where
  bracket : Avoids (· == '(') text
  number : Refuses number text
  path : Refuses path text

theorem NoOperand.operand (h : NoOperand text) : Refuses (.ref .operand) text :=
  refuses_operand (refuses_ref (refuses_parenthesized h.bracket)) h.number h.path

theorem NoOperand.group (h : NoOperand text) : Refuses (.ref .group) text :=
  refuses_ref (refuses_parenthesized h.bracket)

theorem noOperand_reserved {s : String} (hs : s ∈ Variable.reservedWords) (h : Spaced rest) :
    NoOperand (s.toList ++ rest) := by
  have hpath : ∀ c more, s.toList = c :: more → Variable.isNameStart c = true →
      more.all isWordChar = true → Refuses path (s.toList ++ rest) := fun c more ht hc hw =>
    refuses_path_reserved hs (ht ▸ Variable.spellsPath_word .lenient hc (List.all_eq_true.1 hw))
      (Variable.leaves_of_spaced h)
  simp only [Variable.reservedWords, List.mem_cons, List.not_mem_nil, or_false] at hs
  obtain rfl | rfl | rfl | rfl := hs <;>
    exact ⟨avoids_cons rfl _, refuses_number (avoids_cons rfl _), hpath _ _ rfl rfl rfl⟩

theorem noOperand_quoted {quote : Char} (hq : quote = '"' ∨ quote = '\'') (more : List Char) :
    NoOperand (quote :: more) := by
  obtain rfl | rfl := hq <;>
    exact ⟨avoids_cons rfl _, refuses_number (avoids_cons rfl _), refuses_path (avoids_cons rfl _)⟩

theorem noOperand_literal (h : WritesLiteral n text) (hr : Spaced rest) :
    NoOperand (text ++ rest) := by
  cases h with
  | null => exact noOperand_reserved (by decide) hr
  | undefined => exact noOperand_reserved (by decide) hr
  | bool b => cases b <;> exact noOperand_reserved (by decide) hr
  | quoted s hq => exact noOperand_quoted hq _

/-- The word that a literal is, if it is one. -/
def literalWord : Node → String
  | .null _ => "null"
  | .undefined _ => "undefined"
  | .bool b _ => if b then "true" else "false"
  | _ => ""

theorem firstWord_literal (h : WritesLiteral n text) (hr : Spaced rest) :
    firstWord (text ++ rest) = literalWord n := by
  rw [firstWord_append _ hr]
  cases h with
  | null | undefined => decide
  | bool b => cases b <;> decide
  | quoted s hq => obtain rfl | rfl := hq <;> exact firstWord_of_avoids (avoids_cons rfl _)

theorem reads_or_refuses_literal (h : WritesLiteral n text) (hr : Spaced rest) :
    ∀ r ∈ literalRules, Reads r text rest (IsNode n) ∨ Refuses r (text ++ rest) := by
  have hno := noOperand_literal h hr
  have hne : ∀ s, literalWord n ≠ s → firstWord (text ++ rest) ≠ s := fun s hs => by
    rwa [firstWord_literal h hr]
  intro r hmem
  simp only [literalRules, List.mem_cons, List.not_mem_nil, or_false] at hmem
  obtain rfl | rfl | rfl | rfl | rfl | rfl := hmem
  · exact .inr hno.number
  · cases h with
    | bool b => exact .inl (reads_boolean b hr)
    | null | undefined | quoted =>
        exact .inr (refuses_boolean (hne _ (by simp [literalWord])) (hne _ (by simp [literalWord])))
  · cases h with
    | null => exact .inl (reads_null hr)
    | undefined | quoted => exact .inr (refuses_null (hne _ (by simp [literalWord])))
    | bool b => exact .inr (refuses_null (hne _ (by cases b <;> simp [literalWord])))
  · cases h with
    | undefined => exact .inl (reads_undefined hr)
    | null | quoted => exact .inr (refuses_undefined (hne _ (by simp [literalWord])))
    | bool b => exact .inr (refuses_undefined (hne _ (by cases b <;> simp [literalWord])))
  · exact .inr hno.path
  · cases h with
    | quoted s hq => exact .inl (reads_quoted hq s rest)
    | null | undefined => exact .inr (refuses_quoted (avoids_cons rfl _))
    | bool b => cases b <;> exact .inr (refuses_quoted (avoids_cons rfl _))

theorem exists_reads_literal (h : WritesLiteral n text) (hr : Spaced rest) :
    ∃ r ∈ literalRules, Reads r text rest (IsNode n) := by
  cases h with
  | null => exact ⟨null, by simp [literalRules], reads_null hr⟩
  | undefined => exact ⟨undefined, by simp [literalRules], reads_undefined hr⟩
  | bool b => exact ⟨boolean, by simp [literalRules], reads_boolean b hr⟩
  | quoted s hq => exact ⟨quoted, by simp [literalRules], reads_quoted hq s rest⟩

/-- A literal is read whatever the order of the rules. -/
theorem reads_literal {rules : List TemplateRule} (h : WritesLiteral n text) (hr : Spaced rest)
    (hrules : ∀ r, r ∈ rules ↔ r ∈ literalRules) : Reads (.oneOf rules) text rest (IsNode n) := by
  obtain ⟨r, hmem, hread⟩ := exists_reads_literal h hr
  exact reads_oneOf (fun r hr' => reads_or_refuses_literal h hr r ((hrules r).1 hr'))
    ⟨r, (hrules r).2 hmem, hread⟩

/-! Layers -/

/-- What it means that a layer of expressions is read. -/
def Layer.Read : Layer → Node → List Char → Prop
  | .atom, n, t => ∀ rest, Variable.Leaves rest → Reads (body .leftOfOperation) t rest (IsNode n)
  | .operand, n, t => ∀ rest, Ceases rest → Reads (.ref .operand) t rest (IsNode n)
  | .term, n, t =>
      (∀ rest, Before EndsOperand rest → Reads (body .leftOfComparison) t rest (IsNode n)) ∧
      ∀ rest, Before StaysOpen rest → Unclosed (t ++ rest)
  | .comparison, n, t =>
      (∀ rest, Before EndsExpression rest → Reads (.ref .comparison) t rest (IsNode n)) ∧
      ∀ rest, Unclosed (t ++ rest)
  | .expression, n, t =>
      (∀ rest, Before EndsExpression rest → Reads expression t rest (IsNode n) ∧
        (Reads (.ref .comparison) t rest (IsNode n) ∨ Refuses (.ref .comparison) (t ++ rest))) ∧
      ∀ rest, Before StaysOpen rest → Unclosed (t ++ rest)
  | .nullish, n, t =>
      (∀ rest, Before EndsValue rest → Reads (.ref .nullish) t rest (IsNode n)) ∧
      ∀ rest, Unclosed (t ++ rest) ∧ Refuses ternary (t ++ rest)
  | .ternary, n, t =>
      (∀ rest, Before EndsExpression rest → Reads ternary t rest (IsNode n)) ∧
      ∀ rest, Unclosed (t ++ rest)
  | .enclosed, n, t =>
      ∀ b rest, Gap b → Reads (.oneOf [ternary, .ref .nullish, .ref .insideGroup]) t
        (b ++ ([')'] ++ rest)) (IsNode n) ∧ Unclosed (t ++ (b ++ ([')'] ++ rest)))

variable {l r : Node} {s : List Char}

theorem read_number {k : Number} (ht : Literal.SpellsNumber t) (hk : Literal.number? t = some k) :
    Layer.Read .atom (.number k (.empty 0)) t := by
  intro rest hr
  have hread := reads_number ht hk hr
  obtain ⟨c, more, rfl, hc⟩ := ht.head
  have hgroup : Refuses (.ref .operandGroup) (c :: more ++ rest) := by
    refine refuses_ref (refuses_parenthesized (avoids_cons ?_ _))
    apply Bool.eq_false_iff.2
    intro he
    rw [eq_of_beq he] at hc
    obtain hd | hm := hc
    · cases hd
    · exact absurd hm (by decide)
  exact reads_oneOf_tail hgroup (reads_oneOf_head hread)

theorem firstWord_identifier {x : List Char} (hx : IsIdentifier x)
    (hr : ∀ c ∈ rest.head?, isWordChar c = false) : firstWord (x ++ rest) ∉ keywords := by
  rw [firstWord, takeWhile_append_stop hx.word hr]
  exact hx.free

theorem denotes_of_steps {name : List Char} {parts : List PathPart} (hn : IsIdentifier name)
    (optional : Bool) (h : Halts text) (hs : Variable.steps text = (parts, text.length))
    (hl : parts.length < Variable.maximumLength) :
    Denotes (name ++ mark optional ++ text) ⟨⟨String.ofList name, optional⟩ :: parts⟩ := by
  refine ⟨path?_of_steps hn optional h hs, fun hreserved => ?_, hl⟩
  have hkey : ∀ s ∈ Variable.reservedWords, firstWord s.toList ∈ keywords := by decide
  apply firstWord_identifier hn (h.head_mark optional)
  rw [← String.toList_ofList (l := name ++ (mark optional ++ text)), ← List.append_assoc]
  exact hkey _ hreserved

theorem denotes_written {p : VariablePath} (h : WritesPath p text) : Denotes text p := by
  obtain @⟨name, text, optional, parts, hn, h, hl⟩ := h
  have hp := denotes_of_steps hn optional h.continues.halts (steps_written h) hl
  rwa [List.append_assoc] at hp

theorem read_denoted {p : VariablePath} (h : Denotes t p) :
    Layer.Read .atom (.path p (.empty 0)) t := by
  intro rest hr
  have hread := reads_path h hr
  obtain ⟨c, more, rfl, hc⟩ := h.nameStart
  have hne : ∀ d, Variable.isNameStart d = false → (c == d) = false := by
    intro d hd
    apply Bool.eq_false_iff.2
    intro he
    rw [eq_of_beq he, hd] at hc
    cases hc
  have hgroup : Refuses (.ref .operandGroup) (c :: more ++ rest) :=
    refuses_ref (refuses_parenthesized (avoids_cons (p := (· == '(')) (hne _ rfl) _))
  have hnumber : Refuses number (c :: more ++ rest) := by
    refine refuses_number (avoids_cons ?_ _)
    rw [hne '-' rfl, Bool.or_false]
    apply Bool.eq_false_iff.2
    intro hd
    have hl := isLetter_of_isDigit hd
    rw [Variable.isNameStart, hl, Bool.false_or] at hc
    rw [eq_of_beq hc] at hd
    cases hd
  exact reads_oneOf_tail hgroup (reads_oneOf_tail hnumber (reads_oneOf_head hread))

theorem read_path {p : VariablePath} (h : WritesPath p t) :
    Layer.Read .atom (.path p (.empty 0)) t :=
  read_denoted (denotes_written h)

theorem ceases_bracket (hb : ∀ c ∈ b, isGap c = true) (rest : List Char) :
    Ceases (b ++ [')'] ++ rest) := by
  rw [List.append_assoc]
  exact ⟨(Variable.leaves_cons (by decide) rest).blanks hb, b, ')' :: rest, rfl, hb,
    avoids_cons rfl rest, .inl (avoids_cons rfl rest)⟩

theorem read_group (ha : ∀ c ∈ a, isGap c = true) (ht : Begins t) (hb : ∀ c ∈ b, isGap c = true)
    (h : Layer.Read .operand n t) :
    Layer.Read .atom (.group n (.empty 0)) ('(' :: (a ++ (t ++ (b ++ [')'])))) :=
  fun rest _ => reads_oneOf_head (reads_ref (reads_parenthesized ha ht hb
    (h _ (ceases_bracket hb rest))))

theorem read_atom (h : Layer.Read .atom n t) : Layer.Read .operand n t := by
  intro rest hr
  have hread := h rest hr.word
  exact reads_ref (reads_oneOf_tail (refuses_operation hread hr) hread)

theorem leaves_arithmetic (op : Arithmetic) (more : List Char) :
    Variable.Leaves (op.sign.toList ++ more) := by
  cases op <;> exact Variable.leaves_cons (by decide) _

theorem read_operation (op : Arithmetic) (hl : Layer.Read .atom l s)
    (ha : ∀ c ∈ a, isGap c = true) (hb : ∀ c ∈ b, isGap c = true) (ht : Begins t)
    (hr : Layer.Read .operand r t) :
    Layer.Read .operand (.arithmetic op l r (.empty 0)) (s ++ (a ++ (op.sign.toList ++ (b ++ t)))) := by
  intro rest hrest
  have hsign : Variable.Leaves (a ++ (op.sign.toList ++ (b ++ t)) ++ rest) := by
    rw [List.append_assoc, List.append_assoc]
    exact (leaves_arithmetic op _).blanks ha
  exact reads_ref (reads_oneOf_head (reads_ref
    (reads_operation op ha hb ht (reads_ref (hl _ hsign)) (hr rest hrest))))

theorem read_operand (h : Layer.Read .operand n t) : Layer.Read .term n t := by
  refine ⟨fun rest hr => reads_oneOf_head (h rest hr.ceases), fun rest hr => ?_⟩
  exact unclosed_of_reads (h rest (hr.imp fun _ => StaysOpen.operand).ceases)
    (hr.imp fun _ => StaysOpen.bracket)

theorem read_literal (h : WritesLiteral n t) : Layer.Read .term n t := by
  refine ⟨fun rest hr => ?_, fun rest hr => ?_⟩
  · have hno := noOperand_literal h hr.spaced
    exact reads_oneOf_tail hno.operand (reads_oneOf_tail hno.group
      (reads_literal h hr.spaced fun _ => Iff.rfl))
  · exact refusesAll_head (noOperand_literal h hr.spaced).operand

/-- A text that must stand behind a blank ends what is before the blank. -/
theorem before_append {ends : List Char → Prop} (ha : Gap a) (h : Avoids isGap (after ++ rest))
    (he : ends (after ++ rest)) : Before ends (a ++ after ++ rest) := by
  rw [List.append_assoc]
  exact before ha h he

theorem refuses_operand_enclosed (ha : Gap a) (ht : Begins t)
    (h : Unclosed (t ++ (b ++ ([')'] ++ rest)))) :
    Refuses (.ref .operand) ('(' :: (a ++ (t ++ (b ++ [')']))) ++ rest) := by
  have hgroup := refuses_operandGroup ha (ht.avoids _) h
  refine refuses_operand ?_ (refuses_number (avoids_cons rfl _)) (refuses_path (avoids_cons rfl _))
  simpa only [List.cons_append, List.append_assoc] using hgroup

theorem read_enclosed (ha : Gap a) (ht : Begins t) (hb : Gap b) (h : Layer.Read .enclosed n t) :
    Layer.Read .term (.group n (.empty 0)) ('(' :: (a ++ (t ++ (b ++ [')'])))) := by
  have hno : ∀ rest, Refuses (.ref .operand) ('(' :: (a ++ (t ++ (b ++ [')']))) ++ rest) :=
    fun rest => refuses_operand_enclosed ha ht (h b rest hb).2
  refine ⟨fun rest hr => ?_, fun rest hr => refusesAll_head (hno rest)⟩
  have hinner := (h b rest hb).1
  rw [← List.append_assoc] at hinner
  exact reads_oneOf_tail (hno rest)
    (reads_oneOf_head (reads_ref (reads_parenthesized ha.all_isGap ht hb.all_isGap hinner)))

theorem read_comparison (op : Comparison) (hl : Layer.Read .term l s) (ha : Gap a) (hb : Gap b)
    (ht : Begins t) (hr : Layer.Read .expression r t) :
    Layer.Read .comparison (.comparison op l r (.empty 0))
      (s ++ (a ++ (op.sign.toList ++ (b ++ t)))) := by
  have hopen : ∀ rest, Before StaysOpen (a ++ (op.sign.toList ++ (b ++ t)) ++ rest) := by
    intro rest
    apply before_append ha (((begins_comparison op).append _).avoids rest)
    rw [List.append_assoc]
    exact staysOpen_comparison op _
  refine ⟨fun rest hrest => ?_, fun rest => ?_⟩
  · have hleft := hl.1 _ ((hopen rest).imp fun _ => StaysOpen.operand)
    exact reads_ref (reads_comparison op ha hb ht (reads_ref hleft) (reads_ref (hr.1 rest hrest).1))
  · rw [List.append_assoc]
    exact hl.2 _ (hopen rest)

theorem read_term (h : Layer.Read .term n t) : Layer.Read .expression n t := by
  refine ⟨fun rest hr => ?_, h.2⟩
  have hread := h.1 rest (hr.imp fun _ => EndsExpression.operand)
  have hno := refuses_comparison_unsigned hread (hr.imp fun _ => EndsExpression.sign)
  exact ⟨reads_oneOf_tail hno hread, .inr hno⟩

theorem read_compared (h : Layer.Read .comparison n t) : Layer.Read .expression n t :=
  ⟨fun rest hr => ⟨reads_oneOf_head (h.1 rest hr), .inl (h.1 rest hr)⟩, fun rest _ => h.2 rest⟩

/-- An expression that nothing goes on behind is neither a ternary nor a coalescing. -/
theorem refuses_value (h : Layer.Read .expression n t) (hr : Before EndsValue rest) :
    Refuses ternary (t ++ rest) ∧ Refuses (.ref .nullish) (t ++ rest) := by
  obtain ⟨hread, hcompared⟩ := h.1 rest (hr.imp fun _ => EndsValue.expression)
  have hmark := hr.imp fun _ => EndsValue.mark
  refine ⟨?_, refuses_nullish_unmarked hread hmark⟩
  obtain hc | hc := hcompared
  · exact refuses_ternary_unmarked hc hmark
  · exact refuses_ternary hc

theorem read_nullish (hl : Layer.Read .expression l s) (ha : Gap a) (hb : Gap b) (ht : Begins t)
    (hr : ∀ rest, Before EndsValue rest →
      Reads (.oneOf [.ref .nullish, .ref .expression]) t rest (IsNode r)) :
    Layer.Read .nullish (.nullish l r (.empty 0)) (s ++ (a ++ ("??".toList ++ (b ++ t)))) := by
  have hends : ∀ rest, Before EndsExpression (a ++ ("??".toList ++ (b ++ t)) ++ rest) := fun rest =>
    before_append ha (avoids_cons rfl _) (endsExpression_cons rfl rfl _)
  have hopen : ∀ rest, Before StaysOpen (a ++ ("??".toList ++ (b ++ t)) ++ rest) := fun rest =>
    before_append ha (avoids_cons rfl _) (staysOpen_cons rfl rfl _)
  refine ⟨fun rest hrest => ?_, fun rest => ⟨?_, ?_⟩⟩
  · exact reads_ref (reads_nullish ha hb ht (reads_ref (hl.1 _ (hends rest)).1) (hr rest hrest))
  · rw [List.append_assoc]
    exact hl.2 _ (hopen rest)
  · obtain ⟨-, hc⟩ := hl.1 _ (hends rest)
    simp only [List.append_assoc] at hc ⊢
    obtain hc | hc := hc
    · exact refuses_ternary_nullish ha hc
    · exact refuses_ternary hc

theorem read_ternary {c y : Node} {d e u : List Char} (hc : Layer.Read .comparison c s) (ha : Gap a)
    (hb : Gap b) (ht : Begins t) (hy : Layer.Read .expression y t) (hd : Gap d) (he : Gap e)
    (hu : Begins u) (hn : Layer.Read .expression n u) :
    Layer.Read .ternary (.ternary c y n (.empty 0))
      (s ++ (a ++ ("?".toList ++ (b ++ (t ++ (d ++ (":".toList ++ (e ++ u)))))))) := by
  refine ⟨fun rest hrest => ?_, fun rest => ?_⟩
  · have hmark : Before EndsExpression
        (a ++ ("?".toList ++ (b ++ (t ++ (d ++ (":".toList ++ (e ++ u)))))) ++ rest) :=
      before_append ha (avoids_cons rfl _) (endsExpression_cons rfl rfl _)
    have hcolon : Before EndsExpression (d ++ (":".toList ++ (e ++ u)) ++ rest) :=
      before_append hd (avoids_cons rfl _) (endsExpression_cons rfl rfl _)
    exact reads_ternary ha hb ht hd he hu (hc.1 _ hmark) (reads_ref (hy.1 _ hcolon).1)
      (reads_ref (hn.1 rest hrest).1)
  · rw [List.append_assoc]
    exact hc.2 _

/-- In a group the bracket behind the inner expression ends it. -/
theorem before_bracket (hb : Gap b) (rest : List Char) : Before EndsValue (b ++ ([')'] ++ rest)) :=
  before hb (avoids_cons rfl rest) (endsValue_cons rfl rfl rfl rest)

theorem read_enclosed_ternary (h : Layer.Read .ternary n t) : Layer.Read .enclosed n t := by
  intro b rest hb
  have hends := (before_bracket hb rest).imp fun _ => EndsValue.expression
  exact ⟨reads_oneOf_head (h.1 _ hends), h.2 _⟩

theorem read_enclosed_nullish (h : Layer.Read .nullish n t) : Layer.Read .enclosed n t := by
  intro b rest hb
  have hno := (h.2 (b ++ ([')'] ++ rest))).2
  exact ⟨reads_oneOf_tail hno (reads_oneOf_head (h.1 _ (before_bracket hb rest))), (h.2 _).1⟩

theorem read_enclosed_comparison (h : Layer.Read .comparison n t) : Layer.Read .enclosed n t := by
  intro b rest hb
  have hends := before_bracket hb rest
  have hread := h.1 _ (hends.imp fun _ => EndsValue.expression)
  obtain ⟨hternary, hnullish⟩ := refuses_value (read_compared h) hends
  exact ⟨reads_oneOf_tail hternary (reads_oneOf_tail hnullish
    (reads_oneOf_head (reads_ref (reads_oneOf_head hread)))), h.2 _⟩

theorem read_enclosed_literal (h : WritesLiteral n t) : Layer.Read .enclosed n t := by
  intro b rest hb
  have hends := before_bracket hb rest
  have hno := noOperand_literal h hends.spaced
  obtain ⟨hternary, hnullish⟩ := refuses_value (read_term (read_literal h)) hends
  have hcompared : Refuses (.ref .comparison) (t ++ (b ++ ([')'] ++ rest))) :=
    refuses_comparison_unsigned
      ((read_literal h).1 _ (hends.imp fun _ he => he.expression.operand))
      (hends.imp fun _ he => he.expression.sign)
  have hinside : Reads (body .insideGroup) t (b ++ ([')'] ++ rest)) (IsNode n) :=
    reads_oneOf_tail hcompared (reads_oneOf_tail hno.operand
      (reads_literal h hends.spaced fun _ => Iff.rfl))
  exact ⟨reads_oneOf_tail hternary (reads_oneOf_tail hnullish
    (reads_oneOf_head (reads_ref hinside))), refusesAll_head hno.operand⟩

/-- Every layer is read as it is written. -/
theorem read_of_writes {layer : Layer} (h : Writes layer n t) : Layer.Read layer n t := by
  induction h with
  | number hs hn =>
      exact read_number (Literal.spellsNumber_toString _) ((Literal.number?_toString hs).trans hn)
  | path h => exact read_path h
  | group ha h hb ih => exact read_group ha.all_isGap (opens_writes h).begins hb.all_isGap ih
  | atom _ ih => exact read_atom ih
  | operation op _ ha hb hr ihl ihr =>
      exact read_operation op ihl ha.all_isGap hb.all_isGap (opens_writes hr).begins ihr
  | operand _ ih => exact read_operand ih
  | literal h => exact read_literal h
  | enclosed ha h hb ih => exact read_enclosed ha (opens_writes h).begins hb ih
  | comparison op _ ha hb hr ihl ihr =>
      exact read_comparison op ihl ha hb (opens_writes hr).begins ihr
  | term _ ih => exact read_term ih
  | compared _ ih => exact read_compared ih
  | nullish _ ha hb hr ihl ihr =>
      apply read_nullish ihl ha hb (opens_writes hr).begins
      intro rest hrest
      have hread := (ihr.1 rest (hrest.imp fun _ => EndsValue.expression)).1
      exact reads_oneOf_tail (refuses_value ihr hrest).2 (reads_oneOf_head (reads_ref hread))
  | nullishMore _ ha hb hr ihl ihr =>
      exact read_nullish ihl ha hb (opens_writes hr).begins fun rest hrest =>
        reads_oneOf_head (ihr.1 rest hrest)
  | ternary _ ha hb hy hd he hn ihc ihy ihn =>
      exact read_ternary ihc ha hb (opens_writes hy).begins ihy hd he (opens_writes hn).begins ihn
  | enclosedTernary _ ih => exact read_enclosed_ternary ih
  | enclosedNullish _ ih => exact read_enclosed_nullish ih
  | enclosedComparison _ ih => exact read_enclosed_comparison ih
  | enclosedLiteral h => exact read_enclosed_literal h

end Rules
end JsonTemplate
