import JsonTemplate.Proofs.Expression.Layers

/-!
Interpolations are read back: the statement between the brackets, the calls and the dots
before it and the comment behind it. A loop without a filter looks for one behind the
blanks that follow it, so it takes these blanks; no other statement does.
-/

namespace JsonTemplate
namespace Rules

open Writing

variable {n : Node} {text rest after a b t : List Char} {P : Payload Fragment → Prop}

/-! Values -/

theorem refuses_comment_of_starts (h : Starts text) (rest : List Char) :
    Refuses comment (text ++ rest) :=
  refuses_comment (h.avoids (fun c hc => by rw [eq_of_beq hc]; rfl) rest)

theorem reads_statement_ternary (h : Writes .ternary n t) (hr : Before EndsValue rest) :
    Reads statement t rest (IsNode n) := by
  obtain ⟨hconditional, heach⟩ := ((opens_writes h).append hr.spaced).refuses_words
  have hread := (read_of_writes h).1 rest (hr.imp fun _ => EndsValue.expression)
  exact reads_oneOf_tail hconditional (reads_oneOf_tail heach (reads_oneOf_head hread))

theorem reads_statement_nullish (h : Writes .nullish n t) (hr : Before EndsValue rest) :
    Reads statement t rest (IsNode n) := by
  obtain ⟨hconditional, heach⟩ := ((opens_writes h).append hr.spaced).refuses_words
  have hread := read_of_writes h
  exact reads_oneOf_tail hconditional (reads_oneOf_tail heach
    (reads_oneOf_tail (hread.2 rest).2 (reads_oneOf_head (hread.1 rest hr))))

/-- What is tried before a comparison or an operand does not stand there. -/
theorem reads_value {rules : List TemplateRule} (ho : Starts t) (h : Layer.Read .expression n t)
    (hr : Before EndsValue rest) (hread : Reads (.oneOf rules) t rest (IsNode n)) :
    Reads (.oneOf (ternary :: .ref .nullish :: comment :: rules)) t rest (IsNode n) := by
  obtain ⟨hternary, hnullish⟩ := refuses_value h hr
  exact reads_oneOf_tail hternary (reads_oneOf_tail hnullish
    (reads_oneOf_tail (refuses_comment_of_starts ho rest) hread))

theorem reads_statement_value {rules : List TemplateRule} (ho : Opens t)
    (h : Layer.Read .expression n t) (hr : Before EndsValue rest)
    (hread : Reads (.oneOf rules) t rest (IsNode n)) :
    Reads (.oneOf (conditional :: each :: ternary :: .ref .nullish :: comment :: rules)) t rest
      (IsNode n) := by
  obtain ⟨hconditional, heach⟩ := (ho.append hr.spaced).refuses_words
  exact reads_oneOf_tail hconditional (reads_oneOf_tail heach (reads_value ho.1 h hr hread))

/-- Nor is a term a comparison when nothing goes on behind it. -/
theorem refuses_comparison_term (h : Layer.Read .term n t) (hr : Before EndsValue rest) :
    Refuses (.ref .comparison) (t ++ rest) := by
  have hread := h.1 rest (hr.imp fun _ he => he.expression.operand)
  exact refuses_comparison_unsigned hread (hr.imp fun _ he => he.expression.sign)

theorem reads_operand_unsigned {rules : List TemplateRule} (h : Layer.Read .operand n t)
    (hr : Before EndsValue rest) :
    Reads (.oneOf (.ref .comparison :: .ref .operand :: rules)) t rest (IsNode n) :=
  reads_oneOf_tail (refuses_comparison_term (read_operand h) hr)
    (reads_oneOf_head (h rest (hr.imp fun _ he => he.expression.operand).ceases))

/-- A comparison is read as a statement, where it does not begin with a word of another
one. -/
theorem reads_statement_compared (ho : Opens t) (hr : Before EndsValue rest)
    (hread : Reads (.ref .comparison) t rest P) : Reads statement t rest P := by
  obtain ⟨hconditional, heach⟩ := (ho.append hr.spaced).refuses_words
  have hmark := hr.imp fun _ => EndsValue.mark
  have hternary := refuses_ternary_unmarked hread hmark
  have hnullish := refuses_nullish_unmarked (reads_oneOf_head hread) hmark
  have hcomment := refuses_comment_of_starts ho.1 rest
  exact reads_oneOf_tail hconditional (reads_oneOf_tail heach (reads_oneOf_tail hternary
    (reads_oneOf_tail hnullish (reads_oneOf_tail hcomment (reads_oneOf_head hread)))))

theorem reads_statement_comparison (h : Writes .comparison n t) (hr : Before EndsValue rest) :
    Reads statement t rest (IsNode n) :=
  reads_statement_compared (opens_writes h) hr
    ((read_of_writes h).1 rest (hr.imp fun _ => EndsValue.expression))

theorem reads_statement_operand (ho : Opens t) (h : Layer.Read .operand n t)
    (hr : Before EndsValue rest) : Reads statement t rest (IsNode n) :=
  reads_statement_value ho (read_term (read_operand h)) hr (reads_operand_unsigned h hr)

theorem reads_statement_literal (h : WritesLiteral n t) (hr : Before EndsValue rest) :
    Reads statement t rest (IsNode n) := by
  have hliterals : Reads (.oneOf [null, undefined, boolean, number, path, quoted]) t rest (IsNode n) :=
    reads_literal h hr.spaced fun r => by
      simp only [literalRules, List.mem_cons, List.not_mem_nil, or_false]
      grind
  have hterm : Layer.Read .term n t := read_literal h
  exact reads_statement_value (opens_literal h) (read_term hterm) hr
    (reads_oneOf_tail (refuses_comparison_term hterm hr)
      (reads_oneOf_tail (noOperand_literal h hr.spaced).operand hliterals))

/-! Words -/

/-- A word is no keyword but itself. -/
theorem declines_other {s other : String} (hs : s.toList.all isWordChar = true)
    (ho : other.toList.all isWordChar = true) (hne : s ≠ other) (hr : Spaced rest) :
    Declines (.keyword other) (s.toList ++ rest) := by
  apply declines_keyword ho
  rw [firstWord_append _ hr, firstWord, List.takeWhile_eq_self_iff.2 (List.all_eq_true.1 hs),
    String.ofList_toList]
  exact hne

theorem reads_statement_if {c : Node} (ha : Gap a) (h : Writes .comparison c t)
    (hr : Before EndsValue rest) :
    Reads statement ("if".toList ++ (a ++ t)) rest (IsNode (.onlyIf c (.empty 0))) := by
  have hread := (read_of_writes h).1 rest (hr.imp fun _ => EndsValue.expression)
  exact reads_oneOf_head (reads_oneOf_head (reads_onlyIf ha (opens_writes h).begins hread))

theorem reads_statement_ifElse {c : Node} (ha : Gap a) (h : Writes .comparison c t)
    (hr : Before EndsValue rest) :
    Reads statement ("ifelse".toList ++ (a ++ t)) rest (IsNode (.elseIf c (.empty 0))) := by
  have hread := (read_of_writes h).1 rest (hr.imp fun _ => EndsValue.expression)
  have hif : Declines (.keyword "if") ("ifelse".toList ++ (a ++ t) ++ rest) := by
    rw [List.append_assoc]
    exact declines_other rfl rfl (by decide) ((ha.spaced t).append rest)
  exact reads_oneOf_head (reads_oneOf_tail (declines_sequence hif).refuses
    (reads_oneOf_head (reads_ifElse ha (opens_writes h).begins hread)))

theorem reads_statement_elseIf {c : Node} (ha : Gap a) (hb : Gap b) (h : Writes .comparison c t)
    (hr : Before EndsValue rest) :
    Reads statement ("else".toList ++ (a ++ ("if".toList ++ (b ++ t)))) rest
      (IsNode (.elseIf c (.empty 0))) := by
  have hread := (read_of_writes h).1 rest (hr.imp fun _ => EndsValue.expression)
  have hif : Declines (.keyword "if") ("else".toList ++ (a ++ ("if".toList ++ (b ++ t))) ++ rest) := by
    rw [List.append_assoc]
    exact declines_other rfl rfl (by decide) ((ha.spaced _).append rest)
  exact reads_oneOf_head (reads_oneOf_tail (declines_sequence hif).refuses
    (reads_oneOf_head (reads_elseIf ha hb (opens_writes h).begins hread)))

theorem reads_statement_else (hb : Gap b) (hg : Avoids isGap after)
    (hw : Avoids isWordChar after) :
    Reads statement "else".toList (b ++ after) (IsNode (.otherwise (.empty 0))) := by
  have hspaced := hb.spaced after
  have hif : Declines (.keyword "if") after :=
    declines_keyword rfl (by rw [firstWord_of_avoids hw]; decide)
  have hother : ∀ s, s.toList.all isWordChar = true → "else" ≠ s →
      Declines (.keyword s) ("else".toList ++ (b ++ after)) :=
    fun s hs hne => declines_other rfl hs hne hspaced
  have helseIf : Refuses elseIf ("else".toList ++ (b ++ after)) := by
    refine refuses_sequence (refusesAll_head (refuses_oneOf fun r hr => ?_))
    simp only [List.mem_cons, List.not_mem_nil, or_false] at hr
    obtain rfl | rfl := hr
    · exact (hother "ifelse" rfl (by decide)).refuses
    · exact refuses_sequence (refusesAll_tail (reads_keyword "else" hspaced)
        (refusesAll_tail (reads_space hb hg) (refusesAll_head hif.refuses)))
  exact reads_oneOf_head (reads_oneOf_tail
    (declines_sequence (hother "if" rfl (by decide))).refuses
    (reads_oneOf_tail helseIf (reads_oneOf_head (reads_otherwise hspaced))))

/-! Loops -/

theorem denotes_identifier {x : List Char} (hx : IsIdentifier x) :
    Denotes x ⟨[⟨String.ofList x, false⟩]⟩ := by
  have hpath : WritesPath ⟨[⟨String.ofList x, false⟩]⟩ (x ++ (mark false ++ [])) :=
    .mk hx .nil (by decide)
  simpa [mark] using denotes_written hpath

theorem reads_statement_loop {p : VariablePath} {s d x : List Char} {filter : Option Node}
    (ha : Gap a) (hs : Denotes s p) (hb : Gap b) (hd : Gap d)
    (hx : Denotes x ⟨[⟨String.ofList x, false⟩]⟩) (hr : Spaced (t ++ rest))
    (hfilter : ReadsAll [space, .maybe onlyIf] t rest
      fun pieces => ∃ gap piece, pieces = [gap, piece] ∧ IsFilter filter piece) :
    Reads statement ("each".toList ++ (a ++ (s ++ (b ++ ("as".toList ++ (d ++ (x ++ t))))))) rest
      (IsNode (.each p (String.ofList x) filter (.empty 0))) := by
  have hsource := reads_path hs
    (Variable.leaves_of_spaced ((hb.spaced ("as".toList ++ (d ++ (x ++ t)))).append rest))
  have hconditional : Refuses conditional
      ("each".toList ++ (a ++ (s ++ (b ++ ("as".toList ++ (d ++ (x ++ t)))))) ++ rest) := by
    apply refuses_conditional
    rw [List.append_assoc, firstWord_append _ ((ha.spaced _).append rest)]
    decide
  exact reads_oneOf_tail hconditional (reads_oneOf_head
    (reads_each ha hs.starts.begins hb hd hx.starts.begins hsource
      (reads_path hx (Variable.leaves_of_spaced hr)) hfilter))

/-- A statement between gaps is read, with the blanks behind it if it takes them. -/
theorem reads_statement (h : WritesStatement n t) (hb : Gap b) (hg : Avoids isGap after)
    (hw : Avoids isWordChar after) (he : EndsValue after) :
    ∃ taken left, b = taken ++ left ∧ Reads statement (t ++ taken) (left ++ after) (IsNode n) := by
  have hr : Before EndsValue (b ++ after) := before hb hg he
  have hexact : Reads statement t (b ++ after) (IsNode n) →
      ∃ taken left, b = taken ++ left ∧ Reads statement (t ++ taken) (left ++ after) (IsNode n) :=
    fun hread => ⟨[], b, rfl, by rwa [List.append_nil]⟩
  cases h with
  | ternary h => exact hexact (reads_statement_ternary h hr)
  | nullish h => exact hexact (reads_statement_nullish h hr)
  | comparison h => exact hexact (reads_statement_comparison h hr)
  | operand h => exact hexact (reads_statement_operand (opens_writes h) (read_of_writes h) hr)
  | literal h => exact hexact (reads_statement_literal h hr)
  | onlyIf ha h => exact hexact (reads_statement_if ha h hr)
  | elseIf ha hb' h => exact hexact (reads_statement_elseIf ha hb' h hr)
  | ifElse ha h => exact hexact (reads_statement_ifElse ha h hr)
  | otherwise => exact hexact (reads_statement_else hb hg hw)
  | each ha hs hb' hd hx =>
      have hno : Refuses onlyIf after := (declines_sequence (declines_keyword rfl
        (by rw [firstWord_of_avoids hw]; decide))).refuses
      have hread := reads_statement_loop ha (denotes_written hs) hb' hd (denotes_identifier hx)
        (hb.spaced after) (readsAll_no_filter hb hg hno)
      refine ⟨b, [], (List.append_nil b).symm, ?_⟩
      simpa only [List.append_assoc, List.nil_append] using hread
  | eachIf ha hs hb' hd hx hf hi h =>
      have hguard := (read_of_writes h).1 _ (hr.imp fun _ => EndsValue.expression)
      exact hexact (reads_statement_loop ha (denotes_written hs) hb' hd (denotes_identifier hx)
        ((hf.spaced _).append _) (readsAll_filter hf hi (opens_writes h).begins hguard))

/-! Around the statement -/

theorem reads_around {inner : TemplateRule} {s : List Char} {P : Payload Fragment → Prop}
    (hs : Begins s) (hb : ∀ c ∈ b, isGap c = true) (hr : Avoids isGap rest)
    (h : Reads inner s (b ++ rest) P) : Reads (around inner) (s ++ b) rest fun _ => True := by
  have hall := readsAll_cons (reads_no_space ((hs.append b).avoids rest))
    (readsAll_cons h (readsAll_last (reads_blanks hb hr)))
  exact (reads_sequence_unit hall).imp fun _ _ => trivial

/-- An optional item that is there or not. -/
def IsOptional (there : Bool) (piece : Piece) : Prop :=
  ∃ item, optional? piece = some item ∧ item.isSome = there

/-- The dots that spread a list and any blanks behind them, or none. -/
inductive Dots : Bool → List Char → Prop
  | no : Dots false []
  | yes {a : List Char} (ha : ∀ c ∈ a, isGap c = true) : Dots true ("...".toList ++ a)

theorem dots_of_writes {spread : Bool} {s : List Char} (h : WritesSpread spread s) :
    Dots spread s := by
  cases h with
  | no => exact .no
  | yes ha => exact .yes ha.all_isGap

theorem reads_spread {spread : Bool} {s : List Char} (hs : Dots spread s)
    (hg : Avoids isGap rest) (hd : Avoids (· == '.') rest) :
    Reads (.maybe (around (.text "..."))) s rest fun payload =>
      ∀ span, IsOptional spread (span, payload) := by
  cases hs with
  | no =>
      have hno : Refuses (around (.text "...")) ([] ++ rest) :=
        refuses_sequence (refusesAll_tail (reads_no_space hg)
          (refusesAll_head (declines_text_of_avoids ⟨'.', ['.', '.'], rfl, rfl⟩ hd).refuses))
      refine (reads_maybe_nothing hno).imp fun payload hp span => ⟨none, ?_, rfl⟩
      exact optional?_of_payload hp
  | yes ha =>
      have hread := reads_around (s := "...".toList) ⟨'.', _, rfl, rfl⟩ ha hg (reads_text "..." _)
      apply (reads_maybe hread).imp
      intro payload hp span
      obtain ⟨item, hp, -⟩ := hp
      exact ⟨some item, optional?_of_payload hp, rfl⟩

theorem reads_flatten (ha : Gap a) (hb : Gap b) (hg : Avoids isGap rest) :
    Reads flatten ("flatten".toList ++ (a ++ ("|".toList ++ b))) rest (· = .value .flatten) := by
  have hmark := reads_around (s := "|".toList) ⟨'|', _, rfl, rfl⟩ hb.all_isGap hg
    (reads_text "|" _)
  have hall := readsAll_cons (reads_keyword "flatten" ((ha.spaced _).append rest))
    (readsAll_cons (reads_space ha (avoids_cons rfl _)) (readsAll_last hmark))
  exact reads_sequence hall fun _ _ _ => ⟨_, rfl, rfl⟩

theorem avoids_spread {spread : Bool} {s : List Char} {p : Char → Bool}
    (hs : Dots spread s) (hp : p '.' = false) (hr : Avoids p rest) : Avoids p (s ++ rest) := by
  cases hs with
  | no => exact hr
  | yes => exact avoids_cons hp _

theorem avoids_calls {count : Nat} {f : List Char} {p : Char → Bool} (hf : WritesCalls count f)
    (hp : p 'f' = false) (hr : Avoids p rest) : Avoids p (f ++ rest) := by
  cases hf with
  | none => exact hr
  | more => exact avoids_cons hp _

theorem reads_calls {count : Nat} {f : List Char} (hf : WritesCalls count f)
    (hg : Avoids isGap rest) (hw : firstWord rest ≠ "flatten") :
    Reads (.many flatten) f rest (IsRepeated (· = .value .flatten) count) := by
  induction hf with
  | none => exact reads_many_nil (declines_sequence (declines_keyword rfl hw))
  | @more a b _ _ ha hb hf ih =>
      have hread := reads_flatten ha hb (avoids_calls hf rfl hg)
      have hne : "flatten".toList ++ (a ++ ("|".toList ++ b)) ≠ [] := List.cons_ne_nil _ _
      have hall := reads_many_cons hne hread ih
      simpa only [List.append_assoc] using hall

theorem mapM_modifier? {pieces : List Piece} (h : ∀ piece ∈ pieces, piece.2 = .value .flatten) :
    pieces.mapM modifier? = some (List.replicate pieces.length .flatten) := by
  induction pieces with
  | nil => rfl
  | cons piece pieces ih =>
      obtain ⟨span, payload⟩ := piece
      cases h _ List.mem_cons_self
      rw [List.mapM_cons, ih fun piece hp => h piece (List.mem_cons_of_mem _ hp)]
      rfl

theorem reads_comment_maybe {c : List Char} (hc : WritesComment c) (rest : List Char) :
    ReadsAll [.maybe comment, space, .text "\x7d\x7d"] (c ++ "\x7d\x7d".toList) rest
      fun pieces => ∃ x y z, pieces = [x, y, z] := by
  have hclose := readsAll_last (reads_text "\x7d\x7d" rest)
  cases hc with
  | none =>
      have hno : Refuses comment ([] ++ ([] ++ "\x7d\x7d".toList) ++ rest) :=
        refuses_comment (avoids_cons rfl _)
      have hall := readsAll_cons (reads_maybe_nothing hno)
        (readsAll_cons (reads_no_space (avoids_cons rfl _)) hclose)
      apply ReadsAll.imp hall
      rintro _ ⟨x, _, rfl, -, y, _, rfl, -, z, rfl, -⟩
      exact ⟨x, y, z, rfl⟩
  | @some t a ht hw ha =>
      have hall := readsAll_cons (reads_maybe (reads_comment ht hw _))
        (readsAll_cons (reads_space ha (avoids_cons rfl _)) hclose)
      rw [List.append_assoc]
      apply ReadsAll.imp hall
      rintro _ ⟨x, _, rfl, -, y, _, rfl, -, z, rfl, -⟩
      exact ⟨x, y, z, rfl⟩

/-! Interpolations -/

theorem buildInterpolation_of_payloads {span : Span} {spread calls value : Piece}
    {there : Bool} {count : Nat} {m : Node} (p₁ p₂ p₃ p₄ p₅ p₆ p₇ p₈ : Piece)
    (hs : IsOptional there spread) (hc : IsRepeated (· = .value .flatten) count calls.2)
    (hv : value.2 = .value (.node m)) :
    buildInterpolation span [p₁, p₂, spread, p₃, calls, p₄, value, p₅, p₆, p₇, p₈]
      = made (.interpolation there (List.replicate count .flatten) m span) := by
  obtain ⟨item, hitem, rfl⟩ := hs
  obtain ⟨pieces, hp, rfl, hall⟩ := hc
  simp only [buildInterpolation, hitem, items?_of_payload hp, node?_of_payload hv, Option.bind_eq_bind,
    Option.bind_some, mapM_modifier? hall]
  rfl

theorem starts_statement (h : WritesStatement n t) : Starts t ∧ firstWord t ≠ "flatten" := by
  have hvalue : ∀ {t : List Char}, Opens t → Starts t ∧ firstWord t ≠ "flatten" := fun ho =>
    ⟨ho.1, fun hf => ho.2 (by rw [hf]; decide)⟩
  cases h with
  | ternary h | nullish h | comparison h | operand h => exact hvalue (opens_writes h)
  | literal h => exact hvalue (opens_literal h)
  | onlyIf ha | elseIf ha | ifElse ha | each ha | eachIf ha =>
      exact ⟨⟨_, _, rfl, rfl⟩, by rw [firstWord_append _ (ha.spaced _)]; decide⟩
  | otherwise => exact ⟨⟨_, _, rfl, rfl⟩, by decide⟩

/-- Where a comment or the brackets stand, a statement has ended. -/
theorem ends_close {c : List Char} (hc : WritesComment c) (rest : List Char) :
    Avoids isGap (c ++ "\x7d\x7d".toList ++ rest) ∧
      Avoids isWordChar (c ++ "\x7d\x7d".toList ++ rest) ∧
      EndsValue (c ++ "\x7d\x7d".toList ++ rest) := by
  cases hc with
  | none => exact ⟨avoids_cons rfl _, avoids_cons rfl _, endsValue_cons rfl rfl rfl _⟩
  | @some t a ht hw ha =>
      obtain ⟨more, rfl⟩ := comment_head ht hw
      exact ⟨avoids_cons rfl _, avoids_cons rfl _, ⟨⟨.inr ⟨_, rfl⟩, avoids_cons rfl _⟩,
        avoids_cons rfl _⟩⟩

/-- Whatever the statement is, the calls and the dots before it and the comment behind it
are read. Some of the blanks behind the statement may be its own. -/
theorem reads_interpolation_around {spread : Bool} {count : Nat} {s f c taken left : List Char}
    (ha : Gap a) (hs : Dots spread s) (hf : WritesCalls count f) (hstarts : Starts t)
    (hflatten : firstWord t ≠ "flatten") (hb : Gap (taken ++ left)) (hc : WritesComment c)
    (hstatement : Reads statement (t ++ taken) (left ++ (c ++ "\x7d\x7d".toList ++ rest)) (IsNode n)) :
    Reads interpolation
      ("\x7b\x7b".toList ++ (a ++ (s ++ (f ++ (t ++ (taken ++ left ++ (c ++ "\x7d\x7d".toList))))))) rest
      (IsNode (.interpolation spread (List.replicate count .flatten) n (.empty 0))) := by
  obtain ⟨hgap, -, -⟩ := ends_close hc rest
  have hclose := reads_comment_maybe hc rest
  generalize hclosing : c ++ "\x7d\x7d".toList = close at hstatement hgap hclose
  have hleft : ∀ c ∈ left, isGap c = true := fun c hmem =>
    hb.all_isGap c (List.mem_append_right _ hmem)
  have hstatement' : Reads statement (t ++ taken) (left ++ close ++ rest) (IsNode n) := by
    rwa [List.append_assoc]
  -- What stands behind the calls, and behind the dots.
  have hvalue : ∀ p : Char → Bool, (∀ c, p c = true → isOpening c = false) →
      Avoids p (t ++ taken ++ (left ++ close) ++ rest) := fun p hp =>
    ((hstarts.append taken).append (left ++ close)).avoids hp rest
  have hopening : ∀ c, isGap c = true → isOpening c = false := fun c hg => by
    apply Bool.eq_false_iff.2
    intro ho
    rw [isGap_of_isOpening ho] at hg
    cases hg
  have hcalls : ∀ p : Char → Bool, (∀ c, p c = true → isOpening c = false) → p 'f' = false →
      Avoids p (f ++ (t ++ taken ++ (left ++ close)) ++ rest) := by
    intro p hp hpf
    rw [List.append_assoc]
    exact avoids_calls hf hpf (hvalue p hp)
  have hnocall : firstWord (t ++ taken ++ (left ++ close) ++ rest) ≠ "flatten" := by
    have hassoc : t ++ taken ++ (left ++ close) ++ rest = t ++ (taken ++ left ++ (close ++ rest)) := by
      simp only [List.append_assoc]
    rw [hassoc, firstWord_append _ (hb.spaced _)]
    exact hflatten
  have hspread : Avoids isGap (s ++ (f ++ (t ++ taken ++ (left ++ close))) ++ rest) := by
    rw [List.append_assoc]
    exact avoids_spread hs rfl (hcalls _ hopening rfl)
  have hvalued := readsAll_cons (reads_must hstatement' .interpolated)
    (readsAll_cons (reads_blanks hleft hgap) hclose)
  have hcalled := readsAll_cons (reads_calls hf (hvalue _ hopening) hnocall)
    (readsAll_cons_nil (reads_no_space (hvalue _ hopening)) hvalued)
  have hdotted := readsAll_cons (reads_spread hs (hcalls _ hopening rfl)
      (hcalls _ (fun c hc => by rw [eq_of_beq hc]; rfl) rfl))
    (readsAll_cons_nil (reads_no_space (hcalls _ hopening rfl)) hcalled)
  have hall := readsAll_cons (reads_text "\x7b\x7b" _) (readsAll_cons (reads_space ha hspread) hdotted)
  have hread : Reads interpolation
      ("\x7b\x7b".toList ++ (a ++ (s ++ (f ++ (t ++ taken ++ (left ++ close)))))) rest
      (IsNode (.interpolation spread (List.replicate count .flatten) n (.empty 0))) := by
    apply reads_sequence hall
    rintro span _ ⟨p₁, _, rfl, -, p₂, _, rfl, -, dots, _, rfl, hdots, p₃, _, rfl, -, calls, _, rfl,
      hcalls, p₄, _, rfl, -, value, _, rfl, ⟨m, hm, rfl⟩, p₅, _, rfl, -, p₆, p₇, p₈, rfl⟩
    rw [buildInterpolation_of_payloads p₁ p₂ p₃ p₄ p₅ p₆ p₇ p₈ (hdots dots.1) hcalls hm]
    exact isNode_made (.interpolation spread (List.replicate count .flatten) m span)
  simpa only [List.append_assoc, ← hclosing] using hread

theorem reads_interpolation (h : WritesInterpolation n text) (rest : List Char) :
    Reads interpolation text rest (IsNode n) := by
  obtain @⟨n, spread, count, a, s, f, t, b, c, ha, hs, hf, h, hb, hc⟩ := h
  obtain ⟨hgap, hword, hends⟩ := ends_close hc rest
  obtain ⟨hstarts, hflatten⟩ := starts_statement h
  obtain ⟨taken, left, rfl, hstatement⟩ := reads_statement h hb hgap hword hends
  exact reads_interpolation_around ha (dots_of_writes hs) hf hstarts hflatten hb hc hstatement

end Rules
end JsonTemplate
