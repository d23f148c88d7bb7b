import JsonTemplate.Proofs.Expression.Reads
import JsonTemplate.Proofs.Expression.Writing

/-!
Words are read back. Each word that is written is taken by the rule for it, as far as it
goes and with the value it was written for, whenever a blank stands behind it.
-/

namespace JsonTemplate

/-- A text of such characters is taken up to one that is not. -/
theorem takeWhile_append_stop {p : Char → Bool} {text rest : List Char}
    (h : ∀ c ∈ text, p c = true) (hr : ∀ c ∈ rest.head?, p c = false) :
    (text ++ rest).takeWhile p = text := by
  rw [List.takeWhile_append_of_pos h]
  cases rest with
  | nil => simp
  | cons c rest => rw [List.takeWhile_cons, hr c rfl]; simp

/-! Numbers -/

namespace Literal

theorem isDigit_of_mem_toDigits {n : Nat} {c : Char} (h : c ∈ Nat.toDigits 10 n) :
    isDigit c = true := by
  have := Nat.isDigit_of_mem_toDigits (by decide) (by decide) h
  rw [Char.isDigit, Bool.and_eq_true, decide_eq_true_eq, decide_eq_true_eq] at this
  rw [isDigit, Bool.and_eq_true, decide_eq_true_eq, decide_eq_true_eq]
  exact this

theorem toString_toList (i : Int) :
    (toString i).toList =
      if i < 0 then '-' :: Nat.toDigits 10 i.natAbs else Nat.toDigits 10 i.natAbs := by
  rw [Int.toString_eq_repr]
  cases i with
  | ofNat n =>
      have hn : ¬ Int.ofNat n < 0 := Int.not_lt.2 (Int.natCast_nonneg n)
      rw [if_neg hn]
      exact Nat.toList_repr
  | negSucc n =>
      rw [if_pos (Int.negSucc_lt_zero n)]
      have : (Int.negSucc n).repr = "-" ++ (n + 1).repr := rfl
      rw [this, String.toList_append, Nat.toList_repr]
      rfl

theorem toDigits_cons (n : Nat) :
    ∃ c rest, Nat.toDigits 10 n = c :: rest ∧ isDigit c = true := by
  cases hd : Nat.toDigits 10 n with
  | nil => exact absurd hd Nat.toDigits_ne_nil
  | cons c rest => exact ⟨c, rest, rfl, isDigit_of_mem_toDigits (by rw [hd]; exact List.mem_cons_self)⟩

theorem ofDigits_toDigits (n : Nat) : Numeral.ofDigits (Nat.toDigits 10 n) = n :=
  Nat.ofDigitChars_ten_toDigits

theorem readInt_of_ne {c : Char} (h : c ≠ '-') (text : List Char) :
    readInt (c :: text) = Numeral.ofDigits (c :: text) := by
  unfold readInt
  split
  · next he => exact absurd (List.cons.inj he).1 h
  · rfl

theorem readInt_toString (i : Int) : readInt (toString i).toList = i := by
  obtain ⟨c, rest, hd, hc⟩ := toDigits_cons i.natAbs
  have hv := ofDigits_toDigits i.natAbs
  rw [toString_toList]
  split
  · rw [readInt, hv]
    omega
  · rw [hd] at hv ⊢
    rw [readInt_of_ne _ rest, hv]
    · omega
    · rintro rfl
      cases hc

theorem point_not_mem_toString (i : Int) : '.' ∉ (toString i).toList := by
  have hd : '.' ∉ Nat.toDigits 10 i.natAbs := fun h => by cases isDigit_of_mem_toDigits h
  rw [toString_toList]
  split
  · simp [hd]
  · exact hd

theorem toString_cons (i : Int) :
    ∃ c rest, (toString i).toList = c :: rest ∧ (isDigit c = true ∨ c = '-') := by
  obtain ⟨c, rest, hd, hc⟩ := toDigits_cons i.natAbs
  rw [toString_toList]
  split
  · exact ⟨_, _, rfl, .inr rfl⟩
  · exact ⟨c, rest, hd, .inl hc⟩

/-- A number of 63 bits and a sign is read from its decimal text. -/
theorem number?_toString {i : Int} (h : isSigned i = true) :
    number? (toString i).toList = Number.ofInt? i := by
  have hp : (toString i).toList.contains '.' = false := by
    simpa using point_not_mem_toString i
  have hi : (Number.ofInt? i).isSome = true := by
    simp only [isSigned, Bool.and_eq_true, decide_eq_true_eq] at h
    rw [Number.ofInt?, dif_pos ⟨h.1, by omega⟩]
    rfl
  obtain ⟨n, hn⟩ := Option.isSome_iff_exists.1 hi
  simp only [number?, readInt_toString, hp, h, Bool.not_false, Bool.and_self, if_true, hn,
    Option.some_or]

end Literal

/-! Paths -/

namespace Writing

/-- What stands behind the name of a step: a question mark, or the next step. -/
theorem stepOf_mark (name : List Char) (width : Nat) (optional : Bool) {text : List Char}
    (h : text.head? ≠ some '?') :
    Variable.stepOf name width (mark optional ++ text)
      = (⟨String.ofList name, optional⟩, width + (mark optional).length) := by
  cases optional with
  | true => rfl
  | false =>
      have hw : Variable.markWidth text = 0 := by
        cases text with
        | nil => rfl
        | cons c text => exact Variable.markWidth_of_ne (by simpa using h) text
      simp [Variable.stepOf, mark, hw]

/-- No name goes on here, and no mark stands here. -/
def Halts (text : List Char) : Prop := ∀ c ∈ text.head?, isWordChar c = false ∧ c ≠ '?'

/-- Another step, or nothing: what may stand behind a step of a path. -/
def Continues (text : List Char) : Prop := ∀ c ∈ text.head?, c = '.' ∨ c = '['

theorem Continues.halts {text : List Char} (h : Continues text) : Halts text := by
  intro c hc
  obtain rfl | rfl := h c hc <;> decide

theorem WritesSteps.continues {parts : List PathPart} {text : List Char}
    (h : WritesSteps parts text) : Continues text := by
  cases h with
  | nil => nofun
  | dotted => exact fun c hc => .inl (Option.some.inj hc).symm
  | bracketed => exact fun c hc => .inr (Option.some.inj hc).symm

section Steps

variable {name text : List Char} {optional : Bool}

theorem Halts.head_ne (h : Halts text) : text.head? ≠ some '?' := fun hc => (h '?' hc).2 rfl

/-- No name goes on behind a step. -/
theorem Halts.head_mark (h : Halts text) (optional : Bool) :
    ∀ c ∈ (mark optional ++ text).head?, isWordChar c = false := by
  intro c hc
  cases optional with
  | true => cases hc; rfl
  | false => exact (h c hc).1

theorem root?_word {c : Char} {rest : List Char} (hc : Variable.isNameStart c = true)
    (hw : ∀ d ∈ rest, isWordChar d = true) (optional : Bool) (h : Halts text) :
    Variable.root? (c :: rest ++ mark optional ++ text)
      = some (⟨String.ofList (c :: rest), optional⟩, (c :: rest ++ mark optional).length) := by
  have ht : (rest ++ (mark optional ++ text)).takeWhile isWordChar = rest :=
    takeWhile_append_stop hw (h.head_mark optional)
  simp only [List.append_assoc, List.cons_append, Variable.root?, hc, if_true, ht, List.drop_left,
    stepOf_mark _ _ _ h.head_ne, List.length_cons, List.length_append, Nat.add_right_comm]

theorem root?_written (hn : IsIdentifier name) (h : Halts text) :
    Variable.root? (name ++ mark optional ++ text)
      = some (⟨String.ofList name, optional⟩, (name ++ mark optional).length) := by
  obtain ⟨c, rest, rfl, hc⟩ := hn.start
  exact root?_word hc (fun d hd => hn.word d (List.mem_cons_of_mem c hd)) optional h

theorem step?_dotted (optional : Bool) (hn : name ≠ []) (hw : ∀ c ∈ name, isWordChar c = true)
    (h : Halts text) :
    Variable.step? ('.' :: (name ++ mark optional) ++ text)
      = some (⟨String.ofList name, optional⟩, ('.' :: (name ++ mark optional)).length) := by
  have ht := takeWhile_append_stop hw (h.head_mark optional)
  simp only [List.cons_append, List.append_assoc, Variable.step?, Variable.dotted?, ht,
    List.isEmpty_iff, hn, if_false, List.drop_left, stepOf_mark _ _ _ h.head_ne, List.length_cons,
    List.length_append, Nat.add_right_comm]

theorem step?_quoted (optional : Bool) (hn : name ≠ [])
    (hw : ∀ c ∈ name, Variable.isBracketChar c = true) (h : Halts text) :
    Variable.step? ('[' :: '\'' :: (name ++ '\'' :: ']' :: mark optional) ++ text)
      = some (⟨String.ofList name, optional⟩,
          ('[' :: '\'' :: (name ++ '\'' :: ']' :: mark optional)).length) := by
  have ht : (name ++ '\'' :: ']' :: (mark optional ++ text)).takeWhile Variable.isBracketChar
      = name := takeWhile_append_stop hw fun c hc => by cases hc; rfl
  simp only [List.cons_append, List.append_assoc, Variable.step?, Variable.bracketed?,
    Variable.quoteWidth, List.drop_succ_cons, List.drop_zero, ht, List.isEmpty_iff, hn, if_false,
    List.drop_left, stepOf_mark _ _ _ h.head_ne, List.length_cons, List.length_append]
  rw [show 1 + name.length + 1 + 2 + (mark optional).length
    = name.length + ((mark optional).length + 1 + 1) + 1 + 1 by omega]

theorem step?_bare (optional : Bool) (hn : name ≠ [])
    (hw : ∀ c ∈ name, Variable.isBracketChar c = true) (h : Halts text) :
    Variable.step? ('[' :: (name ++ ']' :: mark optional) ++ text)
      = some (⟨String.ofList name, optional⟩, ('[' :: (name ++ ']' :: mark optional)).length) := by
  have ht : (name ++ ']' :: (mark optional ++ text)).takeWhile Variable.isBracketChar = name :=
    takeWhile_append_stop hw fun c hc => by cases hc; rfl
  have hq : Variable.quoteWidth (name ++ ']' :: (mark optional ++ text)) = 0 := by
    cases name with
    | nil => exact absurd rfl hn
    | cons c rest =>
        apply Variable.quoteWidth_of_ne
        rintro rfl
        cases hw _ List.mem_cons_self
  have hclose : Variable.quoteWidth (']' :: (mark optional ++ text)) = 0 := rfl
  simp only [List.cons_append, List.append_assoc, Variable.step?, Variable.bracketed?, hq, hclose,
    List.drop_zero, ht, List.isEmpty_iff, hn, if_false, List.drop_left, stepOf_mark _ _ _ h.head_ne,
    List.length_cons, List.length_append]
  rw [show 0 + name.length + 0 + 2 + (mark optional).length
    = name.length + ((mark optional).length + 1) + 1 by omega]

theorem steps_cons {part : PathPart} {parts : List PathPart} {rest : List Char}
    (ht : Variable.step? (text ++ rest) = some (part, text.length))
    (hr : Variable.steps rest = (parts, rest.length)) :
    Variable.steps (text ++ rest) = (part :: parts, (text ++ rest).length) := by
  rw [Variable.steps_of_some ht, List.drop_left, hr, List.length_append]

theorem path?_of_steps {parts : List PathPart} (hn : IsIdentifier name) (optional : Bool)
    (h : Halts text) (hs : Variable.steps text = (parts, text.length)) :
    Variable.path? (name ++ mark optional ++ text)
      = some (⟨String.ofList name, optional⟩ :: parts, (name ++ mark optional ++ text).length) := by
  have hl : (name ++ mark optional ++ text).length = (name ++ mark optional).length + text.length :=
    List.length_append
  simp only [Variable.path?, root?_written hn h, List.drop_left, hs, hl]

end Steps

theorem steps_written {parts : List PathPart} {text : List Char} (h : WritesSteps parts text) :
    Variable.steps text = (parts, text.length) := by
  induction h with
  | nil => exact Variable.steps_of_none rfl
  | dotted hn hw h ih => simpa using steps_cons (step?_dotted _ hn hw h.continues.halts) ih
  | bracketed hn hw h ih => simpa using steps_cons (step?_quoted _ hn hw h.continues.halts) ih

/-! Strings in quotes -/

theorem quotedTailWidth?_of_ne {quote c : Char} (h : c ≠ '\\') (text : List Char) :
    Literal.quotedTailWidth? quote (c :: text)
      = if c = quote then some 1 else (Literal.quotedTailWidth? quote text).map (· + 1) := by
  rw [Literal.quotedTailWidth?.eq_def]
  split
  · next he => cases he
  · next he => exact absurd (List.cons.inj he).1 h
  · next d more _ he =>
      cases he
      simp only [h, if_false]

theorem unescape_of_ne {c : Char} (h : c ≠ '\\') (text : List Char) :
    Literal.unescape (c :: text) = c :: Literal.unescape text := by
  rw [Literal.unescape.eq_def]
  split
  · next he => cases he
  · next he => exact absurd (List.cons.inj he).1 h
  · next he => exact absurd (List.cons.inj he).1 h
  · next he => cases he; rfl

theorem escape_cons (quote c : Char) (s : List Char) :
    escape quote (c :: s)
      = (if c = '\\' ∨ c = quote then ['\\', c] else [c]) ++ escape quote s := rfl

variable {quote : Char}

theorem quotedTailWidth?_escape (hq : quote = '"' ∨ quote = '\'') (s rest : List Char) :
    Literal.quotedTailWidth? quote (escape quote s ++ quote :: rest)
      = some ((escape quote s).length + 1) := by
  have hb : quote ≠ '\\' := by obtain rfl | rfl := hq <;> decide
  induction s with
  | nil => rw [escape, List.flatMap_nil, List.nil_append, quotedTailWidth?_of_ne hb, if_pos rfl]; rfl
  | cons c s ih =>
      rw [escape_cons]
      split
      · next hc =>
          have hn : c ≠ '\n' := by
            obtain rfl | rfl := hc
            · decide
            · obtain rfl | rfl := hq <;> decide
          simp only [List.cons_append, List.nil_append, Literal.quotedTailWidth?, hn, if_false, ih,
            Option.map_some, List.length_cons]
      · next hc =>
          obtain ⟨hc, hcq⟩ := not_or.1 hc
          simp only [List.cons_append, List.nil_append, quotedTailWidth?_of_ne hc, hcq, if_false,
            ih, Option.map_some, List.length_cons]

theorem unescape_escape (hq : quote = '"' ∨ quote = '\'') (s : List Char) :
    Literal.unescape (escape quote s) = s := by
  induction s with
  | nil => rfl
  | cons c s ih =>
      rw [escape_cons]
      split
      · next hc =>
          have he : Literal.escaped c = [c] := by
            obtain rfl | rfl := hc
            · rfl
            · obtain rfl | rfl := hq <;> rfl
          simp only [List.cons_append, List.nil_append, Literal.unescape, he, ih]
      · next hc =>
          rw [List.cons_append, List.nil_append, unescape_of_ne (not_or.1 hc).1, ih]

theorem quotedWidth_written (hq : quote = '"' ∨ quote = '\'') (s rest : List Char) :
    Literal.quotedWidth quote (quote :: (escape quote s ++ [quote]) ++ rest)
      = (quote :: (escape quote s ++ [quote])).length := by
  have ht := quotedTailWidth?_escape hq s rest
  simp only [List.cons_append, List.append_assoc, List.nil_append, Literal.quotedWidth, if_true, ht,
    Option.map_some, Option.getD_some, List.length_cons, List.length_append, List.length_nil]

theorem unquote_written (hq : quote = '"' ∨ quote = '\'') (s : List Char) :
    Literal.unquote (quote :: (escape quote s ++ [quote])) = s := by
  rw [Literal.unquote, List.drop_succ_cons, List.drop_zero, List.dropLast_concat,
    unescape_escape hq]

/-! Comments -/

theorem commentTailWidth?_append {text : List Char} {width : Nat} (rest : List Char)
    (h : Literal.commentTailWidth? text = some width) :
    Literal.commentTailWidth? (text ++ rest) = some width := by
  induction text using Literal.commentTailWidth?.induct generalizing width with
  | case1 tail => exact h
  | case2 text hne =>
      rw [Literal.commentTailWidth?.eq_2 _ _ hne, if_pos rfl] at h
      cases h
  | case3 c text hne hc ih =>
      rw [Literal.commentTailWidth?.eq_2 _ _ hne, if_neg hc] at h
      obtain ⟨w, hw, rfl⟩ := Option.map_eq_some_iff.1 h
      -- The text goes on behind `c`, so the mark cannot be made of `c` and what follows.
      have hne' : ∀ tail, c = '*' → text ++ rest = '/' :: tail → False := by
        intro tail hstar ht
        cases text with
        | nil => cases hw
        | cons d text =>
            apply hne text hstar
            rw [(List.cons.inj ht).1]
      rw [List.cons_append, Literal.commentTailWidth?.eq_2 _ _ hne', if_neg hc, ih hw]
      rfl
  | case4 => cases h

theorem comment_head {text : List Char} (ht : text ≠ [])
    (h : Literal.commentWidth text = text.length) : ∃ more, text = '/' :: '*' :: more := by
  have hpos := List.length_pos_iff.2 ht
  rw [← h] at hpos
  unfold Literal.commentWidth at hpos
  split at hpos
  · next more => exact ⟨more, rfl⟩
  · cases hpos

theorem commentWidth_append {text : List Char} (rest : List Char) (ht : text ≠ [])
    (h : Literal.commentWidth text = text.length) :
    Literal.commentWidth (text ++ rest) = text.length := by
  obtain ⟨more, rfl⟩ := comment_head ht h
  cases hw : Literal.commentTailWidth? more with
  | none => simp [Literal.commentWidth, hw] at h
  | some w =>
      rw [← h, List.cons_append, List.cons_append, Literal.commentWidth, Literal.commentWidth,
        commentTailWidth?_append rest hw, hw]

theorem commentTail_ends {text : List Char} {width : Nat}
    (h : Literal.commentTailWidth? text = some width) : "*/".toList <:+ text.take width := by
  induction text using Literal.commentTailWidth?.induct generalizing width with
  | case1 tail =>
      cases h
      exact List.suffix_rfl
  | case2 text hne =>
      rw [Literal.commentTailWidth?.eq_2 _ _ hne, if_pos rfl] at h
      cases h
  | case3 c text hne hc ih =>
      rw [Literal.commentTailWidth?.eq_2 _ _ hne, if_neg hc] at h
      obtain ⟨w, hw, rfl⟩ := Option.map_eq_some_iff.1 h
      rw [List.take_succ_cons]
      exact (ih hw).trans (List.suffix_cons c _)
  | case4 => cases h

theorem comment_ends {text : List Char} (h : Literal.commentWidth text ≠ 0) :
    "*/".toList <:+ text.take (Literal.commentWidth text) := by
  unfold Literal.commentWidth at h ⊢
  split at h
  · next more =>
      cases hw : Literal.commentTailWidth? more with
      | none =>
          rw [hw] at h
          exact absurd rfl h
      | some w =>
          rw [Option.map_some, Option.getD_some, List.take_succ_cons, List.take_succ_cons]
          exact (commentTail_ends hw).trans ((List.suffix_cons _ _).trans (List.suffix_cons _ _))
  · exact absurd rfl h

end Writing
end JsonTemplate
