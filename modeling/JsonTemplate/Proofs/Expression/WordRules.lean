import JsonTemplate.Proofs.Expression.NumberSyntax
import JsonTemplate.Proofs.Expression.Payloads

/-!
The rules for words and blanks: what each of them reads, and by which beginnings of a text
it is refused.
-/

namespace JsonTemplate
namespace Rules

open Writing

/-- A text begins with none of these characters. -/
def Avoids (p : Char → Bool) (text : List Char) : Prop := ∀ c ∈ text.head?, p c = false

theorem Avoids.mono {p q : Char → Bool} {text : List Char} (h : Avoids p text)
    (hq : ∀ c, q c = true → p c = true) : Avoids q text := by
  intro c hc
  have := h c hc
  cases hqc : q c with
  | false => rfl
  | true =>
      rw [hq c hqc] at this
      cases this

theorem avoids_cons {p : Char → Bool} {c : Char} (h : p c = false) (text : List Char) :
    Avoids p (c :: text) := by
  intro d hd
  cases hd
  exact h

variable {text rest : List Char}

/-! Characters and texts -/

theorem takeText_append (s rest : List Char) : takeText s (s ++ rest) = some s.length := by
  rw [takeText, if_pos]
  rw [List.isPrefixOf_iff_prefix]
  exact List.prefix_append s rest

theorem reads_text (s : String) (rest : List Char) :
    Reads (.text s) s.toList rest (· = .text s) := by
  have h := reads_chars (takeText_append s.toList rest)
  rwa [String.ofList_toList] at h

theorem reads_char (c : Char) (rest : List Char) : Reads (.char c) [c] rest fun _ => True :=
  (reads_chars (takeText_append [c] rest)).imp fun _ _ => trivial

theorem declines_text {s : String} (h : ¬ s.toList <+: text) : Declines (.text s) text := by
  apply declines_chars
  rw [takeText, if_neg]
  rwa [List.isPrefixOf_iff_prefix]

theorem declines_char {c : Char} (h : Avoids (· == c) text) : Declines (.char c) text := by
  apply declines_chars
  rw [takeText, if_neg]
  rw [List.isPrefixOf_iff_prefix]
  rintro ⟨more, rfl⟩
  have := h c rfl
  simp at this

/-! Blanks -/

/-- One blank. -/
def blank : TemplateRule := .oneOf [.char ' ', .char '\t', .char '\n', .char '\r']

theorem declines_blank (h : Avoids isGap text) : Declines blank text := by
  apply declines_oneOf
  intro r hr
  simp only [List.mem_cons, List.not_mem_nil, or_false] at hr
  obtain rfl | rfl | rfl | rfl := hr <;>
    exact declines_char (h.mono fun c hc => by rw [eq_of_beq hc]; rfl)

theorem reads_blank {c : Char} (h : isGap c = true) (rest : List Char) :
    Reads blank [c] rest fun _ => True := by
  have declines : ∀ d, c ≠ d → Refuses (.char d) ([c] ++ rest) := fun d hd =>
    (declines_char (avoids_cons (by simpa using hd) rest)).refuses
  obtain rfl | rfl | rfl | rfl := isGap_cases h
  · exact reads_oneOf_head (reads_char _ _)
  · exact reads_oneOf_tail (declines _ (by decide)) (reads_oneOf_head (reads_char _ _))
  · exact reads_oneOf_tail (declines _ (by decide)) (reads_oneOf_tail (declines _ (by decide))
      (reads_oneOf_head (reads_char _ _)))
  · exact reads_oneOf_tail (declines _ (by decide)) (reads_oneOf_tail (declines _ (by decide))
      (reads_oneOf_tail (declines _ (by decide)) (reads_oneOf_head (reads_char _ _))))

theorem reads_blanks {b : List Char} (hb : ∀ c ∈ b, isGap c = true) (h : Avoids isGap rest) :
    Reads space b rest (IsRepeated (fun _ => True) b.length) := by
  induction b with
  | nil => exact reads_many_nil (declines_blank h)
  | cons c b ih =>
      exact reads_many_cons (List.cons_ne_nil c []) (reads_blank (hb c List.mem_cons_self) _)
        (ih fun d hd => hb d (List.mem_cons_of_mem c hd))

theorem reads_space {b : List Char} (hb : Gap b) (h : Avoids isGap rest) :
    Reads space b rest fun _ => True :=
  (reads_blanks hb.all_isGap h).imp fun _ _ => trivial

theorem reads_no_space (h : Avoids isGap rest) : Reads space [] rest fun _ => True :=
  (reads_blanks (List.forall_mem_nil _) h).imp fun _ _ => trivial

/-! Keywords -/

theorem reads_keyword (s : String) (h : Spaced rest) :
    Reads (.keyword s) s.toList rest (· = .text s) := by
  have hw : takeWord s.toList (s.toList ++ rest) = some s.toList.length := by
    obtain ⟨c, more, rfl, hc⟩ := h
    have hp : s.toList.isPrefixOf (s.toList ++ c :: more) = true :=
      List.isPrefixOf_iff_prefix.2 (List.prefix_append _ _)
    rw [takeWord, List.drop_left, hp, List.head?_cons, Option.any_some, solid_isWordChar c hc]
    rfl
  have hr := reads_chars hw
  rwa [String.ofList_toList] at hr

/-- The word that a text begins with. -/
def firstWord (text : List Char) : String := String.ofList (text.takeWhile isWordChar)

theorem firstWord_append (text : List Char) (h : Spaced rest) :
    firstWord (text ++ rest) = firstWord text := by
  rw [firstWord, firstWord, takeWhile_append_spaced solid_isWordChar text h]

theorem firstWord_of_avoids (h : Avoids isWordChar text) : firstWord text = "" := by
  cases text with
  | nil => rfl
  | cons c text => rw [firstWord, List.takeWhile_cons, h c rfl]; rfl

/-- A keyword is the whole of the word that a text begins with. -/
theorem declines_keyword {s : String} (hs : s.toList.all isWordChar = true)
    (h : firstWord text ≠ s) : Declines (.keyword s) text := by
  apply declines_chars
  rw [takeWord, if_neg]
  intro ht
  rw [Bool.and_eq_true, List.isPrefixOf_iff_prefix] at ht
  obtain ⟨⟨more, rfl⟩, hmore⟩ := ht
  have hw : (s.toList ++ more).takeWhile isWordChar = s.toList := by
    apply takeWhile_append_stop (List.all_eq_true.1 hs)
    intro c hc
    rw [List.drop_left, hc] at hmore
    simpa using hmore
  exact h (by rw [firstWord, hw, String.ofList_toList])

/-! Words with a value -/

theorem reads_pattern {width : List Char → Nat} (ht : text ≠ [])
    (h : width (text ++ rest) = text.length) :
    Reads (.pattern width) text rest (· = .text (String.ofList text)) := by
  apply reads_chars
  have := List.length_pos_iff.2 ht
  simp only [takeSome, h]
  split
  · next he => omega
  · rfl

theorem declines_pattern {width : List Char → Nat} (h : width text = 0) :
    Declines (.pattern width) text := by
  apply declines_chars
  simp only [takeSome, h]

theorem reads_word {width : List Char → Nat} {node : List Char → Span → Build Fragment}
    {P : Payload Fragment → Prop} (ht : text ≠ []) (h : width (text ++ rest) = text.length)
    (hn : ∀ span, ∃ built, node text span = .ok (some built) ∧ P built) :
    Reads (.map (.pattern width) (buildText node)) text rest P := by
  apply reads_map (reads_pattern ht h)
  intro span payload hp
  obtain ⟨built, hb, hP⟩ := hn span
  exact ⟨built, by rw [hp, buildText, String.toList_ofList, hb], hP⟩

theorem reads_number {n : Number} (ht : Literal.SpellsNumber text)
    (hn : Literal.number? text = some n) (h : Variable.Leaves rest) :
    Reads number text rest (IsNode (.number n (.empty 0))) := by
  obtain ⟨c, more, rfl, -⟩ := ht.head
  refine reads_word (List.cons_ne_nil c more) (ht.read_before h) fun span => ?_
  rw [hn]
  exact isNode_made _

/-- The text is a path from its first character to its last. -/
structure Denotes (text : List Char) (p : VariablePath) : Prop where
  whole : Variable.path? text = some (p.parts, text.length)
  free : String.ofList text ∉ Variable.reservedWords
  short : p.parts.length ≤ Variable.maximumLength

theorem reads_path {p : VariablePath} (h : Denotes text p) (hr : Variable.Leaves rest) :
    Reads path text rest (IsNode (.path p (.empty 0))) := by
  have hw : Variable.width (text ++ rest) = text.length := by
    rw [Variable.width, Variable.path?_append h.whole hr]
  have hfree : Variable.reservedWords.contains (String.ofList text) = false := by
    simpa using h.free
  refine reads_word ?_ hw fun span => ?_
  · rintro rfl
    cases h.whole
  · rw [buildVariable, hfree, h.whole]
    simp only [Bool.false_eq_true, if_false, if_neg (Nat.not_lt.2 h.short), if_true]
    exact isNode_made _

theorem reads_quoted {quote : Char} (hq : quote = '"' ∨ quote = '\'') (s : String)
    (rest : List Char) :
    Reads quoted (quote :: (escape quote s.toList ++ [quote])) rest
      (IsNode (.quoted s (.empty 0))) := by
  have hr : Reads (.pattern (Literal.quotedWidth quote)) (quote :: (escape quote s.toList ++ [quote]))
      rest (· = .text (String.ofList (quote :: (escape quote s.toList ++ [quote])))) :=
    reads_pattern (List.cons_ne_nil _ _) (quotedWidth_written hq s.toList rest)
  have hpattern : Reads (.oneOf [.pattern (Literal.quotedWidth '"'),
      .pattern (Literal.quotedWidth '\'')]) (quote :: (escape quote s.toList ++ [quote])) rest
      (· = .text (String.ofList (quote :: (escape quote s.toList ++ [quote])))) := by
    obtain rfl | rfl := hq
    · exact reads_oneOf_head hr
    · exact reads_oneOf_tail (declines_pattern rfl).refuses (reads_oneOf_head hr)
  apply reads_map hpattern
  intro span payload hp
  refine ⟨_, by rw [hp]; rfl, .quoted s span, ?_, rfl⟩
  rw [String.toList_ofList, unquote_written hq, String.ofList_toList]

theorem reads_comment (ht : text ≠ []) (h : Literal.commentWidth text = text.length)
    (rest : List Char) : Reads comment text rest fun _ => True :=
  reads_word ht (commentWidth_append rest ht h) fun _ => ⟨_, rfl, trivial⟩

theorem reads_null (h : Spaced rest) :
    Reads null "null".toList rest (IsNode (.null (.empty 0))) :=
  reads_map (reads_keyword "null" h) fun span _ _ => isNode_made (.null span)

theorem reads_undefined (h : Spaced rest) :
    Reads undefined "undefined".toList rest (IsNode (.undefined (.empty 0))) :=
  reads_map (reads_keyword "undefined" h) fun span _ _ => isNode_made (.undefined span)

theorem reads_boolean (b : Bool) (h : Spaced rest) :
    Reads boolean (if b then "true" else "false").toList rest (IsNode (.bool b (.empty 0))) := by
  cases b with
  | true =>
      apply reads_map (reads_oneOf_head (reads_keyword "true" h))
      intro span payload hp
      rw [hp]
      exact isNode_made (.bool true span)
  | false =>
      have hn : firstWord ("false".toList ++ rest) ≠ "true" := by
        rw [firstWord_append _ h]
        decide
      refine reads_map (reads_oneOf_tail (declines_keyword rfl hn).refuses
        (reads_oneOf_head (reads_keyword "false" h))) fun span payload hp => ?_
      rw [hp]
      exact isNode_made (.bool false span)

/-! Beginnings that refuse a word -/

theorem refuses_keyword_map {s : String} {build : Piece → Build Fragment}
    (hs : s.toList.all isWordChar = true) (h : firstWord text ≠ s) :
    Refuses (.map (.keyword s) build) text :=
  refuses_map (declines_keyword hs h).refuses

theorem refuses_null (h : firstWord text ≠ "null") : Refuses null text :=
  refuses_keyword_map rfl h

theorem refuses_undefined (h : firstWord text ≠ "undefined") : Refuses undefined text :=
  refuses_keyword_map rfl h

theorem refuses_boolean (ht : firstWord text ≠ "true") (hf : firstWord text ≠ "false") :
    Refuses boolean text := by
  refine refuses_map (refuses_oneOf fun r hr => ?_)
  simp only [List.mem_cons, List.not_mem_nil, or_false] at hr
  obtain rfl | rfl := hr
  · exact (declines_keyword rfl ht).refuses
  · exact (declines_keyword rfl hf).refuses

theorem refuses_word {width : List Char → Nat} {build : Piece → Build Fragment}
    (h : width text = 0) : Refuses (.map (.pattern width) build) text :=
  refuses_map (declines_pattern h).refuses

theorem refuses_number (h : Avoids (fun c => isDigit c || c == '-') text) :
    Refuses number text := by
  apply refuses_word
  cases text with
  | nil => rfl
  | cons c text =>
      obtain ⟨hd, hm⟩ := Bool.or_eq_false_iff.1 (h c rfl)
      rw [Literal.numberWidth_of_ne (by simpa using hm), Literal.unsignedWidth,
        Literal.digitsWidth, List.takeWhile_cons, hd]
      rfl

theorem refuses_path (h : Avoids Variable.isNameStart text) : Refuses path text := by
  apply refuses_word
  cases text with
  | nil => rfl
  | cons c text =>
      simp only [Variable.width, Variable.path?, Variable.root?, h c rfl, Bool.false_eq_true,
        if_false]

/-- A reserved word that stands alone is no path. -/
theorem refuses_path_reserved {s : String} {parts : List PathPart}
    (hs : s ∈ Variable.reservedWords) (hp : Variable.SpellsPath .lenient parts s.toList)
    (h : Variable.Leaves rest) : Refuses path (s.toList ++ rest) := by
  have ht : s.toList ≠ [] := fun he => by
    rw [he] at hp
    cases hp
  have hr : Variable.reservedWords.contains s = true := by simpa using hs
  have hw : Variable.width (s.toList ++ rest) = s.toList.length := by
    rw [Variable.width, hp.read_before h]
  refine refuses_map_build (reads_pattern ht hw) fun span payload hp => ?_
  rw [hp, buildText, String.toList_ofList, buildVariable, String.ofList_toList, hr]
  rfl

theorem refuses_quoted (h : Avoids (fun c => c == '"' || c == '\'') text) :
    Refuses quoted text := by
  refine refuses_map (refuses_oneOf fun r hr => ?_)
  have hw : ∀ quote, quote = '"' ∨ quote = '\'' → Literal.quotedWidth quote text = 0 := by
    intro quote hq
    cases text with
    | nil => rfl
    | cons c text =>
        have hc := h c rfl
        rw [Literal.quotedWidth, if_neg]
        rintro rfl
        obtain rfl | rfl := hq <;> cases hc
  simp only [List.mem_cons, List.not_mem_nil, or_false] at hr
  obtain rfl | rfl := hr
  · exact (declines_pattern (hw _ (.inl rfl))).refuses
  · exact (declines_pattern (hw _ (.inr rfl))).refuses

theorem refuses_comment (h : Avoids (· == '/') text) : Refuses comment text := by
  apply refuses_word
  cases text with
  | nil => rfl
  | cons c text =>
      unfold Literal.commentWidth
      split
      · next he =>
          have := h c rfl
          rw [(List.cons.inj he).1] at this
          cases this
      · rfl

end Rules
end JsonTemplate
