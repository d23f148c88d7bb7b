import JsonTemplate.Proofs.Expression.PathSyntax

/-!
The rule for paths. At every place it reads the longest text that spells a path: it declines
where there is none or where that text is a reserved word, rejects a path with too many
parts, and otherwise yields the parts in their order.
-/

namespace JsonTemplate
namespace Rules

open Variable

theorem buildVariable_of_spells {parts : List PathPart} {text : List Char} (span : Span)
    (h : SpellsPath .lenient parts text) :
    buildVariable text span =
      if String.ofList text ∈ reservedWords then .ok none
      else if maximumLength < parts.length then reject .shorterPath span
      else made (.path ⟨parts⟩ span) := by
  simp only [buildVariable, h.read_alone, List.contains_iff_mem, if_true]

variable {tokens : Stream} {call : Symbol → Nat → Outcome Piece} {start : Nat}

theorem run_path_of_none (h : path? (tokens.charsAt start) = none) :
    path.run tokens call start = .noMatch := by
  simp only [path, Rule.pattern, Rule.run, takeSome, width, h, Outcome.noMatch_bind]

theorem run_path_of_longest {parts : List PathPart} {text : List Char}
    (h : LongestPath .lenient (tokens.charsAt start) parts text) :
    path.run tokens call start = .ofBuild ⟨start, start + text.length⟩
      (buildVariable text ⟨start, start + text.length⟩) := by
  obtain ⟨rest, hrest⟩ := h.begins
  obtain ⟨⟨others, count⟩, hread, hle⟩ := h.spells.read rest
  rw [hrest] at hread
  obtain ⟨hlongest, hlength⟩ := longestPath_of_path? hread
  have hge := h.longest hlongest.spells hlongest.begins
  obtain rfl : count = text.length := by omega
  have htake : (tokens.charsAt start).take text.length = text := by rw [← hrest, List.take_left]
  have hpos : text.length ≠ 0 := by
    cases h.spells
    exact Nat.succ_ne_zero _
  have hsome : takeSome Variable.width (tokens.charsAt start) = some text.length := by
    simp only [takeSome, width, hread]
  simp only [path, Rule.pattern, Rule.run, hsome, htake, Outcome.matched_bind, buildText,
    String.toList_ofList]

/-- How a run of the rule for paths ends where `text` is the longest text of a path, and
empty if there is none. -/
structure PathOutcome (outcome : Outcome Piece) (start : Nat) (parts : List PathPart)
    (text : List Char) : Prop where
  declines : outcome = .noMatch ↔ text = [] ∨ String.ofList text ∈ reservedWords
  tooLong : ∀ x, outcome = .committed x ↔ maximumLength < parts.length ∧
    x = .rejected Expectation.shorterPath.message ⟨start, start + text.length⟩
  parses : ∀ x, outcome = .committed x →
    x.head.message ≠ (Expectation.path (String.ofList text)).message
  yields : ∀ piece, outcome = .matched piece ↔
    text ≠ [] ∧ String.ofList text ∉ reservedWords ∧ parts.length ≤ maximumLength ∧
      piece = (⟨start, start + text.length⟩,
        .value (.node (.path ⟨parts⟩ ⟨start, start + text.length⟩)))

theorem pathOutcome_noMatch (start : Nat) {parts : List PathPart} {text : List Char}
    (h : text = [] ∨ String.ofList text ∈ reservedWords) (hl : parts.length ≤ maximumLength) :
    PathOutcome .noMatch start parts text where
  declines := iff_of_true rfl h
  tooLong _ := iff_of_false nofun fun hx => absurd hx.1 (Nat.not_lt.2 hl)
  parses _ := nofun
  yields _ := iff_of_false nofun fun hx => h.elim hx.1 hx.2.1

theorem shorterPath_message :
    Expectation.shorterPath.message
      = "Unable to parse variable path: " ++ "too many layers deep" := by
  decide

/-- The message for a path that is too long is not that for any text of a path. -/
theorem shorterPath_message_ne {parts : List PathPart} {text : List Char}
    (h : SpellsPath .lenient parts text) :
    Expectation.shorterPath.message ≠ (Expectation.path (String.ofList text)).message := by
  intro he
  have htext : "too many layers deep" = String.ofList text :=
    (String.append_right_inj _).1 (shorterPath_message.symm.trans he)
  have hblank : ' ' ∈ text := by
    rw [← String.toList_ofList (l := text), ← htext]
    decide
  cases h.isPathChar ' ' hblank

theorem pathOutcome_build {parts : List PathPart} {text : List Char} (start : Nat)
    (h : SpellsPath .lenient parts text) :
    PathOutcome (.ofBuild ⟨start, start + text.length⟩
      (buildVariable text ⟨start, start + text.length⟩)) start parts text := by
  have hne : text ≠ [] := by
    cases h
    exact nofun
  rw [buildVariable_of_spells _ h]
  split
  · next hr =>
      exact pathOutcome_noMatch start (.inr hr) (h.single_of_reserved hr ▸ by decide)
  · next hr =>
      have hdeclines : ¬ (text = [] ∨ String.ofList text ∈ reservedWords) := not_or.2 ⟨hne, hr⟩
      split
      · next hl =>
          exact {
            declines := iff_of_false nofun hdeclines
            tooLong := fun x => ⟨fun hx => ⟨hl, (Outcome.committed.inj hx).symm⟩,
              fun hx => congrArg Outcome.committed hx.2.symm⟩
            parses := fun x hx => Outcome.committed.inj hx ▸ shorterPath_message_ne h
            yields := fun _ => iff_of_false nofun fun hx => absurd hl (Nat.not_lt.2 hx.2.2.1) }
      · next hl =>
          exact {
            declines := iff_of_false nofun hdeclines
            tooLong := fun _ => iff_of_false nofun fun hx => hl hx.1
            parses := nofun
            yields := fun piece =>
              ⟨fun hx => ⟨hne, hr, Nat.not_lt.1 hl, (Outcome.matched.inj hx).symm⟩,
                fun hx => congrArg Outcome.matched hx.2.2.2.symm⟩ }

/-- At every place the rule for paths reads the longest text that spells a path, with either
quote of a name in brackets there or missing. -/
theorem run_path (tokens : Stream) (call : Symbol → Nat → Outcome Piece) (start : Nat) :
    ∃ parts text,
      ((parts = [] ∧ text = [] ∧ ∀ others other, SpellsPath .lenient others other →
          ¬ other <+: tokens.charsAt start) ∨
        LongestPath .lenient (tokens.charsAt start) parts text) ∧
      PathOutcome (path.run tokens call start) start parts text := by
  cases hread : path? (tokens.charsAt start) with
  | none =>
      refine ⟨[], [], .inl ⟨rfl, rfl, fun _ _ => not_spellsPath_of_path? hread⟩, ?_⟩
      rw [run_path_of_none hread]
      exact pathOutcome_noMatch start (.inl rfl) (Nat.zero_le _)
  | some read =>
      obtain ⟨hlongest, -⟩ := longestPath_of_path? hread
      refine ⟨_, _, .inr hlongest, ?_⟩
      rw [run_path_of_longest hlongest]
      exact pathOutcome_build start hlongest.spells

/-- The rule reads at least as far as paired quotes allow, and farther just where what it reads
has a quote without another. -/
theorem run_path_of_paired {parts : List PathPart} {text : List Char}
    (h : LongestPath .paired (tokens.charsAt start) parts text) :
    ∃ others other, text <+: other ∧ (other = text ↔ SpellsPath .paired others other) ∧
      PathOutcome (path.run tokens call start) start others other := by
  obtain ⟨others, other, hlongest, hwithin, hpaired⟩ := h.within_lenient
  refine ⟨others, other, hwithin, hpaired, ?_⟩
  rw [run_path_of_longest hlongest]
  exact pathOutcome_build start hlongest.spells

end Rules

/-! Quotes without another -/

namespace Variable

open Writing

theorem count_quote_of_isBracketChar {name : List Char}
    (hw : ∀ c ∈ name, isBracketChar c = true) : name.count '\'' = 0 :=
  List.count_eq_zero.2 fun hq => nomatch hw _ hq

theorem isBracketChar_of_isWordChar {c : Char} (h : isWordChar c = true) :
    isBracketChar c = true := by
  rw [isBracketChar, h, Bool.true_or, Bool.true_or]

theorem count_quote_mark (optional : Bool) : (mark optional).count '\'' = 0 := by
  cases optional <;> rfl

theorem SpellsStep.two_dvd_count_quote {part : PathPart} {text : List Char}
    (h : SpellsStep .paired part text) : 2 ∣ text.count '\'' := by
  cases h with
  | dotted optional _ hw =>
      have hname := count_quote_of_isBracketChar fun c hc => isBracketChar_of_isWordChar (hw c hc)
      simp [hname, count_quote_mark]
  | @bracketed name before after optional hq _ hw =>
      have hname := count_quote_of_isBracketChar hw
      obtain rfl : before = after := hq
      cases before <;> simp [quote, hname, count_quote_mark]

theorem SpellsSteps.two_dvd_count_quote {parts : List PathPart} {text : List Char}
    (h : SpellsSteps .paired parts text) : 2 ∣ text.count '\'' := by
  induction h with
  | nil => exact Nat.dvd_zero 2
  | cons h _ ih =>
      rw [List.count_append]
      exact Nat.dvd_add h.two_dvd_count_quote ih

/-- Where quotes come in pairs, their number is even. -/
theorem SpellsPath.two_dvd_count_quote {parts : List PathPart} {text : List Char}
    (h : SpellsPath .paired parts text) : 2 ∣ text.count '\'' := by
  cases h with
  | @mk c name text parts optional hc hw hs =>
      have hname : (c :: name).count '\'' = 0 := count_quote_of_isBracketChar <|
        List.forall_mem_cons.2 ⟨isBracketChar_of_isWordChar (isWordChar_of_isNameStart hc),
          fun d hd => isBracketChar_of_isWordChar (hw d hd)⟩
      rw [List.count_append, List.count_append, hname, count_quote_mark, Nat.zero_add, Nat.zero_add]
      exact hs.two_dvd_count_quote

/-- An open bracket is no step. -/
theorem not_spellsPath_open {quoting : Quoting} {parts : List PathPart} :
    ¬ SpellsPath quoting parts ['a', '['] := by
  intro h
  have hread := h.read_alone
  have hsteps : steps ['['] = ([], 0) := steps_of_none rfl
  simp only [path?, show root? ['a', '['] = some (⟨"a", false⟩, 1) from rfl, List.drop_succ_cons,
    List.drop_zero, hsteps] at hread
  cases hread

end Variable

namespace Rules

open Variable

/-- The rule reads on where a quote has no other, behind all that paired quotes allow. -/
theorem run_path_unpaired :
    LongestPath .paired ((Stream.ofJson (.str "a['b]")).charsAt 1) [⟨"a", false⟩] ['a'] ∧
    path.run (Stream.ofJson (.str "a['b]")) (fun _ _ => .noMatch) 1 =
      .matched (⟨1, 6⟩, .value (.node (.path ⟨[⟨"a", false⟩, ⟨"b", false⟩]⟩ ⟨1, 6⟩))) := by
  have hrun : (Stream.ofJson (.str "a['b]")).charsAt 1 = ['a', '[', '\'', 'b', ']'] := rfl
  have hspells : SpellsPath .lenient [⟨"a", false⟩, ⟨"b", false⟩] ['a', '[', '\'', 'b', ']'] :=
    @SpellsPath.mk _ 'a' [] _ _ false rfl nofun
      (.cons (@SpellsStep.bracketed _ ['b'] true false false trivial nofun
        (List.all_eq_true.1 rfl)) .nil)
  rw [hrun]
  constructor
  · refine ⟨@SpellsPath.mk _ 'a' [] _ _ false rfl nofun .nil, by decide,
      fun {others other} ho hpre => ?_⟩
    have hle : other.length ≤ 5 := hpre.length_le
    have htake := List.prefix_iff_eq_take.1 hpre
    obtain hn | hn | hn : other.length ≤ 1 ∨ other.length = 2 ∨
        (other.length = 3 ∨ other.length = 4 ∨ other.length = 5) := by omega
    · exact hn
    · rw [hn] at htake
      exact absurd (htake ▸ ho) not_spellsPath_open
    · have hcount := ho.two_dvd_count_quote
      obtain hn | hn | hn := hn <;> rw [htake, hn] at hcount <;> exact absurd hcount (by decide)
  · rw [run_path_of_longest ⟨hspells, by simp only [hrun, List.prefix_rfl], fun _ hpre => by
      rw [hrun] at hpre; exact hpre.length_le⟩, buildVariable_of_spells _ hspells]
    rfl

end Rules
end JsonTemplate
