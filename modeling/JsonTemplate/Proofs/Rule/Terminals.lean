import JsonTemplate.Proofs.Document.Runs
import JsonTemplate.Proofs.Rule.Matching
import JsonTemplate.Rule.Characters

/-!
Rules over characters, seen from the tokens. Such a rule goes by what the string at its place
still spells, and says how many characters of it to take. The tokens that it takes are these
characters, all of one string, and no token behind the string bears on what it does.
-/

namespace JsonTemplate
namespace Rule

variable {ν β : Type}

/-- The same match in the tokens from another place on. -/
def placedAt (place : Nat) (parsed : Parsed β) : Parsed β :=
  (⟨place, place + parsed.1.length⟩, parsed.2)

section

variable {call : ν → Nat → Outcome (Parsed β)}

theorem run_chars_placedAt {first second : Stream} {p q : Nat}
    (h : second.charsAt q = first.charsAt p) (take? : List Char → Option Nat) :
    run second call (.chars take?) q = (run first call (.chars take?) p).map (placedAt q) := by
  simp only [run, h]
  cases take? (first.charsAt p) with
  | none => rfl
  | some count => simp [placedAt, Span.length]

theorem run_chars_text {tokens : Stream} {take? : List Char → Option Nat} {start : Nat}
    {parsed : Parsed β} (h : run tokens call (.chars take?) start = .matched parsed) :
    ∃ text : String, text.toList <+: tokens.charsAt start ∧
      parsed = (⟨start, start + text.length⟩, .text text) := by
  obtain ⟨count, -, rfl⟩ := run_chars_matched h
  refine ⟨String.ofList ((tokens.charsAt start).take count), ?_, ?_⟩
  · rw [String.toList_ofList]
    exact List.take_prefix _ _
  · rw [String.length_ofList]

variable (document : Json) (start : Nat)

theorem run_char (c : Char) :
    run (Stream.ofJson document) call (.char c) start =
      if (Stream.ofJson document).charAt? start = some c then
        .matched (⟨start, start + 1⟩, .text (String.singleton c))
      else .noMatch := by
  rw [← Stream.head?_charsAt, char, run]
  cases (Stream.ofJson document).charsAt start with
  | nil => simp [takeText]
  | cons first rest =>
      by_cases hc : first = c
      · simp [takeText, hc]
      · have hother : ¬ [c].isPrefixOf (first :: rest) = true := by simp [Ne.symm hc]
        rw [takeText, if_neg hother, List.head?_cons, if_neg fun h => hc (Option.some.inj h)]

/-- A word is refused if the token behind it carries on with it. -/
theorem run_keyword (s : String) :
    run (Stream.ofJson document) call (.keyword s) start =
      (run (Stream.ofJson document) call (.text s) start).bind fun parsed =>
        if ((Stream.ofJson document).charAt? parsed.1.stop).any isWordChar then .noMatch
        else .matched parsed := by
  simp only [keyword, text, run, takeWord, takeText]
  by_cases hs : s.toList.isPrefixOf ((Stream.ofJson document).charsAt start) = true
  · have hle : s.toList.length ≤ ((Stream.ofJson document).charsAt start).length :=
      (List.isPrefixOf_iff_prefix.1 hs).length_le
    have hnext : (Stream.ofJson document).charAt? (start + s.toList.length)
        = (((Stream.ofJson document).charsAt start).drop s.toList.length).head? := by
      rw [← (Stream.coherent_ofJson document).charsAt_drop start _ hle, Stream.head?_charsAt]
    simp only [hs, Bool.true_and, if_true, Outcome.matched_bind, List.length_take_of_le hle, hnext]
    cases (((Stream.ofJson document).charsAt start).drop s.toList.length).head?.any isWordChar with
    | false => simp [List.length_take_of_le hle]
    | true => rfl
  · simp [hs]

end

/-- What the string at a place still spells is the run of characters that the tokens carry
from there on. So a rule over characters takes as many tokens as its text has characters, and
they are the characters of the text, in one string of the document, in which the run goes on
up to the closing token. What the rule does hangs on the tokens of the run and the one behind
it alone: where another document has tokens of the same kinds, it does the same. -/
theorem terminal_takes_run (document : Json) (start : Nat) (take? : List Char → Option Nat)
    (call : ν → Nat → Outcome (Parsed β)) :
    let tokens := Stream.ofJson document
    let outcome := run tokens call (.chars take?) start
    tokens.charsAt start = tokens.charRun start ∧
    (∀ parsed, outcome = .matched parsed →
      ∃ text : String, parsed = (⟨start, start + text.length⟩, .text text) ∧
        tokens.SpellsOut parsed.1 text.toList ∧
        (text ≠ "" → ∃ place s, (place, s) ∈ document.strings 0 ∧ tokens.Spells place s ∧
          place < start ∧ parsed.1.stop ≤ place + 1 + s.length ∧
          start + (tokens.charRun start).length = place + 1 + s.length)) ∧
    ∀ (other : Json) (place : Nat),
      (∀ i ≤ (tokens.charRun start).length,
        (Stream.ofJson other).kindAt? (place + i) = tokens.kindAt? (start + i)) →
      run (Stream.ofJson other) call (.chars take?) place = outcome.map (placedAt place) := by
  intro tokens outcome
  have hrun : tokens.charsAt start = tokens.charRun start :=
    Stream.charsAt_eq_charRun document start
  refine ⟨hrun, fun parsed h => ?_, fun other place hkinds => ?_⟩
  · obtain ⟨text, hprefix, rfl⟩ := run_chars_text h
    rw [hrun] at hprefix
    have hspelled := Stream.spellsOut_of_prefix hprefix
    rw [String.length_toList] at hspelled
    refine ⟨text, rfl, hspelled, fun hne => ?_⟩
    -- A character is taken, so there is one at the place.
    have hchar : tokens.charRun start ≠ [] := fun hnil =>
      hne (String.toList_eq_nil_iff.1 (List.prefix_nil.1 (hnil ▸ hprefix)))
    obtain ⟨place, s, hs, hlt, hle⟩ := Stream.enclosed_of_charRun document start hchar
    have hend := Stream.length_charRun hs hlt hle
    rw [String.length_toList] at hend
    have hfits := hprefix.length_le
    rw [String.length_toList] at hfits
    refine ⟨place, s, hs, Stream.spells_of_mem hs, hlt, ?_, hend⟩
    rw [← hend]
    exact Nat.add_le_add_left hfits start
  · refine run_chars_placedAt ?_ take?
    rw [Stream.charsAt_eq_charRun, hrun]
    exact Stream.charRun_congr hkinds

/-- A key and its value, of characters that take several bytes. What stands before the second
character of the value is the same in a list behind an empty string. -/
theorem terminal_takes_run_bytes :
    let document : Json := .obj [("é", .str "é😀")]
    let other : Json := .arr [.str "", .str "é😀"]
    let tokens := Stream.ofJson document
    let call : Nat → Nat → Outcome (Parsed Unit) := fun _ _ => .noMatch
    let until? := takeUntil ['😀']
    (run tokens call (.chars until?) 9 = .matched (⟨9, 10⟩, .text "é") ∧ "é" ≠ "" ∧
      ∀ i ≤ (tokens.charRun 9).length,
        (Stream.ofJson other).kindAt? (7 + i) = tokens.kindAt? (9 + i)) ∧
    tokens.charRun 9 = ['é', '😀'] ∧ tokens.charsAt 9 = ['é', '😀'] ∧
    tokens.SpellsOut ⟨9, 10⟩ ['é'] ∧
    (∃ place s, (place, s) ∈ document.strings 0 ∧ tokens.Spells place s ∧ place < 9 ∧
      10 ≤ place + 1 + s.length ∧ 9 + (tokens.charRun 9).length = place + 1 + s.length) ∧
    run (Stream.ofJson other) call (.chars until?) 7 = .matched (⟨7, 8⟩, .text "é") := by
  intro document other tokens call until?
  have hmatch : run tokens call (.chars until?) 9 = .matched (⟨9, 10⟩, .text "é") := by rfl
  have hchars : tokens.charRun 9 = ['é', '😀'] := by decide +kernel
  have hkinds : ∀ i ≤ (tokens.charRun 9).length,
      (Stream.ofJson other).kindAt? (7 + i) = tokens.kindAt? (9 + i) := by decide +kernel
  obtain ⟨hrun, htext, hother⟩ := terminal_takes_run document 9 until? call
  obtain ⟨text, hparsed, hspelled, hstring⟩ := htext _ hmatch
  obtain rfl : "é" = text := Payload.text.inj (congrArg Prod.snd hparsed)
  refine ⟨⟨hmatch, by decide, hkinds⟩, hchars, hrun.trans hchars, hspelled, hstring (by decide), ?_⟩
  have hplaced := hother other 7 hkinds
  rwa [hmatch] at hplaced

end Rule
end JsonTemplate
