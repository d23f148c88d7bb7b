import JsonTemplate.Proofs.Evaluation.Relocation
import JsonTemplate.Proofs.Template.Shape

/-!
Strings that stand for a text, whatever the parameters: the value of such a string is the
text, and as a key it names the text. Text without opening brackets stands for itself, and
every text stands in quotes.
-/

namespace JsonTemplate

/-- A text in quotes, as the only interpolation of a string. -/
def quotedText (quote : Char) (s : String) : String :=
  "\x7b\x7b " ++ String.ofList (quote :: (Writing.escape quote s.toList ++ [quote])) ++ " \x7d\x7d"

/-- A text that opens no interpolation. -/
def IsPlain (s : String) : Prop := ¬ "\x7b\x7b".toList <:+: s.toList

instance (s : String) : Decidable (IsPlain s) := inferInstanceAs (Decidable (¬ _))

namespace Rules

open Evaluation Writing

/-- A string whose tree comes to this text, as a key and as a value. -/
def StandsFor (written s : String) : Prop :=
  ∃ n, readText written = .ok n ∧ ∀ undefinedAsNull role scope,
    evaluate undefinedAsNull n.bare role scope = .ok (.plain (some (.str s)))

/-- Wherever it stands, such a string comes to its text. -/
theorem StandsFor.readTextAt {written s : String} (h : StandsFor written s) (place : Nat) :
    ∃ n, Rules.readTextAt place written = .ok n ∧ ∀ undefinedAsNull role scope,
      evaluate undefinedAsNull n role scope = .ok (.plain (some (.str s))) := by
  obtain ⟨n, hn, hvalue⟩ := h
  refine ⟨_, readTextAt_of_readText hn place, fun undefinedAsNull role scope => ?_⟩
  refine evaluate_of_bare undefinedAsNull ?_ rfl
  rw [Node.bare_relocate, hvalue]

/-! Text -/

theorem widthUntil_of_not_infix {stop run : List Char} (h : ¬ stop <:+: run) :
    widthUntil stop run = run.length := by
  induction run with
  | nil => rfl
  | cons c run ih =>
      obtain ⟨hstart, hlater⟩ := not_or.1 (mt List.infix_cons_iff.2 h)
      rw [widthUntil, if_neg (mt List.isPrefixOf_iff_prefix.1 hstart), ih hlater, List.length_cons]

theorem reads_plainText {text rest : List Char} (ht : text ≠ [])
    (h : widthUntil "\x7b\x7b".toList (text ++ rest) = text.length) :
    Reads plainText text rest (IsNode (.text (String.ofList text) (.empty 0))) := by
  have htake : takeUntil "\x7b\x7b".toList (text ++ rest) = some text.length := by
    rw [takeUntil, h]
    split
    · next hzero => exact absurd (List.length_eq_zero_iff.1 hzero) ht
    · rfl
  refine reads_map (reads_chars htake) fun span payload hp => ?_
  rw [hp, buildText, String.toList_ofList]
  exact isNode_made _

/-- Text up to opening brackets is one part of a string. -/
theorem reads_part_text {text rest : List Char} (ht : text ≠ [])
    (h : widthUntil "\x7b\x7b".toList (text ++ rest) = text.length) :
    Reads (.oneOf [interpolation, plainText]) text rest
      (IsNode (.text (String.ofList text) (.empty 0))) := by
  have hno : ¬ "\x7b\x7b".toList <+: text ++ rest := by
    intro hstart
    cases text with
    | nil => exact ht rfl
    | cons c text =>
        rw [List.cons_append] at h hstart
        rw [widthUntil, if_pos (List.isPrefixOf_iff_prefix.2 hstart)] at h
        cases h
  exact reads_oneOf_tail (declines_sequence (declines_text hno)).refuses
    (reads_oneOf_head (reads_plainText ht h))

theorem standsFor_self {s : String} (h : IsPlain s) : StandsFor s s := by
  cases hs : s.toList with
  | nil =>
      have hparts : Reads stringParts s.toList [] (IsNodes []) := hs ▸ reads_parts_none
      obtain ⟨n, hn, hbare⟩ := readText_of_reads hparts
      refine ⟨n, hn, fun undefinedAsNull role scope => ?_⟩
      rw [hbare, String.toList_eq_nil_iff.1 hs]
      rfl
  | cons c rest =>
      have hne : s.toList ≠ [] := hs ▸ List.cons_ne_nil c rest
      have hwidth : widthUntil "\x7b\x7b".toList (s.toList ++ []) = s.toList.length := by
        rw [List.append_nil, widthUntil_of_not_infix h]
      have hread := reads_parts_one hne (reads_part_text hne hwidth)
      obtain ⟨n, hn, hbare⟩ := readText_of_reads hread
      refine ⟨n, hn, fun undefinedAsNull role scope => ?_⟩
      rw [hbare, String.ofList_toList]
      exact congrArg (fun text => Except.ok (Evaluated.plain (some (.str text)))) String.append_empty

/-! Quotes -/

theorem writes_quotedText {quote : Char} (hq : quote = '"' ∨ quote = '\'') (s : String) :
    WritesInterpolation (.interpolation false [] (.quoted s (.empty 0)) (.empty 0))
      (quotedText quote s).toList := by
  have hb := gap_blank
  have hwritten := WritesInterpolation.mk hb .no .none (.literal (.quoted s hq)) hb .none
  rw [quotedText, String.toList_append, String.toList_append, String.toList_ofList]
  simpa using hwritten

theorem standsFor_quotedText {quote : Char} (hq : quote = '"' ∨ quote = '\'') (s : String) :
    StandsFor (quotedText quote s) s := by
  have hread := reads_interpolation (writes_quotedText hq s) []
  obtain ⟨n, hn, hbare⟩ := readText_of_interpolation hread
  refine ⟨n, hn, fun undefinedAsNull role scope => ?_⟩
  rw [hbare]
  cases role with
  | value => rfl
  | key => exact congrArg (fun text => Except.ok (Evaluated.plain (some (.str text)))) String.append_empty

end Rules
end JsonTemplate
