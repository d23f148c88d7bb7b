import JsonTemplate.Proofs.Numeral.Rounding
import JsonTemplate.Proofs.Template.Containers
import JsonTemplate.Proofs.Template.Loops
import Mathlib.Data.List.TakeDrop
import Mathlib.Data.List.TakeWhile

/-!
Integers in expressions. A whole number of 63 bits and a sign is itself between brackets as it
is in the document; the larger numbers of 64 bits stay exact in the document only, and between
brackets they are rounded to the nearest float.
-/

namespace JsonTemplate

namespace Numeral

variable {digits : List Char}

theorem spanDigits_of_all (h : ∀ c ∈ digits, c.isDigit = true) :
    spanDigits digits = (digits, []) := by
  rw [spanDigits, List.span_eq_takeWhile_dropWhile, List.takeWhile_eq_self_iff.2 h,
    List.dropWhile_eq_nil_iff.2 h]

theorem toLower_of_isDigit {c : Char} (h : c.isDigit = true) : c.toLower = c := by
  have hle : c.val ≤ '9'.val := of_decide_eq_true (Bool.and_eq_true_iff.1 h).2
  refine dif_neg fun hc => ?_
  exact absurd (UInt32.le_trans hc.1 hle) (by decide)

theorem special?_of_isDigit {c : Char} (h : c.isDigit = true) (rest : List Char) :
    special? (c :: rest) = none := by
  have hne : ∀ word : List Char, word.head?.any Char.isDigit = false → word ≠ [] →
      String.ofList ((c :: rest).map Char.toLower) ≠ String.ofList word := by
    intro word hd hw he
    have := String.ofList_injective he
    rw [← this] at hd
    simp [toLower_of_isDigit h, h] at hd
  unfold special?
  split
  · next he => exact absurd he (hne "inf".toList (by decide) nofun)
  · next he => exact absurd he (hne "infinity".toList (by decide) nofun)
  · next he => exact absurd he (hne "nan".toList (by decide) nofun)
  · rfl

theorem magnitude?_of_all {c : Char} {rest : List Char} (h : ∀ d ∈ c :: rest, d.isDigit = true) :
    magnitude? (c :: rest) = some (scaled (ofDigits (c :: rest)) 0) := by
  simp only [magnitude?, spanDigits_of_all h, List.isEmpty_cons, Bool.false_and, Bool.false_eq_true,
    if_false, List.append_nil]
  rfl

theorem parse?_toDigits (n : Nat) : parse? (Nat.toDigits 10 n) = some (scaled n 0) := by
  obtain ⟨c, rest, hd, -⟩ := Literal.toDigits_cons n
  have hall : ∀ d ∈ c :: rest, d.isDigit = true := fun d hmem =>
    Nat.isDigit_of_mem_toDigits (by decide) (by decide) (hd ▸ hmem)
  have hc := hall c List.mem_cons_self
  have hsign : splitSign (c :: rest) = (false, c :: rest) := by
    unfold splitSign
    split
    · next he => cases he; cases hc
    · next he => cases he; cases hc
    · rfl
  have hvalue : ofDigits (c :: rest) = n := by rw [← hd, Literal.ofDigits_toDigits]
  simp only [hd, parse?, hsign, special?_of_isDigit hc, magnitude?_of_all hall, hvalue,
    Option.none_or, Option.map_some, Bool.false_eq_true, if_false]

/-- A number of a few digits is neither too large nor too small to be scaled. -/
theorem scaled_zero {n : Nat} (hpos : 0 < n) (hn : n < 0x10000000000000000) :
    scaled n 0 = Float.ofScientific n false 0 := by
  have hlength : (Nat.toDigits 10 n).length ≤ 20 :=
    (Nat.length_toDigits_le_iff (by decide) (by decide)).2 (Nat.lt_trans hn (by decide))
  rw [scaled, if_neg (by omega), if_neg (by omega), if_neg (by decide)]
  rfl

end Numeral

namespace Literal

/-- An integer of 64 bits that needs all of them is rounded. -/
theorem number?_large {i : Int} (hl : 0x8000000000000000 ≤ i) (hi : i < 0x10000000000000000) :
    ∃ finite, number? (toString i).toList = some (.float (Float.ofInt i) finite) := by
  obtain ⟨n, rfl⟩ := Int.eq_ofNat_of_zero_le (show 0 ≤ i by omega)
  have hfinite : Binary64.isFinite (Float.ofInt n) = true :=
    Binary64.isFinite_ofScientific (by omega) (by omega)
  have hsigned : isSigned n = false := by
    rw [isSigned, Bool.and_eq_false_iff]
    exact .inr (decide_eq_false (by omega))
  have htext : (toString (n : Int)).toList = Nat.toDigits 10 n := by
    rw [toString_toList, if_neg (by omega), Int.natAbs_natCast]
  have hparsed : Numeral.parse? (toString (n : Int)).toList = some (Float.ofInt n) := by
    rw [htext, Numeral.parse?_toDigits, Numeral.scaled_zero (by omega) (by omega)]
    rfl
  refine ⟨hfinite, ?_⟩
  simp only [number?, readInt_toString, hsigned, Bool.and_false, Bool.false_eq_true, if_false,
    Option.none_or, hparsed, Option.bind_some]
  exact dif_pos hfinite

end Literal

namespace Rules

open Writing

/-- An integer, alone in a string. -/
theorem reads_integer {i : Int} {n : Number} (hn : Literal.number? (toString i).toList = some n) :
    Reads interpolation ("\x7b\x7b ".toList ++ ((toString i).toList ++ " \x7d\x7d".toList)) []
      (IsNode (.interpolation false [] (.number n (.empty 0)) (.empty 0))) := by
  have ho := opens_number i
  have hstatement : Reads statement ((toString i).toList ++ []) ([' '] ++ "\x7d\x7d".toList)
      (IsNode (.number n (.empty 0))) := by
    rw [List.append_nil]
    exact reads_statement_operand ho
      (read_atom (read_number (Literal.spellsNumber_toString i) hn)) before_close
  have hflatten : firstWord (toString i).toList ≠ "flatten" := fun hw =>
    ho.2 (by rw [hw]; decide)
  exact reads_between_blanks .no .none ho.1 hflatten (List.nil_append _) hstatement

end Rules

namespace Template

open Evaluation Rules

variable {parameters : Fields Json} {o : Options}

theorem expand_number (n : Number) : expand (.num n) (.obj parameters) o = .ok (.num n) :=
  expand_eq_ok_iff.2 ⟨_, rootResult_eq_ok_iff.2 ⟨_, rfl, rfl⟩, rfl⟩

/-- What the literal of an integer means is what it comes to, alone in a string. -/
theorem expand_literal {i : Int} {n : Number} (hn : Literal.number? (toString i).toList = some n) :
    expand (.str ("\x7b\x7b " ++ toString i ++ " \x7d\x7d")) (.obj parameters) o = .ok (.num n) := by
  have hread := reads_integer hn
  have htext : ("\x7b\x7b " ++ toString i ++ " \x7d\x7d").toList
      = "\x7b\x7b ".toList ++ ((toString i).toList ++ " \x7d\x7d".toList) := by
    rw [String.toList_append, String.toList_append, List.append_assoc]
  rw [← htext] at hread
  have hvalue : evaluate (o.effective parameters)
      (.template [.interpolation false [] (.number n (.empty 0)) (.empty 0)] (.empty 0)) .value
        (.ofParameters parameters)
      = .ok (.plain (some (.num n))) := by
    simp only [evaluate, evaluateAll]
    rfl
  exact expand_eq_ok_iff.2 ⟨_, rootResult_of_reads hread hvalue rfl, rfl⟩

/-- Every integer of 64 bits is itself in a document. Between brackets it is itself as well if
it is below `2 ^ 63`, and the nearest float from there on. -/
theorem expand_integer {i : Int} (fits : -0x8000000000000000 ≤ i ∧ i < 0x10000000000000000)
    (parameters : Fields Json) (o : Options) :
    expand (.num (.int i fits)) (.obj parameters) o = .ok (.num (.int i fits)) ∧
      (i < 0x8000000000000000 →
        expand (.str ("\x7b\x7b " ++ toString i ++ " \x7d\x7d")) (.obj parameters) o
          = .ok (.num (.int i fits))) ∧
      (0x8000000000000000 ≤ i → ∃ finite,
        expand (.str ("\x7b\x7b " ++ toString i ++ " \x7d\x7d")) (.obj parameters) o
          = .ok (.num (.float (Float.ofInt i) finite))) := by
  refine ⟨expand_number _, fun hi => expand_literal ?_, fun hi => ?_⟩
  · have hsigned : Literal.isSigned i = true := by
      rw [Literal.isSigned, Bool.and_eq_true, decide_eq_true_eq, decide_eq_true_eq]
      exact ⟨fits.1, hi⟩
    rw [Literal.number?_toString hsigned]
    exact dif_pos fits
  · obtain ⟨finite, hn⟩ := Literal.number?_large hi fits.2
    exact ⟨finite, expand_literal hn⟩

/-- The integers on either side of `2 ^ 63`. -/
theorem expand_integer_signed :
    expand (.str "\x7b\x7b 9223372036854775807 \x7d\x7d") (.obj []) .none
        = .ok (.num (.int 9223372036854775807 (by decide))) ∧
      ∃ finite, expand (.str "\x7b\x7b 9223372036854775808 \x7d\x7d") (.obj []) .none
        = .ok (.num (.float (Float.ofInt 9223372036854775808) finite)) := by
  have hbelow := (expand_integer (i := 9223372036854775807) (by decide) [] .none).2.1 (by decide)
  have habove := (expand_integer (i := 9223372036854775808) (by decide) [] .none).2.2 (by decide)
  exact ⟨hbelow, habove⟩

/-- The first integer that is not exact between brackets, though it is in a document. -/
theorem expand_integer_rounded :
    expand (.str "\x7b\x7b 9223372036854775808 \x7d\x7d") (.obj []) .none
      ≠ .ok (.num (.int 9223372036854775808 (by decide))) := by
  obtain ⟨finite, hn⟩ := Literal.number?_large (i := 9223372036854775808) (by decide) (by decide)
  have hfloat := @expand_literal [] .none _ _ hn
  intro hint
  cases hfloat.symm.trans hint

end Template
end JsonTemplate
