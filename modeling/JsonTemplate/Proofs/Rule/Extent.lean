import JsonTemplate.Proofs.Document.Coherence
import JsonTemplate.Proofs.Rule.Matching
import JsonTemplate.Rule.Characters

/-!
How far a match reaches. A match begins where it was asked for and stays inside the
stream; an eager rule takes a token with every match. Since a repetition ends with the
stream, its budget is never used up.
-/

namespace JsonTemplate

variable {ν β : Type}

/-- Matches begin where they are asked for and end inside the stream, or where they
begin. -/
def Within (size : Nat) (item : Nat → Outcome (Parsed β)) : Prop :=
  ∀ start parsed, item start = .matched parsed →
    parsed.1.start = start ∧ start ≤ parsed.1.stop ∧ parsed.1.stop ≤ max start size

def Advancing (item : Nat → Outcome (Parsed β)) : Prop :=
  ∀ start parsed, item start = .matched parsed → start < parsed.1.stop

namespace Span

theorem isEmpty_iff (s : Span) : s.isEmpty = true ↔ s.stop ≤ s.start := by
  simp [isEmpty, length, Nat.sub_eq_zero_iff_le]

theorem isEmpty_eq_false_iff (s : Span) : s.isEmpty = false ↔ s.start < s.stop := by
  rw [← Bool.not_eq_true, isEmpty_iff, Nat.not_le]

end Span

namespace Rule

theorem consecutive_le {size : Nat} {item : Nat → Outcome (Parsed β)} (hw : Within size item)
    {start stop : Nat} {items : List (Parsed β)} (h : Consecutive item start items stop) :
    start ≤ stop ∧ stop ≤ max start size := by
  induction items generalizing start with
  | nil => obtain ⟨rfl, -⟩ := h; omega
  | cons parsed rest ih =>
      obtain ⟨hp, -, hr⟩ := h
      have := hw start parsed hp
      have := ih hr
      omega

/-- Two budgets that last to the end of the stream give the same outcome. -/
theorem repeatedly_budget {size : Nat} {item : Nat → Outcome (Parsed β)} (hw : Within size item)
    {first second position : Nat} (hf : size - position < first) (hs : size - position < second) :
    repeatedly item first position = repeatedly item second position := by
  induction first generalizing second position with
  | zero => omega
  | succ first ih =>
      obtain ⟨second, rfl⟩ : ∃ n, second = n + 1 := ⟨second - 1, by omega⟩
      simp only [repeatedly]
      split
      · next parsed hp =>
          split
          · rfl
          · next he =>
              have hb := hw position parsed hp
              have hne := (Span.isEmpty_eq_false_iff parsed.1).1 (by simpa using he)
              rw [ih (by omega : size - parsed.1.stop < first)
                (by omega : size - parsed.1.stop < second)]
      · rfl
      · rfl
      · rfl

/-- A repetition ends if every run of its item does. -/
theorem repeatedly_isFinished {size : Nat} {item : Nat → Outcome (Parsed β)}
    (hw : Within size item) (hi : ∀ start, (item start).isFinished = true)
    {budget position : Nat} (hb : size - position < budget) :
    (repeatedly item budget position).isFinished = true := by
  induction budget generalizing position with
  | zero => omega
  | succ budget ih =>
      simp only [repeatedly]
      split
      · next parsed hp =>
          split
          · rfl
          · next he =>
              have hx := hw position parsed hp
              have hne := (Span.isEmpty_eq_false_iff parsed.1).1 (by simpa using he)
              have := ih (by omega : size - parsed.1.stop < budget)
              cases hr : repeatedly item budget parsed.1.stop <;>
                simp_all [Outcome.map, Outcome.bind, Outcome.isFinished]
      · rfl
      · rfl
      · next hu =>
          have := hi position
          rw [hu] at this
          cases this

section Runs

variable {tokens : Stream} {call : ν → Nat → Outcome (Parsed β)}

theorem runAll_within {size : Nat} {parts : List (Rule ν β)}
    (hw : ∀ part ∈ parts, Within size (run tokens call part)) {start stop : Nat}
    {pieces : List (Parsed β)} (h : runAll tokens call parts start = .matched (stop, pieces)) :
    start ≤ stop ∧ stop ≤ max start size := by
  induction parts generalizing start pieces with
  | nil => obtain ⟨rfl, -⟩ := runAll_nil_matched h; omega
  | cons part rest ih =>
      obtain ⟨piece, more, hp, hr, -⟩ := runAll_cons_matched h
      have := hw part List.mem_cons_self start piece hp
      have := ih (fun r hr => hw r (List.mem_cons_of_mem part hr)) hr
      omega

theorem run_within (hc : tokens.Coherent) (hcall : ∀ symbol, Within tokens.size (call symbol))
    (r : Rule ν β) : Within tokens.size (run tokens call r) := by
  induction r using Rule.induct with
  | tag t =>
      intro start parsed h
      obtain ⟨ht, rfl⟩ := run_tag_matched h
      have : start < tokens.size := by
        apply Nat.lt_of_not_le
        intro hn
        simp [Stream.tagAt?, hn] at ht
      exact ⟨rfl, by simp, by simp only; omega⟩
  | scalar value? =>
      intro start parsed h
      obtain ⟨token, v, ht, -, rfl⟩ := run_scalar_matched h
      have := (Array.getElem?_eq_some_iff.1 ht).1
      exact ⟨rfl, by simp, by simp only; omega⟩
  | chars take? =>
      intro start parsed h
      obtain ⟨count, -, rfl⟩ := run_chars_matched h
      have := hc.charsAt_length_le start
      have := List.length_take_le' count (tokens.charsAt start)
      exact ⟨rfl, by simp, by simp only; omega⟩
  | sequence parts build ih =>
      intro start parsed h
      cases build with
      | none =>
          obtain ⟨stop, pieces, ha, rfl⟩ := run_sequence_none_matched h
          exact ⟨rfl, runAll_within ih ha⟩
      | some build =>
          obtain ⟨stop, pieces, ha, -, hs⟩ := run_sequence_matched h
          rw [hs]
          exact ⟨rfl, runAll_within ih ha⟩
  | oneOf alternatives ih =>
      intro start parsed h
      obtain ⟨r, hr, hm⟩ := run_oneOf_matched h
      exact ih r hr start parsed hm
  | many item ih =>
      intro start parsed h
      obtain ⟨stop, items, hi, rfl⟩ := run_many_matched h
      exact ⟨rfl, consecutive_le ih hi⟩
  | maybe item ih =>
      intro start parsed h
      obtain ⟨inner, hi, rfl⟩ | rfl := run_maybe_matched h
      · exact ih start inner hi
      · exact ⟨rfl, by simp [Span.empty], by simp only [Span.empty]; omega⟩
  | required item reason ih =>
      intro start parsed h
      exact ih start parsed (run_required_matched h)
  | map item build ih =>
      intro start parsed h
      obtain ⟨inner, hi, -, hs⟩ := run_map_matched h
      rw [hs]
      exact ih start inner hi
  | named name item ih => exact ih
  | commit message => intro start parsed h; cases h
  | ref symbol => exact hcall symbol

end Runs

mutual

/-- Every match of the rule takes a token, given that every match of a symbol does. -/
def Eager : Rule ν β → Prop
  | tag _ | scalar _ | commit _ | ref _ => True
  | chars take? => ∀ run count, take? run = some count → 0 < (run.take count).length
  | sequence parts _ => SomeEager parts
  | oneOf alternatives => AllEager alternatives
  | many _ | maybe _ => False
  | required item _ | map item _ | named _ item => item.Eager

def SomeEager : List (Rule ν β) → Prop
  | [] => False
  | part :: rest => part.Eager ∨ SomeEager rest

def AllEager : List (Rule ν β) → Prop
  | [] => True
  | r :: rest => r.Eager ∧ AllEager rest

end

theorem allEager_iff (rules : List (Rule ν β)) : AllEager rules ↔ ∀ r ∈ rules, r.Eager := by
  induction rules with
  | nil => simp [AllEager]
  | cons r rest ih => simp [AllEager, ih]

theorem someEager_iff (parts : List (Rule ν β)) : SomeEager parts ↔ ∃ r ∈ parts, r.Eager := by
  induction parts with
  | nil => simp [SomeEager]
  | cons r rest ih => simp [SomeEager, ih]

section Runs

variable {tokens : Stream} {call : ν → Nat → Outcome (Parsed β)}

theorem runAll_advancing {size : Nat} {parts : List (Rule ν β)}
    (hw : ∀ part ∈ parts, Within size (run tokens call part))
    (ha : ∃ part ∈ parts, Advancing (run tokens call part)) {start stop : Nat}
    {pieces : List (Parsed β)} (h : runAll tokens call parts start = .matched (stop, pieces)) :
    start < stop := by
  induction parts generalizing start pieces with
  | nil => obtain ⟨part, hp, -⟩ := ha; cases hp
  | cons part rest ih =>
      obtain ⟨piece, more, hp, hr, -⟩ := runAll_cons_matched h
      have hrest := fun r hr => hw r (List.mem_cons_of_mem part hr)
      have hhead := hw part List.mem_cons_self start piece hp
      obtain ⟨r, hm, had⟩ := ha
      cases hm with
      | head =>
          have := had start piece hp
          have := runAll_within hrest hr
          omega
      | tail _ hm =>
          have := ih hrest ⟨r, hm, had⟩ hr
          omega

theorem run_advancing (hc : tokens.Coherent) (hcall : ∀ symbol, Within tokens.size (call symbol))
    (hadv : ∀ symbol, Advancing (call symbol)) (r : Rule ν β) (he : r.Eager) :
    Advancing (run tokens call r) := by
  induction r using Rule.induct with
  | tag t =>
      intro start parsed h
      obtain ⟨-, rfl⟩ := run_tag_matched h
      exact Nat.lt_succ_self start
  | scalar value? =>
      intro start parsed h
      obtain ⟨token, v, -, -, rfl⟩ := run_scalar_matched h
      exact Nat.lt_succ_self start
  | chars take? =>
      intro start parsed h
      obtain ⟨count, ht, rfl⟩ := run_chars_matched h
      have := he _ count ht
      simp only
      omega
  | sequence parts build ih =>
      intro start parsed h
      have hw := fun part (_ : part ∈ parts) => run_within hc hcall part
      obtain ⟨part, hm, hp⟩ := (someEager_iff parts).1 he
      have ha : ∃ part ∈ parts, Advancing (run tokens call part) := ⟨part, hm, ih part hm hp⟩
      cases build with
      | none =>
          obtain ⟨stop, pieces, hr, rfl⟩ := run_sequence_none_matched h
          exact runAll_advancing hw ha hr
      | some build =>
          obtain ⟨stop, pieces, hr, -, hs⟩ := run_sequence_matched h
          rw [hs]
          exact runAll_advancing hw ha hr
  | oneOf alternatives ih =>
      intro start parsed h
      obtain ⟨r, hr, hm⟩ := run_oneOf_matched h
      exact ih r hr ((allEager_iff alternatives).1 he r hr) start parsed hm
  | many item _ | maybe item _ => exact he.elim
  | required item reason ih =>
      intro start parsed h
      exact ih he start parsed (run_required_matched h)
  | map item build ih =>
      intro start parsed h
      obtain ⟨inner, hi, -, hs⟩ := run_map_matched h
      rw [hs]
      exact ih he start inner hi
  | named name item ih => exact ih he
  | commit message => intro start parsed h; cases h
  | ref symbol => exact hadv symbol

end Runs

/-- A text is matched where the string spells it, and is worth itself. -/
theorem run_text_matched {tokens : Stream} {call : ν → Nat → Outcome (Parsed β)} {s : String}
    {start : Nat} {parsed : Parsed β} (h : run tokens call (.text s) start = .matched parsed) :
    parsed = (⟨start, start + s.toList.length⟩, .text s) ∧
      ∃ rest, tokens.charsAt start = s.toList ++ rest := by
  obtain ⟨count, ht, rfl⟩ := run_chars_matched h
  simp only [takeText, Option.ite_none_right_eq_some, Option.some.injEq] at ht
  obtain ⟨hp, rfl⟩ := ht
  obtain ⟨rest, hrest⟩ := List.isPrefixOf_iff_prefix.1 hp
  refine ⟨?_, rest, hrest.symm⟩
  rw [← hrest, List.take_left, String.ofList_toList]

/-! Terminals that take a character with every match -/

theorem eager_of_prefix {s run : List Char} (hs : s ≠ []) (h : s.isPrefixOf run = true) :
    0 < (run.take s.length).length := by
  rw [← List.prefix_iff_eq_take.1 (List.isPrefixOf_iff_prefix.1 h)]
  exact List.length_pos_iff.2 hs

theorem eager_takeText {s : List Char} (hs : s ≠ []) :
    (chars (takeText s) : Rule ν β).Eager := by
  intro run count h
  simp only [takeText] at h
  split at h
  · next hp => cases h; exact eager_of_prefix hs hp
  · cases h

theorem eager_char (c : Char) : (char c : Rule ν β).Eager := eager_takeText (List.cons_ne_nil c [])

theorem eager_keyword {s : String} (hs : s.toList ≠ []) : (keyword s : Rule ν β).Eager := by
  intro run count h
  simp only [takeWord] at h
  split at h
  · next hp => cases h; exact eager_of_prefix hs (Bool.and_eq_true_iff.1 hp).1
  · cases h

theorem eager_pattern {width : List Char → Nat} (hw : width [] = 0) :
    (pattern width : Rule ν β).Eager := by
  intro run count h
  simp only [takeSome] at h
  split at h
  · cases h
  · next hn =>
      cases h
      cases run with
      | nil => exact absurd hw hn
      | cons c rest =>
          have := Nat.pos_of_ne_zero hn
          simp only [List.length_take, List.length_cons]
          omega

end Rule
end JsonTemplate
