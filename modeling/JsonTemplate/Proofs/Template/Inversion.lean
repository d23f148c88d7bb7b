import JsonTemplate.Proofs.Expression.Spellings
import JsonTemplate.Proofs.Expression.Statements
import JsonTemplate.Proofs.Template.RoundTrip
import JsonTemplate.Proofs.Template.Shape
import Mathlib.Data.List.DropRight

/-!
From the template of a string back to its text. Where the template is one interpolation, the
rule for interpolations takes the whole string; and where that has neither dots nor calls, and
no comment ends it, it is a statement between blanks. A string whose first brackets open no
interpolation has no template.
-/

namespace JsonTemplate
namespace Rules

open Writing

variable {s : String} {n m : Node} {a b t text rest : List Char}

/-! What a string is read from -/

/-- The parts of a string stand one behind the other from its first to its last character. -/
theorem consecutive_of_readText (h : readText s = .ok n) :
    ∃ items nodes place, Rule.Consecutive (Rule.run (Stream.ofJson (.str s))
        (run (Stream.ofJson (.str s))) (.oneOf [interpolation, plainText])) 1 items
        (1 + s.toList.length) ∧
      items.mapM node? = some nodes ∧ n = .template nodes place := by
  have hs := Stream.spells_str s
  have hc := Stream.coherent_ofJson (.str s)
  have hr := run_template_alone s
  rw [h, run_template hc hs] at hr
  obtain ⟨parts, hparts, hclose⟩ := Outcome.bind_eq_matched.1 hr
  rw [closeString] at hclose
  split at hclose
  · next hstop =>
      obtain ⟨hb, -⟩ := Outcome.ofBuild_eq_matched.1 hclose
      obtain ⟨stop, items, hitems, rfl⟩ := Rule.run_many_matched (Rule.run_required_matched hparts)
      obtain ⟨k, hk, hpayload⟩ := shaped_eq_ok hb
      obtain ⟨nodes, hnodes, rfl⟩ := Option.map_eq_some_iff.1 hk
      cases hpayload
      simp only at hstop
      obtain rfl : stop = 1 + s.toList.length := by omega
      exact ⟨items, nodes, _, hitems, hnodes, rfl⟩
  · cases hclose

/-- A string whose template is an interpolation alone is read as that. -/
theorem reads_interpolation_of_readText {spread : Bool} {modifiers : List Modifier} {value : Node}
    (h : readText s = .ok n)
    (hn : n.bare = .template [.interpolation spread modifiers value (.empty 0)] (.empty 0)) :
    Reads interpolation s.toList []
      (IsNode (.interpolation spread modifiers value (.empty 0))) := by
  have hs := Stream.spells_str s
  have hc := Stream.coherent_ofJson (.str s)
  obtain ⟨items, nodes, place, hitems, hnodes, rfl⟩ := consecutive_of_readText h
  simp only [Node.bare, Node.relocate, Node.relocateAll_eq_map, Node.template.injEq] at hn
  obtain ⟨x, rfl, hx⟩ := List.map_eq_singleton_iff.1 hn.1
  cases items with
  | nil => cases hnodes
  | cons piece more =>
      rw [List.mapM_cons] at hnodes
      obtain ⟨y, hy, hnodes⟩ := Option.bind_eq_some_iff.1 hnodes
      obtain ⟨ys, hys, hnodes⟩ := Option.bind_eq_some_iff.1 hnodes
      cases hnodes
      obtain rfl := eq_nil_of_mapM hys
      obtain ⟨hrun, -, hstop, -⟩ := hitems
      have hpayload := payload_of_node? hy
      obtain ⟨r, hr, hrun⟩ := Rule.run_oneOf_matched hrun
      simp only [List.mem_cons, List.not_mem_nil, or_false] at hr
      obtain rfl | rfl := hr
      · obtain ⟨text, rest, hchars, hspan, hread⟩ := reads_of_run literary_interpolation hc hrun
        rw [hs.charsAt] at hchars
        have hlength := congrArg List.length hchars
        rw [hspan] at hstop
        simp only [List.length_append] at hlength hstop
        obtain rfl : rest = [] := List.length_eq_zero_iff.1 (by omega)
        rw [hpayload] at hread
        rw [hchars, List.append_nil, ← hx]
        exact hread.imp fun _ => Alike.isNode
      · obtain ⟨⟨k, hk, -, htext⟩, -⟩ := run_plainText_matched hc hrun
        cases hpayload.symm.trans hk
        cases x with
        | text => cases hx
        | _ => cases htext

/-! What an interpolation is read from -/

/-- Blanks are taken as far as they go. -/
theorem reads_space_elim {P : Payload Fragment → Prop} (h : Reads space a rest P) :
    (∀ c ∈ a, isGap c = true) ∧ Avoids isGap rest := by
  have hgap : ∀ c ∈ (a ++ rest).takeWhile isGap, isGap c = true := fun c => List.mem_takeWhile_imp
  have havoids : Avoids isGap ((a ++ rest).dropWhile isGap) := by
    intro c hc
    have hnot := List.head?_dropWhile_not isGap (a ++ rest)
    rwa [Option.mem_def.1 hc] at hnot
  obtain ⟨ha, hrest, -⟩ := h.unique (reads_blanks hgap havoids) List.takeWhile_append_dropWhile.symm
  rw [← ha] at hgap
  rw [← hrest] at havoids
  exact ⟨hgap, havoids⟩

theorem rdropWhile_append_gap (text : List Char) (hb : ∀ c ∈ b, isGap c = true) :
    (text ++ b).rdropWhile isGap = text.rdropWhile isGap := by
  have hreverse : ∀ c ∈ b.reverse, isGap c = true := fun c hc => hb c (List.mem_reverse.1 hc)
  rw [List.rdropWhile, List.rdropWhile, List.reverse_append, List.dropWhile_append_of_pos hreverse]

theorem avoids_of_append {p : Char → Bool} (h : Avoids p (text ++ rest)) : Avoids p text := by
  cases text with
  | nil => nofun
  | cons c text => exact h

theorem comment_behind_blank (h : "*/".toList <:+ (' ' :: text).rdropWhile isGap) :
    "*/".toList <:+ text.rdropWhile isGap := by
  rw [List.rdropWhile, List.reverse_cons, List.dropWhile_append] at h
  split at h
  · cases List.suffix_nil.1 h
  · rw [List.reverse_append] at h
    obtain he | hsuffix := List.suffix_cons_iff.1 h
    · cases he
    · exact hsuffix

/-- The mark of a comment is no blank. -/
theorem rdropWhile_comment (h : "*/".toList <:+ text) : text.rdropWhile isGap = text := by
  obtain ⟨more, rfl⟩ := h
  have hmark : "*/".toList = ['*'] ++ ['/'] := rfl
  rw [hmark, ← List.append_assoc]
  exact List.rdropWhile_concat_neg _ _ _ (by decide)

/-- The builder of interpolations, with neither dots nor calls. -/
theorem buildInterpolation_plain {span : Span} {p₁ p₂ spread p₃ calls p₄ value p₅ p₆ p₇ p₈ : Piece}
    {built : Payload Fragment}
    (h : buildInterpolation span [p₁, p₂, spread, p₃, calls, p₄, value, p₅, p₆, p₇, p₈]
      = .ok (some built))
    (hn : IsNode (.interpolation false [] n (.empty 0)) built) :
    spread.2 = .optional none ∧ calls.2 = .repeated [] ∧ IsNode n value.2 := by
  simp only [buildInterpolation] at h
  obtain ⟨k, hk, rfl⟩ := shaped_eq_ok h
  obtain ⟨item, hitem, hk⟩ := Option.bind_eq_some_iff.1 hk
  obtain ⟨modifiers, hmodifiers, hk⟩ := Option.bind_eq_some_iff.1 hk
  obtain ⟨v, hv, hk⟩ := Option.bind_eq_some_iff.1 hk
  cases hk
  obtain ⟨items, hitems, hmodifiers⟩ := Option.bind_eq_some_iff.1 hmodifiers
  obtain ⟨_, hk, hbare⟩ := hn
  cases hk
  simp only [Node.bare, Node.relocate, Node.interpolation.injEq] at hbare
  obtain ⟨hspread, rfl, hvalue, -⟩ := hbare
  obtain rfl : item = none := Option.isSome_eq_false_iff.1 hspread |> Option.isNone_iff_eq_none.1
  obtain rfl := eq_nil_of_mapM hmodifiers
  exact ⟨payload_of_optional? hitem, payload_of_items? hitems, v, payload_of_node? hv, hvalue⟩

theorem dots_of_nothing
    (h : Reads (.maybe (around (.text "..."))) t rest (Alike (.optional none))) : t = [] := by
  obtain ⟨q, hq, ⟨hnil, -⟩ | ⟨inner, hinner, -⟩⟩ :=
    h.takes fun _ hc => Rule.takes_maybe (takes_any hc (literary_around trivial))
  · exact hnil
  · rw [hq.eq_nothing] at hinner
    cases hinner

theorem calls_of_none (h : Reads (.many flatten) t rest (Alike (.repeated []))) : t = [] := by
  obtain ⟨q, hq, -, hnil⟩ := h.takes fun _ hc =>
    Rule.takes_many (L := fun _ => True) trivial (fun _ _ => trivial) hc
      (takes_any hc literary_flatten)
  exact hnil hq.eq_no_items

theorem takes_comment {tokens : Stream} {call : Symbol → Nat → Outcome Piece} :
    Rule.Takes tokens call comment fun t _ => "*/".toList <:+ t :=
  Rule.takes_map (Rule.takes_pattern (P := fun t _ => "*/".toList <:+ t) fun _ => comment_ends)
    fun _ _ _ _ h _ => h

/-- An interpolation without dots, calls and comment is a statement between blanks. -/
theorem reads_statement_of_interpolation
    (h : Reads interpolation ("\x7b\x7b".toList ++ (text ++ "\x7d\x7d".toList)) []
      (IsNode (.interpolation false [] n (.empty 0))))
    (hno : ¬ "*/".toList <:+ text.rdropWhile isGap) :
    ∃ a w b, text = a ++ (w ++ b) ∧ (∀ c ∈ a, isGap c = true) ∧ Avoids isGap (w ++ b) ∧
      (∀ c ∈ b, isGap c = true) ∧ Reads statement w (b ++ "\x7d\x7d".toList) (IsNode n) := by
  obtain ⟨span, pieces, built, hbuild, hbuilt, heach⟩ :=
    h.each ((Rule.allTextual_iff _ _ _).1 literary_interpolation.1)
  generalize hwhole : "\x7b\x7b".toList ++ (text ++ "\x7d\x7d".toList) = whole at heach
  simp only [ReadsEach] at heach
  obtain ⟨opening, _, _, _, rfl, rfl, hopening, heach⟩ := heach
  obtain ⟨a₁, _, _, _, rfl, rfl, ha₁, heach⟩ := heach
  obtain ⟨dots, _, spread, _, rfl, rfl, hdots, heach⟩ := heach
  obtain ⟨a₂, _, _, _, rfl, rfl, ha₂, heach⟩ := heach
  obtain ⟨calls, _, modifiers, _, rfl, rfl, hcalls, heach⟩ := heach
  obtain ⟨a₃, _, _, _, rfl, rfl, ha₃, heach⟩ := heach
  obtain ⟨w, _, value, _, rfl, rfl, hw, heach⟩ := heach
  obtain ⟨b₁, _, _, _, rfl, rfl, hb₁, heach⟩ := heach
  obtain ⟨c, _, _, _, rfl, rfl, hc, heach⟩ := heach
  obtain ⟨b₂, _, _, _, rfl, rfl, hb₂, heach⟩ := heach
  obtain ⟨closing, _, _, _, rfl, rfl, hclosing, rfl, rfl⟩ := heach
  obtain ⟨hspread, hmodifiers, hvalue⟩ := buildInterpolation_plain hbuild hbuilt
  rw [hspread] at hdots
  rw [hmodifiers] at hcalls
  obtain ⟨-, -, rfl, -⟩ := hopening.takes fun _ _ => Rule.takes_text _
  obtain ⟨-, -, rfl, -⟩ := hclosing.takes fun _ _ => Rule.takes_text _
  obtain rfl := dots_of_nothing hdots
  obtain rfl := calls_of_none hcalls
  obtain ⟨hgap₁, -⟩ := reads_space_elim ha₁
  obtain ⟨hgap₂, -⟩ := reads_space_elim ha₂
  obtain ⟨hgap₃, havoids⟩ := reads_space_elim ha₃
  obtain ⟨hblank₁, -⟩ := reads_space_elim hb₁
  obtain ⟨hblank₂, -⟩ := reads_space_elim hb₂
  have htext : text = (a₁ ++ (a₂ ++ a₃)) ++ (w ++ (b₁ ++ (c ++ b₂))) := by
    apply (List.append_left_inj "\x7d\x7d".toList).1
    apply (List.append_right_inj "\x7b\x7b".toList).1
    simpa only [List.append_assoc, List.nil_append, List.append_nil] using hwhole
  obtain rfl : c = [] := by
    obtain ⟨-, -, ⟨hnil, -⟩ | ⟨-, -, hcomment⟩⟩ :=
      hc.takes fun _ _ => Rule.takes_maybe takes_comment
    · exact hnil
    · refine absurd ?_ hno
      have hends : "*/".toList <:+ a₁ ++ (a₂ ++ a₃) ++ (w ++ (b₁ ++ c)) :=
        hcomment.trans (by simp only [← List.append_assoc, List.suffix_append])
      have hassoc : a₁ ++ (a₂ ++ a₃) ++ (w ++ (b₁ ++ (c ++ b₂)))
          = a₁ ++ (a₂ ++ a₃) ++ (w ++ (b₁ ++ c)) ++ b₂ := by simp only [List.append_assoc]
      rw [htext, hassoc, rdropWhile_append_gap _ hblank₂, rdropWhile_comment hends]
      exact hends
  refine ⟨a₁ ++ (a₂ ++ a₃), w, b₁ ++ b₂, htext, ?_, ?_, ?_, ?_⟩
  · exact List.forall_mem_append.2 ⟨hgap₁, List.forall_mem_append.2 ⟨hgap₂, hgap₃⟩⟩
  · have hall : Avoids isGap (w ++ (b₁ ++ b₂) ++ "\x7d\x7d".toList) := by
      simpa only [List.append_assoc, List.nil_append, List.append_nil] using havoids
    exact avoids_of_append hall
  · exact List.forall_mem_append.2 ⟨hblank₁, hblank₂⟩
  · obtain ⟨m, hm, rfl⟩ := hvalue
    rw [hm] at hw
    have hread := (reads_of_must hw).imp fun _ => Alike.isNode
    simpa only [List.append_assoc, List.nil_append, List.append_nil] using hread

/-! Strings that are refused -/

/-- Where no statement is read, the brackets open no interpolation. -/
theorem refuses_interpolation (h : Refuses statement text) (hg : Avoids isGap text)
    (hd : Avoids (· == '.') text) (hw : firstWord text ≠ "flatten") :
    Refuses interpolation ("\x7b\x7b".toList ++ ([' '] ++ text)) := by
  have hblank := reads_no_space hg
  exact refuses_sequence (refusesAll_tail (reads_text "\x7b\x7b" _)
    (refusesAll_tail (reads_space gap_blank hg) (refusesAll_tail_nil (reads_spread .no hg hd)
      (refusesAll_tail_nil hblank (refusesAll_tail_nil (reads_calls .none hg hw)
        (refusesAll_tail_nil hblank (refusesAll_head (refuses_must h _))))))))

/-- A string that begins with brackets which open no interpolation has no template. -/
theorem readText_ne_ok (hs : s.toList = "\x7b\x7b".toList ++ text)
    (h : Refuses interpolation ("\x7b\x7b".toList ++ text)) : readText s ≠ .ok n := by
  intro hok
  obtain ⟨items, nodes, place, hitems, -, -⟩ := consecutive_of_readText hok
  have hc := Stream.coherent_ofJson (.str s)
  have hchars : (Stream.ofJson (.str s)).charsAt 1 = "\x7b\x7b".toList ++ text :=
    (Stream.spells_str s).charsAt.trans hs
  have hplain : Refuses plainText ("\x7b\x7b".toList ++ text) :=
    (declines_map (declines_chars rfl)).refuses
  cases items with
  | nil =>
      obtain ⟨hlength, -⟩ := hitems
      rw [hs, List.length_append] at hlength
      have hpos : "\x7b\x7b".toList.length = 2 := rfl
      omega
  | cons piece more =>
      obtain ⟨hrun, -⟩ := hitems
      obtain hno | ⟨x, hx⟩ := refuses_oneOf (List.forall_mem_cons.2 ⟨h,
        List.forall_mem_singleton.2 hplain⟩) _ hc 1 hchars
      · rw [hno] at hrun
        cases hrun
      · rw [hx] at hrun
        cases hrun

end Rules
end JsonTemplate
