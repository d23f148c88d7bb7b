import JsonTemplate.Proofs.Template.RoundTrip
import JsonTemplate.Proofs.Template.Shape

/-!
Keys that are loops, and the comparisons that filter them. A key is read for any path and
any name, with any number of calls before the loop; and the text of its filter is read as the
same comparison where it stands alone in a string.
-/

namespace JsonTemplate
namespace Loop

/-- So many calls of `flatten`. -/
def calls : Nat → String
  | 0 => ""
  | count + 1 => "flatten | " ++ calls count

def filterText : Option String → String
  | none => ""
  | some c => " if " ++ c

/-- The key of a loop over the values at a path. -/
def key (count : Nat) (source binding : String) (filter : Option String) : String :=
  "\x7b\x7b " ++ calls count ++ "each " ++ source ++ " as " ++ binding ++ filterText filter
    ++ " \x7d\x7d"

/-- A comparison that stands alone in a string. -/
def alone (c : String) : String := "\x7b\x7b " ++ c ++ " \x7d\x7d"

end Loop

namespace Rules

open Writing

/-- A text that is this comparison where an interpolation ends behind it, and that is no
other statement there. -/
structure IsComparison (c : String) (n : Node) : Prop where
  read : Reads (.ref .comparison) c.toList " \x7d\x7d".toList (IsNode n)
  free : firstWord c.toList ∉ statementWords

/-- The node that is read of the filter of a loop. -/
def Filters : Option String → Option Node → Prop
  | none, none => True
  | some c, some n => IsComparison c n
  | _, _ => False

variable {n : Node} {t rest : List Char} {c source binding : String}

/-- A comparison begins as expressions do. -/
theorem starts_of_comparison {P : Payload Fragment → Prop}
    (h : Reads (.ref .comparison) t rest P) (hr : Avoids isOpening rest) : Starts t := by
  have hno : ¬ Avoids isOpening (t ++ rest) := fun ha =>
    not_refuses_of_reads h (refuses_comparison (refuses_ref (refuses_oneOf (refuses_term ha))))
  cases t with
  | nil => exact absurd hr hno
  | cons c more =>
      cases hc : isOpening c with
      | true => exact ⟨c, more, rfl, hc⟩
      | false => exact absurd (avoids_cons hc _) hno

theorem comparison_of_reads (h : Reads (.ref .comparison) t rest (IsNode n)) :
    ∃ op left right, n = .comparison op left right (.empty 0) := by
  obtain ⟨tokens, hc, start, hchars⟩ := exists_charsAt (t ++ rest)
  obtain ⟨payload, hr, m, hm, rfl⟩ := h tokens hc start hchars
  obtain ⟨k, hk, -, hcompares⟩ := parse_shape hc (callLimit tokens) .comparison start _ hr
  cases hm.symm.trans hk
  cases m with
  | comparison op left right span => exact ⟨op, _, _, rfl⟩
  | _ => cases hcompares

theorem before_close : Before EndsValue " \x7d\x7d".toList :=
  before gap_blank (avoids_cons rfl _) (endsValue_cons rfl rfl rfl ['\x7d'])

theorem IsComparison.opens (h : IsComparison c n) : Opens c.toList :=
  ⟨starts_of_comparison h.read (avoids_cons rfl _), h.free⟩

theorem isComparison_of_writes (h : Writes .comparison n c.toList) : IsComparison c n :=
  ⟨(read_of_writes h).1 _ (before_close.imp fun _ => EndsValue.expression), (opens_writes h).2⟩

/-- A statement between single blanks, one of which it may take. -/
theorem reads_between_blanks {spread : Bool} {count : Nat} {s f taken left : List Char}
    (hs : Dots spread s) (hf : WritesCalls count f) (hstarts : Starts t)
    (hflatten : firstWord t ≠ "flatten") (hb : taken ++ left = [' '])
    (h : Reads statement (t ++ taken) (left ++ "\x7d\x7d".toList) (IsNode n)) :
    Reads interpolation ("\x7b\x7b ".toList ++ (s ++ (f ++ (t ++ " \x7d\x7d".toList)))) []
      (IsNode (.interpolation spread (List.replicate count .flatten) n (.empty 0))) := by
  have hgap : Gap (taken ++ left) := hb ▸ gap_blank
  have hstatement : Reads statement (t ++ taken) (left ++ ([] ++ "\x7d\x7d".toList ++ []))
      (IsNode n) := h
  have hread := reads_interpolation_around gap_blank hs hf hstarts hflatten hgap .none hstatement
  rwa [hb] at hread

/-- Alone, a comparison is the value of its string. -/
theorem reads_alone (h : IsComparison c n) :
    Reads interpolation (Loop.alone c).toList [] (IsNode (.interpolation false [] n (.empty 0))) := by
  have hstatement : Reads statement (c.toList ++ []) ([' '] ++ "\x7d\x7d".toList) (IsNode n) := by
    rw [List.append_nil]
    exact reads_statement_compared h.opens before_close h.read
  have hflatten : firstWord c.toList ≠ "flatten" := fun hw => h.free (by rw [hw]; decide)
  have hread := reads_between_blanks .no .none h.opens.1 hflatten (List.nil_append _) hstatement
  rwa [List.nil_append, List.nil_append, ← String.toList_append, ← String.toList_append,
    ← String.append_assoc] at hread

theorem writesCalls_calls (count : Nat) : WritesCalls count (Loop.calls count).toList := by
  induction count with
  | zero => exact .none
  | succ count ih =>
      rw [Loop.calls, String.toList_append]
      exact .more gap_blank gap_blank ih

/-- A loop without a filter takes the blank that a filter would stand behind. -/
theorem reads_key_statement {p : VariablePath} {filter : Option String} {found : Option Node}
    (hs : Denotes source.toList p) (hb : Denotes binding.toList ⟨[⟨binding, false⟩]⟩)
    (hf : Filters filter found) :
    ∃ taken left, taken ++ left = [' '] ∧
      Reads statement
        ("each".toList ++ ([' '] ++ (source.toList ++ ([' '] ++ ("as".toList ++ ([' '] ++
          (binding.toList ++ (Loop.filterText filter).toList)))))) ++ taken)
        (left ++ "\x7d\x7d".toList) (IsNode (.each p binding found (.empty 0))) := by
  have hname : Denotes binding.toList ⟨[⟨String.ofList binding.toList, false⟩]⟩ := by
    rwa [String.ofList_toList]
  cases filter with
  | none =>
      cases found with
      | some n => exact hf.elim
      | none =>
          have hno : Refuses onlyIf "\x7d\x7d".toList :=
            (declines_sequence (declines_keyword rfl (by decide))).refuses
          have havoids : Avoids isGap "\x7d\x7d".toList := avoids_cons rfl _
          have hloop := reads_statement_loop gap_blank hs gap_blank gap_blank hname
            (gap_blank.spaced _) (readsAll_no_filter gap_blank havoids hno)
          rw [String.ofList_toList] at hloop
          have hnone : (Loop.filterText none).toList = [] := rfl
          refine ⟨[' '], [], rfl, ?_⟩
          simpa only [hnone, List.append_nil, List.nil_append, List.append_assoc] using hloop
  | some c =>
      cases found with
      | none => exact hf.elim
      | some n =>
          have hguard : IsComparison c n := hf
          have hloop := reads_statement_loop gap_blank hs gap_blank gap_blank hname
            ((gap_blank.spaced _).append _)
            (readsAll_filter gap_blank gap_blank hguard.opens.begins hguard.read)
          rw [String.ofList_toList] at hloop
          have hsome : (Loop.filterText (some c)).toList
              = [' '] ++ ("if".toList ++ ([' '] ++ c.toList)) := by
            rw [Loop.filterText, String.toList_append]
            rfl
          refine ⟨[], [' '], rfl, ?_⟩
          rw [hsome, List.append_nil]
          exact hloop

theorem reads_key {p : VariablePath} {filter : Option String} {found : Option Node}
    (hs : Denotes source.toList p) (hb : Denotes binding.toList ⟨[⟨binding, false⟩]⟩)
    (hf : Filters filter found) (count : Nat) :
    Reads interpolation (Loop.key count source binding filter).toList []
      (IsNode (.interpolation false (List.replicate count .flatten)
        (.each p binding found (.empty 0)) (.empty 0))) := by
  obtain ⟨taken, left, hblank, hloop⟩ := reads_key_statement hs hb hf
  have hflatten : ∀ more, firstWord ("each".toList ++ ([' '] ++ more)) ≠ "flatten" := fun more => by
    rw [firstWord_append _ (gap_blank.spaced more)]
    decide
  have hread := reads_between_blanks .no (writesCalls_calls count) ⟨'e', _, rfl, rfl⟩ (hflatten _)
    hblank hloop
  have hkey : (Loop.key count source binding filter).toList
      = "\x7b\x7b ".toList ++ ((Loop.calls count).toList ++ ("each".toList ++ ([' '] ++
          (source.toList ++ ([' '] ++ ("as".toList ++ ([' '] ++
            (binding.toList ++ (Loop.filterText filter).toList)))))) ++ " \x7d\x7d".toList)) := by
    have heach : "each ".toList = "each".toList ++ [' '] := rfl
    have has : " as ".toList = [' '] ++ ("as".toList ++ [' ']) := rfl
    simp only [Loop.key, String.toList_append, heach, has, List.append_assoc]
  rwa [hkey]

theorem readText_alone (h : IsComparison c n) :
    ∃ m, readText (Loop.alone c) = .ok m ∧
      m.bare = .template [.interpolation false [] n (.empty 0)] (.empty 0) :=
  readText_of_interpolation (reads_alone h)

theorem readText_key {p : VariablePath} {filter : Option String} {found : Option Node}
    (hs : Denotes source.toList p) (hb : Denotes binding.toList ⟨[⟨binding, false⟩]⟩)
    (hf : Filters filter found) (count : Nat) :
    ∃ m, readText (Loop.key count source binding filter) = .ok m ∧
      m.bare = .template [.interpolation false (List.replicate count .flatten)
        (.each p binding found (.empty 0)) (.empty 0)] (.empty 0) :=
  readText_of_interpolation (reads_key hs hb hf count)

end Rules
end JsonTemplate
