import JsonTemplate.Evaluation.Variable

/-!
Where a path breaks. A step reads its name in the value that the names before it lead to, and
which steps are optional has no part in that value. A link is broken where that value is missing
or null and neither the step nor the one before it is optional. A path fails at its first broken
link and nowhere else, so that more optional steps can only put a failure off.
-/

namespace JsonTemplate
namespace VariablePath

def names (p : VariablePath) : List String := p.parts.map PathPart.name

/-- What so many of the names lead to, whether their steps are optional or not. -/
def reached (p : VariablePath) (s : Scope) (count : Nat) : Value :=
  match p.names.take count with
  | [] => none
  | root :: rest => rest.foldl (fun v name => v.bind (·.read? name)) (s.lookup root)

/-- Whether there is such a step and it is optional. -/
def isOptional (p : VariablePath) (i : Nat) : Bool := p.parts[i]?.any PathPart.optional

/-- The name of step `i` is read in a missing value, which neither the step nor the one before
it tolerates. The first name is read in no value. -/
structure BrokenAt (p : VariablePath) (s : Scope) (i : Nat) : Prop where
  pos : 0 < i
  lt_length : i < p.parts.length
  receiver : (p.reached s i).isNullish = true
  step : p.isOptional i = false
  before : p.isOptional (i - 1) = false

structure FirstBrokenAt (p : VariablePath) (s : Scope) (i : Nat) : Prop where
  broken : p.BrokenAt s i
  first : ∀ j < i, ¬ p.BrokenAt s j

/-- The failure at a link names all that was read, the name of the link last. -/
def failureAt (p : VariablePath) (span : Span) (i : Nat) : Failure :=
  .undefinedValue (p.names.take (i + 1)) span

/-- The path with these steps optional, besides those that are. -/
def relax (p : VariablePath) (marked : Nat → Bool) : VariablePath :=
  ⟨p.parts.mapIdx fun i part => { part with optional := part.optional || marked i }⟩

variable {p : VariablePath} {span : Span} {s : Scope} {i : Nat}

/-! What names lead to -/

theorem bind_read?_of_isNullish {v : Value} (h : v.isNullish = true) (name : String) :
    v.bind (·.read? name) = none := by
  cases v with
  | none => rfl
  | some v => cases v <;> first | rfl | cases h

theorem names_take_succ {part : PathPart} (h : p.parts[i]? = some part) :
    p.names.take (i + 1) = p.names.take i ++ [part.name] := by
  rw [List.take_add_one, names, List.getElem?_map, h]
  rfl

theorem reached_succ {part : PathPart} (hi : 0 < i) (h : p.parts[i]? = some part) :
    p.reached s (i + 1) = (p.reached s i).bind (·.read? part.name) := by
  rw [reached, reached, names_take_succ h]
  cases hnames : p.names.take i with
  | nil =>
      have hlt := (List.getElem?_eq_some_iff.1 h).1
      rw [names, List.take_eq_nil_iff, List.map_eq_nil_iff] at hnames
      obtain hzero | hempty := hnames
      · omega
      · rw [hempty] at hlt
        cases hlt
  | cons root rest => rw [List.cons_append]; exact List.foldl_append

/-- Behind a missing value all is missing. -/
theorem reached_eq_none {count : Nat} (h : (p.reached s i).isNullish = true) (hi : 0 < i)
    (hlt : i < count) (hc : count ≤ p.parts.length) : p.reached s count = none := by
  induction count with
  | zero => omega
  | succ count ih =>
      rw [reached_succ (by omega) (List.getElem?_eq_getElem hc)]
      by_cases hlast : i = count
      · exact bind_read?_of_isNullish (hlast ▸ h) _
      · rw [ih (by omega) (by omega)]
        rfl

/-! Links one after another -/

theorem isOptional_of_getElem? {part : PathPart} (h : p.parts[i]? = some part) :
    p.isOptional i = part.optional := by
  rw [isOptional, h]
  rfl

/-- The path is followed from step `i` on, where the names before it lead to. -/
def followFrom (p : VariablePath) (span : Span) (s : Scope) (i : Nat) : Except Failure Value :=
  follow span (p.names.take i) (p.isOptional (i - 1)) (p.parts.drop i) (p.reached s i)

theorem followFrom_length : p.followFrom span s p.parts.length
    = .ok (p.reached s p.parts.length) := by
  rw [followFrom, List.drop_length]
  rfl

variable (span s) in
/-- Either the link is broken, or it leads to where the next name is read. -/
theorem followFrom_step (hi : 0 < i) (hlt : i < p.parts.length) :
    p.BrokenAt s i ∧ p.followFrom span s i = .error (p.failureAt span i) ∨
      ¬ p.BrokenAt s i ∧ p.followFrom span s i = p.followFrom span s (i + 1) := by
  have hpart : p.parts[i]? = some p.parts[i] := List.getElem?_eq_getElem hlt
  have hstep : p.isOptional i = p.parts[i].optional := isOptional_of_getElem? hpart
  rw [followFrom, followFrom, Nat.add_sub_cancel, List.drop_eq_getElem_cons hlt, follow,
    ← names_take_succ hpart, ← hstep, reached_succ hi hpart]
  cases hnull : (p.reached s i).isNullish with
  | false =>
      have hsound : ¬ p.BrokenAt s i := fun hb => Bool.noConfusion (hnull.symm.trans hb.receiver)
      exact .inr ⟨hsound, rfl⟩
  | true =>
      rw [if_pos rfl, bind_read?_of_isNullish hnull]
      cases htolerated : p.isOptional i || p.isOptional (i - 1) with
      | false =>
          obtain ⟨ho, hb⟩ := Bool.or_eq_false_iff.1 htolerated
          exact .inl ⟨⟨hi, hlt, hnull, ho, hb⟩, rfl⟩
      | true =>
          refine .inr ⟨fun hb => ?_, rfl⟩
          rw [hb.step, hb.before] at htolerated
          cases htolerated

/-- What links from `i` on make of a path: the first that is broken is where it fails. -/
def Settles (p : VariablePath) (span : Span) (s : Scope) (i : Nat) (r : Except Failure Value) :
    Prop :=
  ((∀ j, i ≤ j → ¬ p.BrokenAt s j) ∧ r = .ok (p.reached s p.parts.length)) ∨
    ∃ j, i ≤ j ∧ p.BrokenAt s j ∧ (∀ k, i ≤ k → k < j → ¬ p.BrokenAt s k) ∧
      r = .error (p.failureAt span j)

theorem settles_of_succ {r : Except Failure Value} (hb : ¬ p.BrokenAt s i)
    (h : p.Settles span s (i + 1) r) : p.Settles span s i r := by
  have hlater : ∀ k, i ≤ k → k ≠ i → i + 1 ≤ k := fun k hk hne => by omega
  unfold Settles at h ⊢
  obtain ⟨hnone, hok⟩ | ⟨j, hj, hbroken, hfirst, herror⟩ := h
  · refine .inl ⟨fun k hk => ?_, hok⟩
    by_cases he : k = i
    · exact he ▸ hb
    · exact hnone k (hlater k hk he)
  · refine .inr ⟨j, by omega, hbroken, fun k hk hkj => ?_, herror⟩
    by_cases he : k = i
    · exact he ▸ hb
    · exact hfirst k (hlater k hk he) hkj

theorem settles_followFrom (hi : 0 < i) (hle : i ≤ p.parts.length) :
    p.Settles span s i (p.followFrom span s i) := by
  induction hn : p.parts.length - i generalizing i with
  | zero =>
      obtain rfl : i = p.parts.length := by omega
      refine .inl ⟨fun j hj hb => ?_, followFrom_length⟩
      have := hb.lt_length
      omega
  | succ n ih =>
      have hlt : i < p.parts.length := by omega
      obtain ⟨hb, herror⟩ | ⟨hb, hnext⟩ := followFrom_step span s hi hlt
      · exact .inr ⟨i, Nat.le_refl i, hb, fun k hk hki => by omega, herror⟩
      · rw [hnext]
        exact settles_of_succ hb (ih (Nat.succ_pos i) hlt (by omega))

/-- A path comes to what all its names lead to, or it fails at its first broken link. -/
theorem resolve_cases (p : VariablePath) (span : Span) (s : Scope) :
    ((∀ i, ¬ p.BrokenAt s i) ∧ p.resolve span s = .ok (p.reached s p.parts.length)) ∨
      ∃ i, p.FirstBrokenAt s i ∧ p.resolve span s = .error (p.failureAt span i) := by
  obtain ⟨parts⟩ := p
  cases parts with
  | nil =>
      have hnone : ∀ i, ¬ BrokenAt ⟨[]⟩ s i := fun i hb => Nat.not_lt_zero i hb.lt_length
      exact .inl ⟨hnone, rfl⟩
  | cons root rest =>
      have hzero : ¬ BrokenAt ⟨root :: rest⟩ s 0 := fun hb => Nat.lt_irrefl 0 hb.pos
      have hsettles : Settles ⟨root :: rest⟩ span s 1 (resolve ⟨root :: rest⟩ span s) :=
        settles_followFrom (Nat.succ_pos 0) (Nat.succ_pos _)
      have hall : Settles ⟨root :: rest⟩ span s 0 (resolve ⟨root :: rest⟩ span s) :=
        settles_of_succ hzero hsettles
      unfold Settles at hall
      obtain ⟨hnone, hok⟩ | ⟨i, -, hb, hfirst, herror⟩ := hall
      · exact .inl ⟨fun i => hnone i (Nat.zero_le i), hok⟩
      · exact .inr ⟨i, ⟨hb, fun j => hfirst j (Nat.zero_le j)⟩, herror⟩

/-! More optional steps -/

theorem names_relax (p : VariablePath) (marked : Nat → Bool) :
    (p.relax marked).names = p.names := by
  apply List.ext_getElem?
  intro i
  rw [names, names, relax, List.getElem?_map, List.getElem?_map, List.getElem?_mapIdx]
  cases p.parts[i]? <;> rfl

theorem reached_relax (marked : Nat → Bool) (count : Nat) :
    (p.relax marked).reached s count = p.reached s count := by
  rw [reached, reached, names_relax]

theorem length_relax (marked : Nat → Bool) : (p.relax marked).parts.length = p.parts.length :=
  List.length_mapIdx

theorem isOptional_relax (marked : Nat → Bool) (hi : i < p.parts.length) :
    (p.relax marked).isOptional i = (p.isOptional i || marked i) := by
  have hpart := List.getElem?_eq_getElem hi
  rw [isOptional_of_getElem? hpart, isOptional, relax, List.getElem?_mapIdx, hpart]
  rfl

/-- No link breaks because a step is made optional. -/
theorem brokenAt_of_relax {marked : Nat → Bool} (h : (p.relax marked).BrokenAt s i) :
    p.BrokenAt s i ∧ marked i = false := by
  obtain ⟨hpos, hlt, hnull, hstep, hbefore⟩ := h
  rw [length_relax] at hlt
  rw [reached_relax] at hnull
  rw [isOptional_relax marked (by omega), Bool.or_eq_false_iff] at hstep hbefore
  exact ⟨⟨hpos, hlt, hnull, hstep.1, hbefore.1⟩, hstep.2⟩

/-- Where no link is broken, none is with more optional steps, and the names lead to the same. -/
theorem resolve_relax_of_ok (marked : Nat → Bool) {v : Value} (h : p.resolve span s = .ok v) :
    (p.relax marked).resolve span s = .ok v := by
  obtain ⟨hnone, hok⟩ | ⟨i, -, herror⟩ := resolve_cases p span s
  · obtain ⟨-, hrelaxed⟩ | ⟨j, hj, -⟩ := resolve_cases (p.relax marked) span s
    · rw [hrelaxed, reached_relax, length_relax, ← hok, h]
    · exact absurd (brokenAt_of_relax hj.broken).1 (hnone j)
  · cases h.symm.trans herror

/-- A path that fails at a link fails there or later with more optional steps, or it comes to
nothing, since the names lead to nothing from that link on. -/
theorem resolve_relax_of_firstBrokenAt (marked : Nat → Bool) (h : p.FirstBrokenAt s i) :
    (p.relax marked).resolve span s = .ok none ∨
      ∃ j, i ≤ j ∧ (p.relax marked).FirstBrokenAt s j ∧
        (p.relax marked).resolve span s = .error (p.failureAt span j) := by
  obtain ⟨hpos, hlt, hnull, -, -⟩ := h.broken
  obtain ⟨-, hok⟩ | ⟨j, hj, herror⟩ := resolve_cases (p.relax marked) span s
  · rw [reached_relax, length_relax, reached_eq_none hnull hpos hlt (Nat.le_refl _)] at hok
    exact .inl hok
  · have hbroken : p.BrokenAt s j := (brokenAt_of_relax hj.broken).1
    have hlater : i ≤ j := Nat.le_of_not_lt fun hji => h.first j hji hbroken
    rw [failureAt, names_relax] at herror
    exact .inr ⟨j, hlater, hj, herror⟩

/-- A path comes to what its names lead to, or it fails at the first broken link and says what
it read up to there. With more optional steps a path that resolves comes to the same, and one
that fails comes to nothing or fails no earlier. If all steps are optional it does not fail. -/
theorem resolve_breaks_first (p : VariablePath) (span : Span) (s : Scope) :
    (((∀ i, ¬ p.BrokenAt s i) ∧ p.resolve span s = .ok (p.reached s p.parts.length)) ∨
      ∃ i, p.FirstBrokenAt s i ∧
        p.resolve span s = .error (.undefinedValue (p.names.take (i + 1)) span)) ∧
    (∀ marked v, p.resolve span s = .ok v → (p.relax marked).resolve span s = .ok v) ∧
    (∀ marked i, p.FirstBrokenAt s i →
      (p.relax marked).resolve span s = .ok none ∨
        ∃ j, i ≤ j ∧ (p.relax marked).FirstBrokenAt s j ∧
          (p.relax marked).resolve span s
            = .error (.undefinedValue (p.names.take (j + 1)) span)) ∧
    ((∀ part ∈ p.parts, part.optional = true) → ∃ v, p.resolve span s = .ok v) := by
  refine ⟨resolve_cases p span s, fun marked v => resolve_relax_of_ok marked,
    fun marked i => resolve_relax_of_firstBrokenAt marked, fun hall => ?_⟩
  obtain ⟨-, hok⟩ | ⟨i, hi, -⟩ := resolve_cases p span s
  · exact ⟨_, hok⟩
  · have hlt : i < p.parts.length := hi.broken.lt_length
    have hstep : p.isOptional i = p.parts[i].optional :=
      isOptional_of_getElem? (List.getElem?_eq_getElem hlt)
    rw [hi.broken.step, hall _ (List.getElem_mem hlt)] at hstep
    cases hstep

/-- Without its third and fourth name the path comes to nothing. With them it fails at the
third, and with the second optional at the fourth. -/
theorem resolve_breaks_first_missing :
    ∃ (s : Scope) (short long lenient : VariablePath),
      s = .ofParameters [("a", .obj [])] ∧
      short = ⟨[⟨"a", false⟩, ⟨"b", false⟩]⟩ ∧
      long = ⟨[⟨"a", false⟩, ⟨"b", false⟩, ⟨"c", false⟩, ⟨"d", false⟩]⟩ ∧
      lenient = ⟨[⟨"a", true⟩, ⟨"b", true⟩, ⟨"c", true⟩]⟩ ∧
      short.resolve (.empty 0) s = .ok none ∧
      (short.relax fun i => i == 1).resolve (.empty 0) s = .ok none ∧
      long.FirstBrokenAt s 2 ∧
      (long.relax fun i => i == 1).FirstBrokenAt s 3 ∧
      (long.relax fun i => i == 1).resolve (.empty 0) s
        = .error (.undefinedValue ["a", "b", "c", "d"] (.empty 0)) ∧
      (∀ part ∈ lenient.parts, part.optional = true) ∧
      ∃ v, lenient.resolve (.empty 0) s = .ok v := by
  let s : Scope := .ofParameters [("a", .obj [])]
  let short : VariablePath := ⟨[⟨"a", false⟩, ⟨"b", false⟩]⟩
  let long : VariablePath := ⟨[⟨"a", false⟩, ⟨"b", false⟩, ⟨"c", false⟩, ⟨"d", false⟩]⟩
  let lenient : VariablePath := ⟨[⟨"a", true⟩, ⟨"b", true⟩, ⟨"c", true⟩]⟩
  obtain ⟨-, hresolved, -, -⟩ := resolve_breaks_first short (.empty 0) s
  obtain ⟨-, -, hbroken, -⟩ := resolve_breaks_first long (.empty 0) s
  obtain ⟨-, -, -, htolerant⟩ := resolve_breaks_first lenient (.empty 0) s
  have hoptional : ∀ part ∈ lenient.parts, part.optional = true := by decide
  have hlong : long.FirstBrokenAt s 2 := by
    refine ⟨⟨by decide, by decide, rfl, rfl, rfl⟩, fun j hj hb => ?_⟩
    obtain rfl : j = 1 := by have := hb.pos; omega
    cases hb.receiver
  obtain hok | ⟨j, hj, hfirst, herror⟩ := hbroken (fun i => i == 1) 2 hlong
  · cases hok
  · obtain ⟨hpos, hlt, hnull, hstep, hbefore⟩ := hfirst.broken
    have hj3 : j = 2 ∨ j = 3 := by
      have : j < 4 := hlt
      omega
    obtain rfl | rfl := hj3
    · cases hbefore
    · exact ⟨s, short, long, lenient, rfl, rfl, rfl, rfl, rfl, hresolved _ _ rfl, hlong, hfirst,
        herror, hoptional, htolerant hoptional⟩

end VariablePath
end JsonTemplate
