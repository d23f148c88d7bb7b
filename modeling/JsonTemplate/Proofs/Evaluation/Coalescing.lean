import JsonTemplate.Proofs.Evaluation.Tolerance

/-!
Coalescing. An operand is soft if it comes to null or to nothing, or if it reads a key on an
undefined value; every other value stands, and so does every other failure. However the operands
are bracketed, the first that is not soft is what the coalescing comes to, and the last one if
there is no other. What stands behind that operand is not looked at.
-/

namespace JsonTemplate
namespace Evaluation

/-- What a node is worth as an operand. What it tells besides is dropped. -/
def settled (undefinedAsNull : Bool) (s : Scope) (n : Node) : Except Failure Evaluated :=
  (evaluate undefinedAsNull n .value s).map fun r => .plain r.value

/-- A value that is null or undefined, or a key read on an undefined value. -/
def IsSoft (undefinedAsNull : Bool) (s : Scope) (n : Node) : Prop :=
  (∃ r, evaluate undefinedAsNull n .value s = .ok r ∧ (r.value = none ∨ r.value = some .null)) ∨
    ∃ x, evaluate undefinedAsNull n .value s = .error x ∧ x.isUndefinedValue = true

/-- A node that coalesces these operands, however they are bracketed. -/
inductive Coalesces : List Node → Node → Prop
  | operand (n : Node) : Coalesces [n] n
  | nullish {operands more : List Node} {left right : Node} (hl : Coalesces operands left)
      (hr : Coalesces more right) (span : Span) :
      Coalesces (operands ++ more) (.nullish left right span)
  | group {operands : List Node} {n : Node} (h : Coalesces operands n) (span : Span) :
      Coalesces operands (.group n span)

/-- The operand that a coalescing comes to, and the operands before it and behind it. -/
structure Decides (undefinedAsNull : Bool) (s : Scope) (operands before : List Node) (a : Node)
    (after : List Node) : Prop where
  operands_eq : operands = before ++ a :: after
  soft : ∀ b ∈ before, IsSoft undefinedAsNull s b
  stands : after = [] ∨ ¬ IsSoft undefinedAsNull s a

variable {undefinedAsNull : Bool} {s : Scope} {a b c n left right : Node} {operands : List Node}

theorem isNullish_iff {v : Value} : v.isNullish = true ↔ v = none ∨ v = some .null := by
  cases v with
  | none => exact ⟨fun _ => .inl rfl, fun _ => rfl⟩
  | some v => cases v <;> simp [Value.isNullish]

/-- Whether a node is soft shows in what it is worth. -/
theorem isSoft_iff_settled :
    IsSoft undefinedAsNull s n ↔
      (∃ v, settled undefinedAsNull s n = .ok (.plain v) ∧ (v = none ∨ v = some .null)) ∨
        ∃ x, settled undefinedAsNull s n = .error x ∧ x.isUndefinedValue = true := by
  unfold IsSoft settled
  cases evaluate undefinedAsNull n .value s with
  | ok r => simp [Except.map, Evaluated.plain]
  | error x => simp [Except.map]

theorem isSoft_congr (h : settled undefinedAsNull s a = settled undefinedAsNull s b) :
    IsSoft undefinedAsNull s a ↔ IsSoft undefinedAsNull s b := by
  rw [isSoft_iff_settled, isSoft_iff_settled, h]

/-! Two operands -/

theorem evaluate_nullish_of_soft (h : IsSoft undefinedAsNull s left) (right : Node) (span : Span)
    (role : Role) :
    evaluate undefinedAsNull (.nullish left right span) role s
      = settled undefinedAsNull s right := by
  have hright : (do return .plain (← evaluate undefinedAsNull right .value s).value)
      = settled undefinedAsNull s right := by
    unfold settled
    cases evaluate undefinedAsNull right .value s <;> rfl
  rw [evaluate_nullish, hright]
  obtain ⟨r, hr, hmissing⟩ | ⟨x, hx, hundefined⟩ := h
  · rw [hr, coalesce, if_pos (isNullish_iff.2 hmissing)]
  · rw [hx, coalesce, if_pos hundefined]

theorem evaluate_nullish_of_not_soft (h : ¬ IsSoft undefinedAsNull s left) (right : Node)
    (span : Span) (role : Role) :
    evaluate undefinedAsNull (.nullish left right span) role s
      = settled undefinedAsNull s left := by
  rw [evaluate_nullish, settled]
  cases hl : evaluate undefinedAsNull left .value s with
  | ok r =>
      have hpresent : ¬ r.value.isNullish = true := fun hmissing =>
        h (.inl ⟨r, hl, isNullish_iff.1 hmissing⟩)
      rw [coalesce, if_neg hpresent]
      rfl
  | error x =>
      have hother : ¬ x.isUndefinedValue = true := fun hundefined => h (.inr ⟨x, hl, hundefined⟩)
      rw [coalesce, if_neg hother]
      rfl

/-- A result that tells nothing besides its value is what the node is worth. -/
theorem settled_of_evaluate (h : evaluate undefinedAsNull n .value s = settled undefinedAsNull s a) :
    settled undefinedAsNull s n = settled undefinedAsNull s a := by
  rw [settled, h, settled]
  cases evaluate undefinedAsNull a .value s <;> rfl

theorem settled_nullish_of_soft (h : IsSoft undefinedAsNull s left) (right : Node) (span : Span) :
    settled undefinedAsNull s (.nullish left right span) = settled undefinedAsNull s right :=
  settled_of_evaluate (evaluate_nullish_of_soft h right span .value)

theorem settled_nullish_of_not_soft (h : ¬ IsSoft undefinedAsNull s left) (right : Node)
    (span : Span) :
    settled undefinedAsNull s (.nullish left right span) = settled undefinedAsNull s left :=
  settled_of_evaluate (evaluate_nullish_of_not_soft h right span .value)

theorem evaluate_group (n : Node) (span : Span) (role : Role) :
    evaluate undefinedAsNull (.group n span) role s = settled undefinedAsNull s n := by
  rw [evaluate, settled]
  cases evaluate undefinedAsNull n .value s <;> rfl

theorem isSoft_nullish_iff (left right : Node) (span : Span) :
    IsSoft undefinedAsNull s (.nullish left right span)
      ↔ IsSoft undefinedAsNull s left ∧ IsSoft undefinedAsNull s right := by
  by_cases h : IsSoft undefinedAsNull s left
  · rw [isSoft_congr (settled_nullish_of_soft h right span)]
    exact ⟨fun hr => ⟨h, hr⟩, And.right⟩
  · rw [isSoft_congr (settled_nullish_of_not_soft h right span)]
    exact ⟨fun hl => absurd hl h, fun hboth => absurd hboth.1 h⟩

/-- Both bracketings of three operands look at the first, then at the second, then at the
third. -/
theorem evaluate_nullish_assoc (a b c : Node) (inner outer inner' outer' : Span) (role : Role) :
    evaluate undefinedAsNull (.nullish (.nullish a b inner) c outer) role s
      = evaluate undefinedAsNull (.nullish a (.nullish b c inner') outer') role s := by
  by_cases ha : IsSoft undefinedAsNull s a
  · rw [evaluate_nullish_of_soft ha]
    by_cases hb : IsSoft undefinedAsNull s b
    · have hboth := (isSoft_nullish_iff a b inner).2 ⟨ha, hb⟩
      rw [evaluate_nullish_of_soft hboth, settled_nullish_of_soft hb]
    · have hnot : ¬ IsSoft undefinedAsNull s (.nullish a b inner) := fun h =>
        hb ((isSoft_nullish_iff a b inner).1 h).2
      rw [evaluate_nullish_of_not_soft hnot, settled_nullish_of_soft ha,
        settled_nullish_of_not_soft hb]
  · have hnot : ¬ IsSoft undefinedAsNull s (.nullish a b inner) := fun h =>
      ha ((isSoft_nullish_iff a b inner).1 h).1
    rw [evaluate_nullish_of_not_soft hnot, evaluate_nullish_of_not_soft ha,
      settled_nullish_of_not_soft ha]

/-! Any number of operands -/

theorem Coalesces.ne_nil (h : Coalesces operands n) : operands ≠ [] := by
  induction h with
  | operand n => exact List.cons_ne_nil n []
  | nullish hl hr span ihl ihr => exact fun hnil => ihl (List.append_eq_nil_iff.1 hnil).1
  | group h span ih => exact ih

theorem Coalesces.isSoft_iff (h : Coalesces operands n) :
    IsSoft undefinedAsNull s n ↔ ∀ a ∈ operands, IsSoft undefinedAsNull s a := by
  induction h with
  | operand n => exact List.forall_mem_singleton.symm
  | nullish hl hr span ihl ihr => rw [isSoft_nullish_iff, ihl, ihr, List.forall_mem_append]
  | group h span ih => rw [isSoft_congr (settled_of_evaluate (evaluate_group _ span .value)), ih]

/-- One operand decides. -/
theorem exists_decides (h : operands ≠ []) :
    ∃ before a after, Decides undefinedAsNull s operands before a after := by
  induction operands with
  | nil => exact absurd rfl h
  | cons a rest ih =>
      by_cases hstop : rest = [] ∨ ¬ IsSoft undefinedAsNull s a
      · exact ⟨[], a, rest, rfl, nofun, hstop⟩
      · obtain ⟨hrest, hsoft⟩ := not_or.1 hstop
        obtain ⟨before, b, after, rfl, hbefore, hstands⟩ := ih hrest
        exact ⟨a :: before, b, after, rfl,
          List.forall_mem_cons.2 ⟨Classical.not_not.1 hsoft, hbefore⟩, hstands⟩

/-- The operand that decides is on the left, and stands there, or it is on the right, and
nothing on the left stands. -/
theorem Decides.of_append {more before after : List Node}
    (h : Decides undefinedAsNull s (operands ++ more) before a after) (hm : more ≠ []) :
    (¬ IsSoft undefinedAsNull s a ∧ a ∈ operands ∧
      ∃ rest, Decides undefinedAsNull s operands before a rest) ∨
    (∀ b ∈ operands, IsSoft undefinedAsNull s b) ∧
      ∃ front, Decides undefinedAsNull s more front a after := by
  obtain ⟨front, rfl, hmore⟩ | ⟨back, rfl, hback⟩ := List.append_eq_append_iff.1 h.operands_eq
  · obtain ⟨hleft, hfront⟩ := List.forall_mem_append.1 h.soft
    exact .inr ⟨hleft, front, hmore, hfront, h.stands⟩
  · obtain ⟨rfl, hmore⟩ | ⟨rest, rfl, hafter⟩ := List.cons_eq_append_iff.1 hback
    · rw [List.append_nil]
      exact .inr ⟨h.soft, [], hmore, nofun, h.stands⟩
    · have hstands : ¬ IsSoft undefinedAsNull s a := by
        refine h.stands.resolve_left fun hnil => hm ?_
        exact (List.append_eq_nil_iff.1 (hafter.symm.trans hnil)).2
      exact .inl ⟨hstands, List.mem_append_right before List.mem_cons_self, rest, rfl, h.soft,
        .inr hstands⟩

theorem Coalesces.settled_eq {before after : List Node} (h : Coalesces operands n)
    (hd : Decides undefinedAsNull s operands before a after) :
    settled undefinedAsNull s n = settled undefinedAsNull s a := by
  induction h generalizing before after with
  | operand n =>
      have hone := hd.operands_eq
      cases before with
      | nil =>
          obtain ⟨rfl, -⟩ := List.cons.inj hone
          rfl
      | cons b rest => exact absurd (List.cons.inj hone).2.symm (by simp)
  | nullish hl hr span ihl ihr =>
      obtain ⟨hstands, hmem, rest, hleft⟩ | ⟨hsoft, front, hright⟩ := hd.of_append hr.ne_nil
      · have hnot := fun h => hstands (hl.isSoft_iff.1 h a hmem)
        rw [settled_nullish_of_not_soft hnot]
        exact ihl hleft
      · rw [settled_nullish_of_soft (hl.isSoft_iff.2 hsoft)]
        exact ihr hright
  | group h span ih =>
      rw [settled_of_evaluate (evaluate_group _ span .value)]
      exact ih hd

/-- With two operands or more a coalescing tells nothing besides its value. -/
theorem Coalesces.evaluate_eq (h : Coalesces operands n) (hl : 2 ≤ operands.length) (role : Role) :
    evaluate undefinedAsNull n role s = settled undefinedAsNull s n := by
  cases h with
  | operand n => exact absurd hl (Nat.lt_irrefl 1)
  | @nullish _ _ left right _ _ span =>
      by_cases hsoft : IsSoft undefinedAsNull s left
      · rw [evaluate_nullish_of_soft hsoft, settled_nullish_of_soft hsoft]
      · rw [evaluate_nullish_of_not_soft hsoft, settled_nullish_of_not_soft hsoft]
  | group h span =>
      rw [evaluate_group, settled_of_evaluate (evaluate_group _ span .value)]

/-- Coalescing is associative. However its operands are bracketed, it comes to the first that is
not soft, be it a value or a failure, or else to the last; and the operands behind that one may
be any others. -/
theorem coalescing_lazy (undefinedAsNull : Bool) (s : Scope) :
    (∀ a b c inner outer inner' outer' role,
      evaluate undefinedAsNull (.nullish (.nullish a b inner) c outer) role s
        = evaluate undefinedAsNull (.nullish a (.nullish b c inner') outer') role s) ∧
    ∀ operands n, Coalesces operands n → 2 ≤ operands.length →
      (∃ before a after, Decides undefinedAsNull s operands before a after) ∧
      ∀ before a after, Decides undefinedAsNull s operands before a after → ∀ role,
        evaluate undefinedAsNull n role s
            = (evaluate undefinedAsNull a .value s).map (fun r => .plain r.value) ∧
          ∀ after' n', after'.length = after.length → Coalesces (before ++ a :: after') n' →
            evaluate undefinedAsNull n' role s = evaluate undefinedAsNull n role s := by
  refine ⟨evaluate_nullish_assoc, fun operands n h hl => ⟨exists_decides h.ne_nil, ?_⟩⟩
  intro before a after hd role
  have hn : evaluate undefinedAsNull n role s = settled undefinedAsNull s a :=
    (h.evaluate_eq hl role).trans (h.settled_eq hd)
  refine ⟨hn, fun after' n' hlength h' => ?_⟩
  have hl' : 2 ≤ (before ++ a :: after').length := by
    rw [hd.operands_eq] at hl
    simpa [hlength] using hl
  have hstands : after' = [] ∨ ¬ IsSoft undefinedAsNull s a :=
    hd.stands.imp_left fun hnil => List.length_eq_zero_iff.1 (by rw [hlength, hnil]; rfl)
  rw [hn, h'.evaluate_eq hl' role, h'.settled_eq ⟨rfl, hd.soft, hstands⟩]

/-- Two operands are soft, one of them a read on an undefined value; the third fails for good, and
the last might be any other. -/
theorem coalescing_lazy_failing :
    ∃ (p : Span) (s : Scope) (missing failing n n' : Node),
      p = .empty 0 ∧ s = .ofParameters [] ∧
      missing = .path ⟨[⟨"a", false⟩, ⟨"b", false⟩]⟩ p ∧
      failing = .template [.interpolation false [] (.undefined p) p] p ∧
      n = .nullish (.nullish missing (.null p) p) (.nullish failing (.bool true p) p) p ∧
      n' = .nullish (.group (.nullish (.nullish missing (.null p) p) failing p) p) missing p ∧
      Coalesces [missing, .null p, failing, .bool true p] n ∧
      Coalesces [missing, .null p, failing, missing] n' ∧
      2 ≤ [missing, .null p, failing, .bool true p].length ∧
      Decides false s [missing, .null p, failing, .bool true p] [missing, .null p] failing
        [.bool true p] ∧
      evaluate false (.nullish (.nullish missing failing p) (.null p) p) .value s
        = evaluate false (.nullish missing (.nullish failing (.null p) p) p) .value s ∧
      evaluate false n .value s
        = .error (Problem.undefinedInText.failure (.template [] p)) ∧
      evaluate false n' .value s = evaluate false n .value s := by
  let p : Span := .empty 0
  let s : Scope := .ofParameters []
  let missing : Node := .path ⟨[⟨"a", false⟩, ⟨"b", false⟩]⟩ p
  let failing : Node := .template [.interpolation false [] (.undefined p) p] p
  have hpair : Coalesces [missing, .null p] (.nullish missing (.null p) p) :=
    .nullish (.operand _) (.operand _) p
  have hn : Coalesces [missing, .null p, failing, .bool true p]
      (.nullish (.nullish missing (.null p) p) (.nullish failing (.bool true p) p) p) :=
    .nullish hpair (.nullish (.operand failing) (.operand (.bool true p)) p) p
  have hn' : Coalesces [missing, .null p, failing, missing]
      (.nullish (.group (.nullish (.nullish missing (.null p) p) failing p) p) missing p) :=
    .nullish (.group (.nullish hpair (.operand failing) p) p) (.operand missing) p
  have hmissing : IsSoft false s missing := .inr ⟨_, rfl, rfl⟩
  have hnull : IsSoft false s (.null p) := .inl ⟨_, rfl, .inr rfl⟩
  have hstands : ¬ IsSoft false s failing := by
    rintro (⟨r, hr, -⟩ | ⟨x, hx, hundefined⟩)
    · cases hr
    · cases hx
      cases hundefined
  have hd : Decides false s [missing, .null p, failing, .bool true p] [missing, .null p] failing
      [.bool true p] :=
    ⟨rfl, List.forall_mem_cons.2 ⟨hmissing, List.forall_mem_singleton.2 hnull⟩, .inr hstands⟩
  obtain ⟨hassoc, hchain⟩ := coalescing_lazy false s
  obtain ⟨-, hdecided⟩ := hchain _ _ hn (by decide)
  obtain ⟨hvalue, hothers⟩ := hdecided _ _ _ hd .value
  exact ⟨p, s, missing, failing, _, _, rfl, rfl, rfl, rfl, rfl, rfl, hn, hn', by decide, hd,
    hassoc missing failing (.null p) p p p p .value, hvalue, hothers [missing] _ rfl hn'⟩

end Evaluation
end JsonTemplate
