import JsonTemplate.Evaluation.Order
import JsonTemplate.Proofs.Numeral.Places

/-!
The order of values. Two values are related in one way at most, and in the opposite way from the
other side; scalars that are related as equals are those that are loosely equal. A value that is
undefined, a list or an object is related to none.
-/

namespace JsonTemplate

theorem Binary64.order?_swap (a b : Float) : (order? a b).map Ordering.swap = order? b a := by
  unfold order?
  cases place? a with
  | none => cases place? b <;> rfl
  | some x =>
      cases place? b with
      | none => rfl
      | some y => exact congrArg some Std.OrientedCmp.eq_swap.symm

/-- What is no number is not related to anything. -/
theorem Binary64.order?_eq_none {a b : Float} (h : place? a = none ∨ place? b = none) :
    order? a b = none := by
  unfold order?
  obtain ha | hb := h
  · rw [ha]
  · rw [hb]
    cases place? a <;> rfl

namespace Value

/-- Undefined, lists and objects count as no number and are no text. -/
def isUnordered : Value → Bool
  | none | some (.arr _) | some (.obj _) => true
  | _ => false

/-- Two values that are not both text are related as the numbers they count as. -/
theorem order?_of_not_isText {a b : Value} (h : ∀ s t, ¬ (a = some (.str s) ∧ b = some (.str t))) :
    order? a b = Binary64.order? a.toNumber b.toNumber := by
  unfold order?
  split
  · next s t => exact absurd ⟨rfl, rfl⟩ (h s t)
  · rfl

theorem order?_swap (a b : Value) : (order? a b).map Ordering.swap = order? b a := by
  by_cases h : ∃ s t, a = some (.str s) ∧ b = some (.str t)
  · obtain ⟨s, t, rfl, rfl⟩ := h
    exact congrArg some Std.OrientedCmp.eq_swap.symm
  · rw [order?_of_not_isText fun s t hst => h ⟨s, t, hst⟩,
      order?_of_not_isText fun s t hst => h ⟨t, s, hst.symm⟩, Binary64.order?_swap]

theorem order?_of_isUnordered {a b : Value} (h : a.isUnordered = true ∨ b.isUnordered = true) :
    order? a b = none := by
  have hplace : ∀ v : Value, v.isUnordered = true → Binary64.place? v.toNumber = none := by
    intro v hv
    cases v with
    | none => rfl
    | some v => cases v <;> first | rfl | cases hv
  rw [order?_of_not_isText, Binary64.order?_eq_none (h.imp (hplace a) (hplace b))]
  rintro s t ⟨rfl, rfl⟩
  obtain h | h := h <;> cases h

/-! Relations -/

theorem greater_iff {a b : Value} : compares .greater a b = true ↔ order? a b = some .gt :=
  beq_iff_eq

theorem less_iff {a b : Value} : compares .less a b = true ↔ order? a b = some .lt :=
  beq_iff_eq

theorem atLeast_iff {a b : Value} :
    compares .atLeast a b = true ↔ order? a b = some .gt ∨ order? a b = some .eq := by
  rw [compares, Bool.or_eq_true, beq_iff_eq, beq_iff_eq]

theorem atMost_iff {a b : Value} :
    compares .atMost a b = true ↔ order? a b = some .lt ∨ order? a b = some .eq := by
  rw [compares, Bool.or_eq_true, beq_iff_eq, beq_iff_eq]

/-- Equals are at most and at least as great as each other, and nothing else is. -/
theorem order?_eq_iff {a b : Value} :
    order? a b = some .eq ↔ compares .atMost a b = true ∧ compares .atLeast a b = true := by
  rw [atMost_iff, atLeast_iff]
  constructor
  · exact fun h => ⟨.inr h, .inr h⟩
  · rintro ⟨hl | he, hr⟩
    · obtain hg | he := hr
      · cases hl.symm.trans hg
      · exact he
    · exact he

theorem less_swap (a b : Value) : compares .less a b = compares .greater b a := by
  rw [Bool.eq_iff_iff, less_iff, greater_iff, ← order?_swap a b]
  cases order? a b with
  | none => decide
  | some o => cases o <;> decide

theorem atMost_swap (a b : Value) : compares .atMost a b = compares .atLeast b a := by
  rw [Bool.eq_iff_iff, atMost_iff, atLeast_iff, ← order?_swap a b]
  cases order? a b with
  | none => decide
  | some o => cases o <;> decide

/-- Where two values are not related, every relation fails. -/
theorem compares_of_order?_eq_none {a b : Value} (h : order? a b = none) :
    ∀ op ∈ [Comparison.less, .atMost, .atLeast, .greater], compares op a b = false := by
  intro op hop
  simp only [List.mem_cons, List.not_mem_nil, or_false] at hop
  obtain rfl | rfl | rfl | rfl := hop <;> rw [compares, h] <;> rfl

/-- Scalars of one type are the same where they are related as equals, and those of two types
where the numbers they count as are. -/
theorem looselyEqual_iff {x y : Json} (hx : x.isScalar = true) (hy : y.isScalar = true) :
    looselyEqual (some x) (some y) = true ↔ order? (some x) (some y) = some .eq := by
  cases x with
  | null | arr | obj => cases hx
  | bool b =>
      cases y with
      | null | arr | obj => cases hy
      | bool c => cases b <;> cases c <;> decide
      | num n | str s => exact beq_iff_eq
  | num m =>
      cases y with
      | null | arr | obj => cases hy
      | bool c | num n | str s => exact beq_iff_eq
  | str s =>
      cases y with
      | null | arr | obj => cases hy
      | bool c | num n => exact beq_iff_eq
      | str t =>
          change (s == t) = true ↔ some (compare s t) = some .eq
          rw [beq_iff_eq, Option.some.injEq, Std.compare_eq_iff_eq]

/-- Each relation is the opposite one from the other side, two values are not both less and
greater, and at most is less or equal. Among booleans, numbers and texts the equals are those
that are at most and at least as great as each other; so two of different types are neither equal
nor related if one of them counts as no number. Nor is anything related to a value that is
undefined, a list or an object. -/
theorem comparisons_agree (a b : Value) :
    (compares .less a b = compares .greater b a ∧
      compares .atMost a b = compares .atLeast b a) ∧
    ¬ (compares .less a b = true ∧ compares .greater a b = true) ∧
    (compares .atMost a b = true ↔
      compares .less a b = true ∨
        (compares .atMost a b = true ∧ compares .atLeast a b = true)) ∧
    (∀ x y, a = some x → b = some y → x.isScalar = true → y.isScalar = true →
      (compares .equal a b = true ↔
        compares .atMost a b = true ∧ compares .atLeast a b = true) ∧
      (x.sameType y = false →
        Binary64.place? a.toNumber = none ∨ Binary64.place? b.toNumber = none →
        ∀ op ∈ [Comparison.equal, .less, .atMost, .atLeast, .greater],
          compares op a b = false)) ∧
    (a.isUnordered = true ∨ b.isUnordered = true →
      ∀ op ∈ [Comparison.less, .atMost, .atLeast, .greater], compares op a b = false) := by
  refine ⟨⟨less_swap a b, atMost_swap a b⟩, ?_, ?_, ?_, fun h => ?_⟩
  · rw [less_iff, greater_iff]
    rintro ⟨hl, hg⟩
    cases hl.symm.trans hg
  · rw [← order?_eq_iff, less_iff, atMost_iff]
  · rintro x y rfl rfl hx hy
    have hequal : compares .equal (some x) (some y) = true ↔ order? (some x) (some y) = some .eq :=
      looselyEqual_iff hx hy
    refine ⟨hequal.trans order?_eq_iff, fun htype hnone => ?_⟩
    have horder : order? (some x) (some y) = none := by
      rw [order?_of_not_isText, Binary64.order?_eq_none hnone]
      rintro s t ⟨hs, ht⟩
      cases hs
      cases ht
      cases htype
    rw [List.forall_mem_cons, Bool.eq_false_iff, Ne, hequal, horder]
    exact ⟨nofun, compares_of_order?_eq_none horder⟩
  · exact compares_of_order?_eq_none (order?_of_isUnordered h)

/-- A text that reads as no number is neither equal nor related to a number, and one that reads
as infinity is greater; an empty list is related to nothing. -/
theorem comparisons_agree_numeral :
    ∃ one : Json, one = .num (.int 1 (by decide)) ∧ Json.isScalar (.str "nan") = true ∧
      Json.isScalar (.str " inf ") = true ∧ one.isScalar = true ∧
      Json.sameType (.str "nan") one = false ∧
      Binary64.place? (toNumber (some (.str "nan"))) = none ∧
      compares .equal (some (.str "nan")) (some one) = false ∧
      compares .atMost (some (.str "nan")) (some one) = false ∧
      compares .greater (some (.str " inf ")) (some one) = true ∧
      compares .less (some one) (some (.str " inf ")) = true ∧
      ¬ compares .equal (some (.str " inf ")) (some one) = true ∧
      isUnordered (some (.arr [])) = true ∧
      compares .atLeast (some (.arr [])) (some one) = false := by
  let one : Json := .num (.int 1 (by decide))
  have hnan : Binary64.place? (toNumber (some (.str "nan"))) = none := by decide +kernel
  have hgreater : compares .greater (some (.str " inf ")) (some one) = true := by decide +kernel
  have hatMost : ¬ compares .atMost (some (.str " inf ")) (some one) = true := by decide +kernel
  obtain ⟨-, -, -, hshapeless, -⟩ := comparisons_agree (some (.str "nan")) (some one)
  obtain ⟨-, hnone⟩ := hshapeless _ _ rfl rfl rfl rfl
  obtain ⟨⟨hswap, -⟩, -⟩ := comparisons_agree (some one) (some (.str " inf "))
  obtain ⟨-, -, -, hinfinite, -⟩ := comparisons_agree (some (.str " inf ")) (some one)
  obtain ⟨hequal, -⟩ := hinfinite _ _ rfl rfl rfl rfl
  obtain ⟨-, -, -, -, hlist⟩ := comparisons_agree (some (.arr [])) (some one)
  refine ⟨one, rfl, rfl, rfl, rfl, rfl, hnan, ?_, ?_, hgreater, hswap.trans hgreater, ?_, rfl, ?_⟩
  · exact hnone rfl (.inl hnan) _ (by decide)
  · exact hnone rfl (.inl hnan) _ (by decide)
  · exact fun h => hatMost (hequal.1 h).1
  · exact hlist (.inl rfl) _ (by decide)

end Value
end JsonTemplate
