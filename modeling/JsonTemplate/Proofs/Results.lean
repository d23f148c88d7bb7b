/-!
Results that may be failures: what it takes for steps in a row to come to something, or to
fail, and what is said of a failure.
-/

namespace JsonTemplate

variable {ε ε' δ α β : Type}

theorem bind_eq_ok {r : Except ε α} {k : α → Except ε β} {b : β} :
    (r >>= k) = .ok b ↔ ∃ a, r = .ok a ∧ k a = .ok b := by
  cases r with
  | error x => exact ⟨nofun, fun ⟨_, h, _⟩ => nomatch h⟩
  | ok a => exact ⟨fun h => ⟨a, rfl, h⟩, fun ⟨_, h, hk⟩ => Except.ok.inj h ▸ hk⟩

theorem bind_eq_error {r : Except ε α} {k : α → Except ε β} {x : ε} :
    (r >>= k) = .error x ↔ r = .error x ∨ ∃ a, r = .ok a ∧ k a = .error x := by
  cases r with
  | error y =>
      constructor
      · intro h
        cases h
        exact .inl rfl
      · rintro (h | ⟨a, h, -⟩)
        · cases h
          rfl
        · cases h
  | ok a =>
      constructor
      · intro h
        exact .inr ⟨a, rfl, h⟩
      · rintro (h | ⟨b, h, hk⟩)
        · cases h
        · cases h
          exact hk

theorem map_eq_ok {r : Except ε α} {g : α → β} {b : β} :
    r.map g = .ok b ↔ ∃ a, r = .ok a ∧ b = g a := by
  cases r with
  | error x => exact ⟨nofun, fun ⟨_, h, _⟩ => nomatch h⟩
  | ok a =>
      constructor
      · intro h
        exact ⟨a, rfl, (Except.ok.inj h).symm⟩
      · rintro ⟨_, h, rfl⟩
        cases h
        rfl

theorem exists_eq_ok {r : Except ε α} (h : r.toOption.isSome = true) : ∃ a, r = .ok a := by
  cases r with
  | error x => cases h
  | ok a => exact ⟨a, rfl⟩

theorem mapM_cons_eq_ok {f : α → Except ε β} {a : α} {as : List α} {bs : List β} :
    (a :: as).mapM f = .ok bs ↔ ∃ b bs', f a = .ok b ∧ as.mapM f = .ok bs' ∧ bs = b :: bs' := by
  simp only [List.mapM_cons, bind_eq_ok]
  constructor
  · rintro ⟨b, hb, bs', hbs, h⟩
    exact ⟨b, bs', hb, hbs, (Except.ok.inj h).symm⟩
  · rintro ⟨b, bs', hb, hbs, rfl⟩
    exact ⟨b, hb, bs', hbs, rfl⟩

theorem mapM_append_cons_eq_ok {f : α → Except ε β} {before after : List α} {a : α}
    {bs : List β} :
    (before ++ a :: after).mapM f = .ok bs ↔ ∃ first b more, before.mapM f = .ok first ∧
      f a = .ok b ∧ after.mapM f = .ok more ∧ bs = first ++ b :: more := by
  induction before generalizing bs with
  | nil =>
      rw [List.nil_append, mapM_cons_eq_ok]
      constructor
      · rintro ⟨b, more, hb, hmore, rfl⟩
        exact ⟨[], b, more, rfl, hb, hmore, rfl⟩
      · rintro ⟨first, b, more, hfirst, hb, hmore, rfl⟩
        cases hfirst
        exact ⟨b, more, hb, hmore, rfl⟩
  | cons c rest ih =>
      simp only [List.cons_append, mapM_cons_eq_ok, ih]
      constructor
      · rintro ⟨d, _, hd, ⟨first, b, more, hfirst, hb, hmore, rfl⟩, rfl⟩
        exact ⟨d :: first, b, more, ⟨d, first, hd, hfirst, rfl⟩, hb, hmore, rfl⟩
      · rintro ⟨_, b, more, ⟨d, first, hd, hfirst, rfl⟩, hb, hmore, rfl⟩
        exact ⟨d, _, hd, ⟨first, b, more, hfirst, hb, hmore, rfl⟩, rfl⟩

/-- A run goes on from what its first part has come to. -/
theorem foldlM_append_of_ok {f : β → α → Except ε β} {b b' : β} {as : List α}
    (h : as.foldlM f b = .ok b') (more : List α) :
    (as ++ more).foldlM f b = more.foldlM f b' := by
  rw [List.foldlM_append, h]
  rfl

theorem foldlM_append_of_error {f : β → α → Except ε β} {b : β} {as : List α} {x : ε}
    (h : as.foldlM f b = .error x) (more : List α) : (as ++ more).foldlM f b = .error x := by
  rw [List.foldlM_append, h]
  rfl

/-! What is said of a failure -/

theorem mapError_eq_ok {say : ε → δ} {r : Except ε α} {a : α} :
    r.mapError say = .ok a ↔ r = .ok a := by
  cases r with
  | error x => exact ⟨nofun, nofun⟩
  | ok b => exact ⟨fun h => congrArg Except.ok (Except.ok.inj h), fun h => h ▸ rfl⟩

theorem mapError_map (say : ε → δ) (g : α → β) (r : Except ε α) :
    (r.map g).mapError say = (r.mapError say).map g := by
  cases r <;> rfl

theorem mapError_bind {say : ε → δ} {say' : ε' → δ} {r : Except ε α} {r' : Except ε' α}
    {k : α → Except ε β} {k' : α → Except ε' β} (hr : r.mapError say = r'.mapError say')
    (hk : ∀ a, (k a).mapError say = (k' a).mapError say') :
    (r >>= k).mapError say = (r' >>= k').mapError say' := by
  cases r with
  | error x =>
      cases r' with
      | error x' => exact congrArg Except.error (Except.error.inj hr)
      | ok a' => cases hr
  | ok a =>
      cases r' with
      | error x' => cases hr
      | ok a' =>
          cases hr
          exact hk a

end JsonTemplate
