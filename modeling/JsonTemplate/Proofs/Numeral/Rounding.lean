import JsonTemplate.Proofs.Numeral.Places

/-!
Rounding keeps exponents moderate. A number that is rounded takes an exponent a few bits
above its own, so an integer of 64 bits is never rounded to an infinity.
-/

namespace JsonTemplate
namespace Binary64

open Float.Model Float.Model.UnpackedFloat

/-- A zero, or a number whose exponent is well below that of the infinities. -/
def IsModerate : UnpackedFloat → Prop
  | .zero _ => True
  | .finite _ _ e _ => e ≤ 960
  | _ => False

theorem mantissa_shiftRight_le (em : ExtendedMantissa) (n : Nat) :
    (em >>> n).mantissa ≤ em.mantissa := by
  change (n.repeat ExtendedMantissa.shiftRightOne em).mantissa ≤ em.mantissa
  induction n with
  | zero => exact Nat.le_refl _
  | succ n ih => exact Nat.le_trans (Nat.div_le_self _ 2) ih

theorem roundedMantissa_le (em : ExtendedMantissa) : em.roundedMantissa ≤ em.mantissa + 1 := by
  obtain ⟨m, _ | _, _ | _⟩ := em
  · exact Nat.le_succ m
  · exact Nat.le_succ m
  · have : m % 2 < 2 := Nat.mod_lt m (by decide)
    exact Nat.add_le_add_left (Nat.le_of_lt_succ this) m
  · exact Nat.le_refl _

theorem mantissa_ofMantissaAndAccuracy (m : Nat) (accuracy : Accuracy) :
    (ExtendedMantissa.ofMantissaAndAccuracy m accuracy).mantissa = m := by
  obtain _ | _ | _ | _ := accuracy <;> rfl

theorem mantissa_shiftToTargetExponent_le (m : Nat) (e : Int) (accuracy : Accuracy) :
    (shiftToTargetExponent Format.binary64 m e accuracy).1.mantissa ≤ m :=
  Nat.le_trans (mantissa_shiftRight_le _ _) (Nat.le_of_eq (mantissa_ofMantissaAndAccuracy m _))

theorem exponent_shiftToTargetExponent (m : Nat) (e : Int) (accuracy : Accuracy) :
    (shiftToTargetExponent Format.binary64 m e accuracy).2
      = e + (max ((m.log2 : Int) + 1 + e - 53) (-1074) - e).toNat :=
  rfl

theorem log2_le_of_le {m k : Nat} (h : m ≤ Nat.pow 2 k) : m.log2 ≤ k := by
  by_cases hm : m = 0
  · rw [hm]
    exact Nat.zero_le k
  · apply Nat.le_of_lt_succ
    rw [Nat.log2_lt hm]
    exact Nat.lt_of_le_of_lt h (Nat.pow_lt_pow_succ (by decide))

/-- The two shifts around the rounding raise the exponent by the width of the number at most. -/
theorem isModerate_roundWithAccuracy (sign : Sign) {m : Nat} {e : Int} (accuracy : Accuracy)
    (hm : m < 0x100000000000000000000000000000000) (he : e ≤ 128) :
    IsModerate (roundWithAccuracy Format.binary64 sign m e accuracy) := by
  have hfirst := mantissa_shiftToTargetExponent_le m e accuracy
  have hrounded := roundedMantissa_le (shiftToTargetExponent Format.binary64 m e accuracy).1
  have hwidth : m.log2 ≤ 128 := log2_le_of_le (Nat.le_of_lt hm)
  have hwidth' :
      (shiftToTargetExponent Format.binary64 m e accuracy).1.roundedMantissa.log2 ≤ 128 :=
    log2_le_of_le (Nat.le_trans hrounded (Nat.lt_of_le_of_lt hfirst hm))
  have hexponent := exponent_shiftToTargetExponent m e accuracy
  have hexponent' := exponent_shiftToTargetExponent
    (shiftToTargetExponent Format.binary64 m e accuracy).1.roundedMantissa
    (shiftToTargetExponent Format.binary64 m e accuracy).2 .exact
  unfold roundWithAccuracy
  generalize shiftToTargetExponent Format.binary64 m e accuracy = first at *
  obtain ⟨em, e₁⟩ := first
  dsimp only at *
  generalize shiftToTargetExponent Format.binary64 em.roundedMantissa e₁ .exact = second at *
  by_cases hzero : second.1.mantissa = 0
  · rw [dif_pos hzero]
    trivial
  · rw [dif_neg hzero]
    change second.2 ≤ 960
    omega

/-- What is moderate is packed as a finite number. -/
theorem isFinite_pack {u : UnpackedFloat} (h : IsModerate u) :
    isFinite ⟨Float.Model.pack u⟩ = true := by
  have hexponent : (@unpackExponent Format.binary64
      (UnpackedFloat.pack Format.binary64 u)).toNat < 2047 := by
    fun_cases UnpackedFloat.pack Format.binary64 u with
    | case1 => exact h.elim
    | case2 s => exact h.elim
    | case3 s =>
        change (unpackExponent (packComponents Format.binary64 s 0#_ 0#_)).toNat < 2047
        rw [unpackExponent_packComponents]
        decide
    | case4 s m e hm biased hlarge =>
        have hbiased : biased = (e + 1023 + 52).toNat := rfl
        have hbound : 2048 ≤ biased + 1 := hlarge
        have he : e ≤ 960 := h
        omega
    | case5 s m e hm width biased hsmall hnormal =>
        have hbound : ¬ 2048 ≤ biased + 1 := hsmall
        rw [unpackExponent_packComponents]
        change biased % 2048 < 2047
        omega
    | case6 s m e hm width biased hsmall hnormal =>
        rw [unpackExponent_packComponents]
        decide
  have hbits := toNat_unpackExponent (UnpackedFloat.pack Format.binary64 u)
  have hmagnitude : magnitudeBits ⟨Float.Model.pack u⟩
      = (UnpackedFloat.pack Format.binary64 u).toNat % 0x8000000000000000 := rfl
  rw [isFinite, decide_eq_true_eq, hmagnitude]
  omega

theorem isModerate_mul {s s' : Sign} {m m' : Nat} {e e' : Int} (h : 0 < m) (h' : 0 < m')
    (hm : m * m' < 0x100000000000000000000000000000000) (he : e + e' ≤ 128) :
    IsModerate (mul Format.binary64 (.finite s m e h) (.finite s' m' e' h')) :=
  isModerate_roundWithAccuracy _ _ hm he

theorem isModerate_ofScientific {n : Nat} (hb : n < 0x10000000000000000) :
    IsModerate (UnpackedFloat.ofScientific Format.binary64 n 0) := by
  have hbits : Format.binary64.mantissaBits = 53 := rfl
  have hrange : (2 ^ Format.binary64.exponentBits : Int) = 2048 := rfl
  unfold UnpackedFloat.ofScientific
  by_cases hn : n = 0
  · rw [dif_pos hn]
    trivial
  · rw [dif_neg hn, hrange, if_neg (by decide), if_neg (by omega), if_pos (Int.le_refl 0)]
    refine isModerate_mul _ _ ?_ ?_
    · rw [hbits, Nat.shiftLeft_eq, Int.toNat_zero, Nat.pow_zero]
      omega
    · rw [hbits]
      decide

/-- An integer of 64 bits is not rounded to an infinity. -/
theorem isFinite_ofScientific {n : Nat} (hl : 0x20000000000000 ≤ n) (hn : n < 0x10000000000000000) :
    isFinite (Float.ofScientific n false 0) = true := by
  have hlarge : ¬ (n < 2 ^ 53 ∧ 0 ≤ 22) := by omega
  unfold Float.ofScientific
  rw [dif_neg hlarge]
  exact isFinite_pack (isModerate_ofScientific hn)

end Binary64
end JsonTemplate
