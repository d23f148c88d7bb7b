import JsonTemplate.Json.Number

/-!
Numbers have places. No integer becomes a float that is no number, and neither is any number of
a document; so its place on the number line is defined, and two numbers are the same exactly
when they share it.
-/

namespace JsonTemplate
namespace Binary64

open Float.Model Float.Model.UnpackedFloat

/-- A finite number or an infinity. -/
def IsNumber : UnpackedFloat → Prop
  | .notANumber => False
  | _ => True

theorem isNumber_ite {c : Prop} [Decidable c] {u w : UnpackedFloat} (hu : c → IsNumber u)
    (hw : ¬ c → IsNumber w) : IsNumber (if c then u else w) :=
  iteInduction hu hw

theorem isNumber_dite {c : Prop} [Decidable c] {u : c → UnpackedFloat} {w : ¬ c → UnpackedFloat}
    (hu : ∀ h, IsNumber (u h)) (hw : ∀ h, IsNumber (w h)) :
    IsNumber (if h : c then u h else w h) := by
  by_cases h : c
  · rw [dif_pos h]
    exact hu h
  · rw [dif_neg h]
    exact hw h

/-- Bits that stand for a number or an infinity. -/
def IsPlaced (v : Float.Model) : Prop :=
  @unpackExponent Format.binary64 v.toBits.toBitVec = -1#_ →
    @unpackMantissa Format.binary64 v.toBits.toBitVec = 0#_

/-- The exponent of a finite number is packed below that of the infinities. -/
theorem isPlaced_pack {u : UnpackedFloat} (h : IsNumber u) :
    IsPlaced (Float.Model.pack u) := by
  intro he
  change unpackExponent (UnpackedFloat.pack Format.binary64 u) = -1#_ at he
  change unpackMantissa (UnpackedFloat.pack Format.binary64 u) = 0#_
  revert he
  fun_cases UnpackedFloat.pack Format.binary64 u with
  | case1 => exact h.elim
  | case2 s => exact fun _ => unpackMantissa_packComponents
  | case3 s => exact fun _ => unpackMantissa_packComponents
  | case4 s m e hm biased hlarge => exact fun _ => unpackMantissa_packComponents
  | case5 s m e hm width biased hsmall hnormal =>
      intro he
      rw [unpackExponent_packComponents] at he
      have hbits := congrArg BitVec.toNat he
      have hmod : biased % 2048 = 2047 := hbits
      have hbound : ¬ 2048 ≤ biased + 1 := hsmall
      omega
  | case6 s m e hm width biased hsmall hnormal =>
      intro he
      rw [unpackExponent_packComponents] at he
      cases congrArg BitVec.toNat he

theorem isNumber_unpack {v : Float.Model} (h : IsPlaced v) : IsNumber v.unpack := by
  unfold Float.Model.unpack UnpackedFloat.unpack
  refine isNumber_ite (fun he => ?_) fun _ => isNumber_ite (fun _ => ?_) fun _ => trivial
  · exact isNumber_ite (fun _ => trivial) fun hm => absurd (h he) hm
  · exact isNumber_dite (fun _ => trivial) fun _ => trivial

theorem toNat_unpackExponent (b : BitVec 64) :
    (@unpackExponent Format.binary64 b).toNat = b.toNat / 0x10000000000000 % 0x800 := by
  simp [unpackExponent, Nat.shiftRight_eq_div_pow]

theorem toNat_unpackMantissa (b : BitVec 64) :
    (@unpackMantissa Format.binary64 b).toNat = b.toNat % 0x10000000000000 := by
  simp [unpackMantissa]

theorem isSome_place?_iff (f : Float) :
    (place? f).isSome = true ↔ magnitudeBits f ≤ 0x7FF0000000000000 := by
  unfold place?
  split
  · next hlarge => exact ⟨nofun, fun h => absurd hlarge (Nat.not_lt.2 h)⟩
  · next hsmall => exact ⟨fun _ => Nat.not_lt.1 hsmall, fun _ => rfl⟩

theorem isSome_place?_of_isPlaced {f : Float} (h : IsPlaced f.toModel) :
    (place? f).isSome = true := by
  rw [isSome_place?_iff]
  have hexponent := toNat_unpackExponent f.toBits.toBitVec
  have hmantissa := toNat_unpackMantissa f.toBits.toBitVec
  have hbits : magnitudeBits f = f.toBits.toBitVec.toNat % 0x8000000000000000 := rfl
  by_cases he : f.toBits.toBitVec.toNat / 0x10000000000000 % 0x800 = 0x7FF
  · have hall : @unpackExponent Format.binary64 f.toBits.toBitVec = -1#_ :=
      BitVec.eq_of_toNat_eq (hexponent.trans he)
    have hzero := congrArg BitVec.toNat (h hall)
    have hnone : f.toBits.toBitVec.toNat % 0x10000000000000 = 0 := hmantissa.symm.trans hzero
    omega
  · omega

/-! Integers -/

/-- Rounding gives a zero or a finite number. -/
theorem isNumber_roundWithAccuracy (sign : Sign) (m : Nat) (e : Int) (accuracy : Accuracy) :
    IsNumber (roundWithAccuracy Format.binary64 sign m e accuracy) := by
  unfold roundWithAccuracy
  exact isNumber_dite (fun _ => trivial) fun _ => trivial

theorem isNumber_mul_finite {u : UnpackedFloat} (hu : IsNumber u) (sign : Sign) (m : Nat) (e : Int)
    (hm : 0 < m) : IsNumber (mul Format.binary64 u (.finite sign m e hm)) := by
  cases u with
  | notANumber => exact hu.elim
  | infinity | zero => exact trivial
  | finite s n k hn => exact isNumber_roundWithAccuracy _ _ _ _

theorem isNumber_neg {u : UnpackedFloat} (hu : IsNumber u) : IsNumber u.neg := by
  cases u with
  | notANumber => exact hu.elim
  | infinity | zero | finite => exact trivial

theorem isNumber_normalize (i e : Int) (sign : Sign) :
    IsNumber (UnpackedFloat.normalize Format.binary64 i e sign) := by
  unfold UnpackedFloat.normalize
  cases compare i 0 with
  | lt | gt => exact isNumber_roundWithAccuracy _ _ _ _
  | eq => exact trivial

theorem isNumber_ofScientific (n : Nat) {e : Int} (he : 0 ≤ e) :
    IsNumber (UnpackedFloat.ofScientific Format.binary64 n e) := by
  unfold UnpackedFloat.ofScientific
  refine isNumber_dite (fun _ => trivial) fun _ => ?_
  refine isNumber_ite (fun _ => trivial) fun _ => ?_
  refine isNumber_ite (fun _ => trivial) fun _ => ?_
  rw [if_pos he]
  refine isNumber_mul_finite ?_ _ _ _ _
  exact trivial

theorem isPlaced_ofNat (n : Nat) : IsPlaced (Float.ofNat n).toModel := by
  change IsPlaced (Float.ofScientific n false 0).toModel
  unfold Float.ofScientific
  split
  · have hone : (Float.Model.ofBits 4607182418800017408).unpack
        = .finite .positive 0x10000000000000 (-52) (by decide) := rfl
    change IsPlaced (Float.Model.pack (mul Format.binary64
      (Float.Model.ofUInt64 n.toUInt64).unpack (Float.Model.ofBits 4607182418800017408).unpack))
    rw [hone]
    have hword : IsPlaced (Float.Model.ofUInt64 n.toUInt64) :=
      isPlaced_pack (isNumber_normalize _ _ _)
    exact isPlaced_pack (isNumber_mul_finite (isNumber_unpack hword) _ _ _ _)
  · exact isPlaced_pack (isNumber_ofScientific n (Int.le_refl 0))

theorem isPlaced_ofInt (i : Int) : IsPlaced (Float.ofInt i).toModel := by
  cases i with
  | ofNat n => exact isPlaced_ofNat n
  | negSucc n => exact isPlaced_pack (isNumber_neg (isNumber_unpack (isPlaced_ofNat n.succ)))

end Binary64

/-- Every number of a document has a place. -/
theorem Number.isSome_place? (n : Number) : (Binary64.place? n.toFloat).isSome = true := by
  cases n with
  | int i fits => exact Binary64.isSome_place?_of_isPlaced (Binary64.isPlaced_ofInt i)
  | float f finite =>
      have hbits : Binary64.magnitudeBits f < 0x7FF0000000000000 := of_decide_eq_true finite
      exact (Binary64.isSome_place?_iff f).2 (Nat.le_of_lt hbits)

namespace Binary64

/-! Sameness -/

variable {a b c : Float}

theorem same_iff : same a b = true ↔ ∃ x, place? a = some x ∧ place? b = some x := by
  unfold same order?
  cases place? a with
  | none => exact ⟨nofun, fun ⟨_, h, _⟩ => nomatch h⟩
  | some x =>
      cases place? b with
      | none => exact ⟨nofun, fun ⟨_, _, h⟩ => nomatch h⟩
      | some y =>
          simp only [beq_iff_eq, Option.some.injEq, Std.compare_eq_iff_eq]
          exact ⟨fun h => ⟨x, rfl, h.symm⟩, fun ⟨_, hx, hy⟩ => hx.trans hy.symm⟩

theorem same_comm (a b : Float) : same a b = same b a := by
  rw [Bool.eq_iff_iff, same_iff, same_iff]
  exact ⟨fun ⟨x, ha, hb⟩ => ⟨x, hb, ha⟩, fun ⟨x, hb, ha⟩ => ⟨x, ha, hb⟩⟩

theorem same_trans (h : same a b = true) (h' : same b c = true) : same a c = true := by
  obtain ⟨x, ha, hb⟩ := same_iff.1 h
  obtain ⟨y, hb', hc⟩ := same_iff.1 h'
  cases hb.symm.trans hb'
  exact same_iff.2 ⟨x, ha, hc⟩

theorem same_self (h : (place? a).isSome = true) : same a a = true := by
  obtain ⟨x, hx⟩ := Option.isSome_iff_exists.1 h
  exact same_iff.2 ⟨x, hx, hx⟩

end Binary64
end JsonTemplate
