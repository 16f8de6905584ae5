import Mathlib
import Separable.Proofs.DoubleOrder

/-!
# Signs of doubles

An operation on doubles takes its operands apart, computes, rounds and packs the result. Rounding
does not lose a number that is not zero: the numbers that doubles consist of are multiples of the
smallest positive double, and so is an exact sum of them, which is therefore zero or not below the
smallest positive double. Packing keeps the sign of what rounding leaves (`Fits`). So a sum of two
numbers neither of which is below zero is zero only if both are, and a magnitude only if the number
is.

## Main results

* `signum_unpack_pack`: packing keeps the sign.
* `of_round`: rounding keeps the sign, and leaves what can be packed.
* `add_eq_zero_iff`: when a sum without negative operands is zero.
* `abs_eq_zero_iff`, `not_abs_lt_zero`: the sign of a magnitude.
-/

namespace Separable.Double

open Float.Model (Format UnpackedFloat totalExponent)
open Float.Model.UnpackedFloat

/-- How an unpacked number compares to zero. -/
def signum (u : UnpackedFloat) : Option Ordering := u.compare (.zero .positive)

/-- How a number of this sign compares to zero if it is not zero. -/
def order : Sign → Ordering
  | .negative => .lt
  | .positive => .gt

@[simp] theorem signum_notANumber : signum .notANumber = none := rfl

@[simp] theorem signum_infinity (sign : Sign) : signum (.infinity sign) = some (order sign) := by
  cases sign <;> rfl

@[simp] theorem signum_zero (sign : Sign) : signum (.zero sign) = some .eq := by
  cases sign <;> rfl

@[simp] theorem signum_finite (sign : Sign) (significand : Nat) (exponent : Int)
    (hpos : 0 < significand) :
    signum (.finite sign significand exponent hpos) = some (order sign) := by
  cases sign <;> rfl

/-- Whether a finite number has no more digits than a double, and is a multiple of the smallest
positive double. -/
def Fits : UnpackedFloat → Prop
  | .finite _ significand exponent _ => significand < 2 ^ 53 ∧ -1074 ≤ exponent
  | _ => True

@[simp] theorem fits_notANumber : Fits .notANumber := trivial

@[simp] theorem fits_infinity (sign : Sign) : Fits (.infinity sign) := trivial

@[simp] theorem fits_zero (sign : Sign) : Fits (.zero sign) := trivial

/-! ## Packing -/

theorem toNat_implicit (fraction : BitVec 52) :
    (1#1 ++ fraction).toNat = 2 ^ 52 + fraction.toNat := by
  rw [BitVec.toNat_append, ← Nat.shiftLeft_add_eq_or_of_lt fraction.isLt]
  rfl

theorem fits_unpack (b : BitVec Format.binary64.numBits) : Fits (unpack .binary64 b) := by
  have hbias : ((Format.binary64.exponentBias : Nat) : Int) = 1023 := rfl
  have hfraction : (@unpackMantissa .binary64 b).toNat < 2 ^ 52 := BitVec.isLt _
  unfold unpack
  dsimp only
  split
  · split <;> trivial
  · split
    · split
      · trivial
      · refine ⟨by omega, ?_⟩
        rw [hbias]
        omega
    · next _ hexponent =>
      have hpos : (@unpackExponent .binary64 b).toNat ≠ 0 := fun h =>
        hexponent (BitVec.eq_of_toNat_eq h)
      refine ⟨by rw [toNat_implicit]; omega, ?_⟩
      rw [hbias]
      omega

/-- A number is not zero if its exponent field or its fraction field is not. -/
theorem signum_packComponents {sign : Sign} {exponent : BitVec 11} {fraction : BitVec 52}
    (hfinite : exponent ≠ -1#11) (hfields : exponent ≠ 0#11 ∨ fraction ≠ 0#52) :
    signum (unpack .binary64 (packComponents .binary64 sign exponent fraction)) =
      some (order sign) := by
  unfold unpack
  simp only [unpackMantissa_packComponents, unpackExponent_packComponents,
    unpackSign_packComponents, Sign.ofBitVec_toBitVec]
  rw [if_neg hfinite]
  split
  · next hzero => rw [dif_neg (hfields.resolve_left (absurd hzero)), signum_finite]
  · rw [signum_finite]

/-- Packing keeps the sign of what fits. -/
theorem signum_unpack_pack {u : UnpackedFloat} (h : Fits u) :
    signum (unpack .binary64 (pack .binary64 u)) = signum u := by
  cases u with
  | notANumber => rfl
  | infinity sign => cases sign <;> rfl
  | zero sign => cases sign <;> rfl
  | finite sign significand exponent hpos =>
      obtain ⟨hdigits, hmultiple⟩ := h
      have hbias : ((Format.binary64.exponentBias : Nat) : Int) = 1023 := rfl
      have hbits : Format.binary64.mantissaBits = 53 := rfl
      rw [signum_finite]
      unfold pack
      dsimp only
      rw [hbias, hbits]
      generalize hfield : (exponent + 1023 + _).toNat = field
      have hpositive : 1 ≤ field := by omega
      split
      · cases sign <;> rfl
      · split
        · have htoNat : (BitVec.ofNat 11 field).toNat = field := by
            rw [BitVec.toNat_ofNat, Nat.mod_eq_of_lt (by omega)]
          refine signum_packComponents (fun h => ?_) (.inl fun h => ?_)
          · have hlargest := congrArg BitVec.toNat h
            rw [htoNat] at hlargest
            simp at hlargest
            omega
          · have hzero := congrArg BitVec.toNat h
            rw [htoNat] at hzero
            simp at hzero
            omega
        · -- The significand has fewer digits then, so the fraction field holds all of it.
          have hsmall : significand < 2 ^ 52 := by
            rw [← Nat.log2_lt hpos.ne'] at hdigits ⊢
            omega
          refine signum_packComponents (by decide) (.inr fun h => ?_)
          have hzero := congrArg BitVec.toNat h
          rw [BitVec.toNat_ofNat, Nat.mod_eq_of_lt hsmall] at hzero
          exact hpos.ne' hzero

/-! ## Rounding -/

theorem significand_shiftRight (n : Nat) (m : ExtendedMantissa) :
    (m >>> n).mantissa = m.mantissa / 2 ^ n := by
  show (n.repeat ExtendedMantissa.shiftRightOne m).mantissa = _
  induction n with
  | zero => simp [Nat.repeat]
  | succ n ih =>
      show (n.repeat ExtendedMantissa.shiftRightOne m).mantissa / 2 = _
      rw [ih, Nat.div_div_eq_div_mul, Nat.pow_succ]

/-- The exponent at which a number is rounded keeps 53 digits, or all digits of a number that is a
multiple of the smallest positive double. -/
theorem of_shiftToTargetExponent {significand : Nat} {exponent : Int} (hpos : 0 < significand)
    (hmultiple : -1074 ≤ exponent) (accuracy : Accuracy) {shifted : ExtendedMantissa × Int}
    (h : shiftToTargetExponent .binary64 significand exponent accuracy = shifted) :
    0 < shifted.1.mantissa ∧ shifted.1.mantissa < 2 ^ 53 ∧ -1074 ≤ shifted.2 := by
  have htarget : Format.binary64.targetExponent (totalExponent significand exponent) =
      max ((significand.log2 : Int) + 1 + exponent - 53) (-1074) := rfl
  have hinitial : (ExtendedMantissa.ofMantissaAndAccuracy significand accuracy).mantissa =
      significand := by
    rcases accuracy with _ | (_ | _ | _) <;> rfl
  obtain ⟨shift, hshift⟩ : ∃ shift, shift =
      (max ((significand.log2 : Int) + 1 + exponent - 53) (-1074) - exponent).toNat := ⟨_, rfl⟩
  unfold shiftToTargetExponent shiftToExponent at h
  dsimp only at h
  rw [htarget, ← hshift] at h
  subst h
  rw [significand_shiftRight, hinitial]
  refine ⟨Nat.div_pos ?_ (Nat.two_pow_pos _), ?_, by omega⟩
  · calc 2 ^ shift ≤ 2 ^ significand.log2 := Nat.pow_le_pow_right (by omega) (by omega)
      _ ≤ significand := Nat.log2_self_le hpos.ne'
  · rw [Nat.div_lt_iff_lt_mul (Nat.two_pow_pos _), ← Nat.pow_add]
    calc significand < 2 ^ (significand.log2 + 1) := Nat.lt_log2_self
      _ ≤ 2 ^ (53 + shift) := Nat.pow_le_pow_right (by omega) (by omega)

theorem le_roundedMantissa (m : ExtendedMantissa) : m.mantissa ≤ m.roundedMantissa := by
  obtain ⟨significand, _ | _, _ | _⟩ := m
  · exact Nat.le_refl _
  · exact Nat.le_refl _
  · exact Nat.le_add_right _ _
  · exact Nat.le_add_right _ _

/-- What rounding leaves of a positive multiple of the smallest positive double. -/
theorem of_roundWithAccuracy (sign : Sign) {significand : Nat} {exponent : Int}
    (hpos : 0 < significand) (hmultiple : -1074 ≤ exponent) (accuracy : Accuracy)
    {rounded : UnpackedFloat}
    (h : roundWithAccuracy .binary64 sign significand exponent accuracy = rounded) :
    Fits rounded ∧ signum rounded = some (order sign) := by
  unfold roundWithAccuracy at h
  dsimp only at h
  obtain ⟨hfirst, _, hlow⟩ := of_shiftToTargetExponent hpos hmultiple accuracy rfl
  obtain ⟨hsecond, hdigits, hlow'⟩ := of_shiftToTargetExponent
    (hfirst.trans_le (le_roundedMantissa _)) hlow .exact rfl
  rw [dif_neg hsecond.ne'] at h
  subst h
  exact ⟨⟨hdigits, hlow'⟩, signum_finite _ _ _ _⟩

theorem of_round (sign : Sign) {significand : Nat} {exponent : Int} (hpos : 0 < significand)
    (hmultiple : -1074 ≤ exponent) {rounded : UnpackedFloat}
    (h : UnpackedFloat.round .binary64 sign significand exponent = rounded) :
    Fits rounded ∧ signum rounded = some (order sign) := by
  have htarget : -1074 ≤
      Format.binary64.targetExponent (totalExponent significand exponent) := le_max_right _ _
  unfold UnpackedFloat.round decreaseExponent at h
  dsimp only at h
  refine of_roundWithAccuracy sign ?_ ?_ .exact h
  · rw [Nat.shiftLeft_eq]
    exact Nat.mul_pos hpos (Nat.two_pow_pos _)
  · omega

/-! ## Sums -/

/-- A sum of two positive numbers is positive. -/
theorem of_add_positive {m n : Nat} {e f : Int} (hm : 0 < m) (hn : 0 < n) (he : -1074 ≤ e)
    (hf : -1074 ≤ f) {sum : UnpackedFloat}
    (h : add .binary64 (.finite .positive m e hm) (.finite .positive n f hn) = sum) :
    Fits sum ∧ signum sum = some .gt := by
  have hpos (m : Nat) (e t : Int) (hm : 0 < m) : 0 < (decreaseExponent m e t).1 := by
    unfold decreaseExponent
    dsimp only
    rw [Nat.shiftLeft_eq]
    exact Nat.mul_pos hm (Nat.two_pow_pos _)
  have hleft := hpos m e (min e f) hm
  have hright := hpos n f (min e f) hn
  simp only [add, Sign.apply, UnpackedFloat.normalize] at h
  generalize (decreaseExponent m e (min e f)).1 = a at hleft h
  generalize (decreaseExponent n f (min e f)).1 = b at hright h
  have hcompare : compare ((a : Int) + b) 0 = .gt := compare_gt_iff_gt.2 (by omega)
  rw [hcompare] at h
  exact of_round .positive (by omega) (by omega) h

/-- A sum of two numbers neither of which is below zero is not below zero, and it is zero only if
both are. -/
theorem of_add {u v : UnpackedFloat} (hu : Fits u) (hv : Fits v) (hu₀ : signum u ≠ some .lt)
    (hv₀ : signum v ≠ some .lt) : Fits (add .binary64 u v) ∧
      signum (add .binary64 u v) ≠ some .lt ∧
      (signum (add .binary64 u v) = some .eq ↔ signum u = some .eq ∧ signum v = some .eq) := by
  have hpositive {sign : Sign} (h : some (order sign) ≠ some .lt) : sign = .positive := by
    cases sign with
    | negative => exact absurd rfl h
    | positive => rfl
  cases u with
  | notANumber => simp [add]
  | infinity sign =>
      rw [signum_infinity] at hu₀
      obtain rfl := hpositive hu₀
      cases v with
      | notANumber => simp [add]
      | infinity sign' =>
          rw [signum_infinity] at hv₀
          obtain rfl := hpositive hv₀
          exact ⟨trivial, hu₀, by decide⟩
      | zero | finite => simp [add, order]
  | zero sign =>
      cases v with
      | notANumber => simp [add]
      | infinity sign' => exact ⟨hv, hv₀, by simp [add]⟩
      | zero sign' =>
          have hsum : add .binary64 (.zero sign) (.zero sign') =
              if sign == sign' then .zero sign else .zero .positive := rfl
          rw [hsum]
          split <;> simp
      | finite sign' n f hn => exact ⟨hv, hv₀, by simp [add]⟩
  | finite sign m e hm =>
      rw [signum_finite] at hu₀
      obtain rfl := hpositive hu₀
      cases v with
      | notANumber => simp [add]
      | infinity sign' =>
          rw [signum_infinity] at hv₀
          obtain rfl := hpositive hv₀
          exact ⟨trivial, hu₀, by simp [add, order]⟩
      | zero sign' => exact ⟨hu, hu₀, by simp [add, order]⟩
      | finite sign' n f hn =>
          rw [signum_finite] at hv₀
          obtain rfl := hpositive hv₀
          obtain ⟨hfits, hsum⟩ := of_add_positive hm hn hu.2 hv.2 rfl
          exact ⟨hfits, by simp [hsum], by simp [hsum, order]⟩

theorem of_abs {u : UnpackedFloat} (hu : Fits u) :
    Fits u.abs ∧ signum u.abs ≠ some .lt ∧ (signum u.abs = some .eq ↔ signum u = some .eq) := by
  cases u with
  | notANumber => simp [UnpackedFloat.abs]
  | infinity sign => cases sign <;> simp [UnpackedFloat.abs, order]
  | zero sign => simp [UnpackedFloat.abs]
  | finite sign m e hm =>
      refine ⟨hu, ?_⟩
      cases sign <;> simp [UnpackedFloat.abs, order]

/-! ## Doubles -/

/-- How a double compares to zero. -/
def sign (x : Float) : Option Ordering := signum x.toModel.unpack

variable {x y : Float}

theorem unpack_zero : (0.0 : Float).toModel.unpack = .zero .positive := rfl

theorem lt_zero_iff : x < 0.0 ↔ sign x = some .lt := by
  show decide (UnpackedFloat.lt x.toModel.unpack (0.0 : Float).toModel.unpack = true) = true ↔ _
  rw [unpack_zero, UnpackedFloat.lt, decide_eq_true_iff, beq_iff_eq]
  rfl

theorem zero_lt_iff : 0.0 < x ↔ sign x = some .gt := by
  show decide (UnpackedFloat.lt (0.0 : Float).toModel.unpack x.toModel.unpack = true) = true ↔ _
  rw [unpack_zero, decide_eq_true_iff, sign]
  rcases x.toModel.unpack with (_ | _) | _ | (_ | _) | ⟨_ | _, _, _, _⟩ <;>
    first | exact iff_of_true rfl rfl | exact iff_of_false Bool.false_ne_true (by simp [order])

/-- What is not below one is positive. -/
theorem zero_lt_of_one_le (h : 1.0 ≤ x) : 0.0 < x := by
  have hone : (1.0 : Float).toModel.unpack = .finite .positive (2 ^ 52) (-52) (by decide) := rfl
  have h := le_unpack h
  rw [hone] at h
  rw [zero_lt_iff, sign]
  revert h
  rcases x.toModel.unpack with (_ | _) | _ | _ | ⟨_ | _, _, _, _⟩ <;>
    first | exact fun _ => rfl | exact fun h => absurd h Bool.false_ne_true

theorem eq_zero_iff : (x == 0.0) = true ↔ sign x = some .eq := by
  show UnpackedFloat.beq x.toModel.unpack (0.0 : Float).toModel.unpack = true ↔ _
  rw [unpack_zero, UnpackedFloat.beq, beq_iff_eq]
  rfl

theorem sign_pack {u : UnpackedFloat} (h : Fits u) : sign ⟨Float.Model.pack u⟩ = signum u :=
  signum_unpack_pack h

/-- A sum of two numbers neither of which is below zero is zero only if both are. -/
theorem add_eq_zero_iff (hx : ¬ x < 0.0) (hy : ¬ y < 0.0) :
    (x + y == 0.0) = true ↔ (x == 0.0) = true ∧ (y == 0.0) = true := by
  rw [lt_zero_iff] at hx hy
  obtain ⟨hfits, _, hzero⟩ := of_add (fits_unpack _) (fits_unpack _) hx hy
  rw [eq_zero_iff, eq_zero_iff, eq_zero_iff]
  exact (iff_of_eq (congrArg (· = some Ordering.eq) (sign_pack hfits))).trans hzero

theorem abs_eq_zero_iff : (x.abs == 0.0) = true ↔ (x == 0.0) = true := by
  obtain ⟨hfits, _, hzero⟩ := of_abs (fits_unpack x.toModel.toBits.toBitVec)
  rw [eq_zero_iff, eq_zero_iff]
  exact (iff_of_eq (congrArg (· = some Ordering.eq) (sign_pack hfits))).trans hzero

theorem not_abs_lt_zero : ¬ x.abs < 0.0 := by
  obtain ⟨hfits, hnonneg, _⟩ := of_abs (fits_unpack x.toModel.toBits.toBitVec)
  rw [lt_zero_iff]
  exact fun h => hnonneg ((sign_pack hfits).symm.trans h)

end Separable.Double
