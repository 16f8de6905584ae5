import Mathlib.Algebra.Order.Field.Power
import Mathlib.Algebra.Order.Floor.Semifield
import Mathlib.Data.Int.Log
import Mathlib.Data.Rat.Floor
import Mathlib.Tactic.FieldSimp
import Mathlib.Tactic.Linarith
import Mathlib.Tactic.NormNum
import Mathlib.Tactic.Ring
import Separable.Binary

/-!
# Rounding keeps order

The cuts of a term list are rounded products, so whether chunks overlap is a question about
rounding. Its answer is that rounding is monotone: a larger ratio never has a smaller rounded
value, whatever the two scales are. Within one scale this is monotonicity of `roundedQuotient`;
between two scales it holds because every rounded number of the lower one is at most the power of
two at which the higher one starts.

Whether chunks are of one size is a question about how far rounding goes. A rounded ratio is the
nearest number that there is (`Binary.Nearest`), which is at most half a unit of its last digit
away, and an integer of few enough digits stays as it is.

## Main results

* `roundedQuotient_mono`: the nearest integer to a ratio is monotone in the ratio.
* `scale_eq_log`: the scale of a ratio is its binary logarithm, rounded down.
* `toRat_ofRatio_mono`: a rounded ratio is monotone in the ratio.
* `floor_scaled_mono`: the whole part of a rounded product is monotone in the factor.
* `nearest_ofRatio`: a rounded ratio is the number that is nearest to the ratio.
* `toRat_ofRatio_mul`, `abs_toRat_ofRatio_sub`: what rounding leaves alone, and how far it goes.
-/

namespace Separable

/-! ## The nearest integer -/

/-- A ratio with the same whole part and a larger remainder is rounded up if the other one is. -/
private theorem half_mono {r s b d : Nat} (hb : 0 < b) (hd : 0 < d) (h : r * d ≤ s * b) :
    (b ≤ 2 * r → d ≤ 2 * s) ∧ (b < 2 * r → d < 2 * s) := by
  constructor
  · intro hr
    have h₁ : b * d ≤ 2 * r * d := Nat.mul_le_mul_right d hr
    have h₂ : d * b ≤ 2 * s * b := by nlinarith
    exact Nat.le_of_mul_le_mul_right h₂ hb
  · intro hr
    have h₁ : b * d < 2 * r * d := Nat.mul_lt_mul_of_pos_right hr hd
    have h₂ : d * b < 2 * s * b := by nlinarith
    exact Nat.lt_of_mul_lt_mul_right h₂

/-- The nearest integer to a ratio is monotone in the ratio. -/
theorem roundedQuotient_mono {a b c d : Nat} (hb : 0 < b) (hd : 0 < d) (h : a * d ≤ c * b) :
    roundedQuotient a b ≤ roundedQuotient c d := by
  have hq : a / b ≤ c / d := by
    rw [Nat.le_div_iff_mul_le hd]
    have h₁ : a / b * b ≤ a := Nat.div_mul_le_self a b
    have h₂ : a / b * d * b ≤ c * b := by nlinarith
    exact Nat.le_of_mul_le_mul_right h₂ hb
  rcases Nat.lt_or_eq_of_le hq with hlt | heq
  · calc
      roundedQuotient a b ≤ a / b + 1 := roundedQuotient_le a b
      _ ≤ c / d := hlt
      _ ≤ roundedQuotient c d := le_roundedQuotient c d
  · -- The whole parts agree, so the remainders decide.
    have hr : a % b * d ≤ c % d * b := by
      have ha := Nat.div_add_mod a b
      have hc := Nat.div_add_mod c d
      have hsplit : b * (c / d) * d + a % b * d ≤ d * (c / d) * b + c % d * b := by
        rw [← Nat.add_mul, ← Nat.add_mul, hc, ← heq, ha]
        exact h
      have hcomm : b * (c / d) * d = d * (c / d) * b := by ring
      omega
    obtain ⟨hle, hlt⟩ := half_mono hb hd hr
    simp only [roundedQuotient, heq]
    split_ifs <;> omega

theorem roundedQuotient_one (q : Nat) : roundedQuotient q 1 = q := by
  have hone : roundedQuotient (q * 1) 1 = q := roundedQuotient_mul q Nat.one_pos
  rwa [Nat.mul_one] at hone

/-- A ratio is its whole part and a fraction. -/
theorem ratio_eq_whole_add (a : Nat) {b : Nat} (hb : 0 < b) :
    (a / b : ℚ) = ((a / b : Nat) : ℚ) + ((a % b : Nat) : ℚ) / b := by
  have hb₀ : (b : ℚ) ≠ 0 := by exact_mod_cast hb.ne'
  have ha : (a : ℚ) = b * ((a / b : Nat) : ℚ) + ((a % b : Nat) : ℚ) := by
    exact_mod_cast (Nat.div_add_mod a b).symm
  field_simp
  linarith

/-- The nearest integer to a ratio is at most one half away from it, and is even if it is exactly
one half away. -/
theorem abs_roundedQuotient_sub (a : Nat) {b : Nat} (hb : 0 < b) :
    |(roundedQuotient a b : ℚ) - a / b| ≤ 1 / 2 ∧
      (|(roundedQuotient a b : ℚ) - a / b| = 1 / 2 → roundedQuotient a b % 2 = 0) := by
  have hb₀ : (0 : ℚ) < b := by exact_mod_cast hb
  have hfraction : (0 : ℚ) ≤ ((a % b : Nat) : ℚ) / b := by positivity
  rw [ratio_eq_whole_add a hb]
  simp only [roundedQuotient]
  split
  · next hbelow =>
    have hhalf : ((a % b : Nat) : ℚ) / b < 1 / 2 := by
      rw [div_lt_div_iff₀ hb₀ two_pos]
      exact_mod_cast (by omega : a % b * 2 < 1 * b)
    rw [sub_add_cancel_left, abs_neg, abs_of_nonneg hfraction]
    exact ⟨hhalf.le, fun h => absurd h hhalf.ne⟩
  · split
    · next hnot habove =>
      have hhalf : 1 / 2 < ((a % b : Nat) : ℚ) / b := by
        rw [div_lt_div_iff₀ two_pos hb₀]
        exact_mod_cast (by omega : 1 * b < a % b * 2)
      have hone : ((a % b : Nat) : ℚ) / b < 1 := by
        rw [div_lt_one hb₀]
        exact_mod_cast Nat.mod_lt a hb
      have hdistance : |((a / b + 1 : Nat) : ℚ) - (((a / b : Nat) : ℚ) + ((a % b : Nat) : ℚ) / b)| =
          1 - ((a % b : Nat) : ℚ) / b := by
        push_cast
        rw [abs_of_nonneg (by linarith)]
        ring
      rw [hdistance]
      exact ⟨by linarith, fun h => absurd h (by linarith)⟩
    · next hnot hnot' =>
      have hhalf : ((a % b : Nat) : ℚ) / b = 1 / 2 := by
        rw [div_eq_div_iff hb₀.ne' two_ne_zero]
        exact_mod_cast (by omega : a % b * 2 = 1 * b)
      rw [hhalf]
      split
      · next heven =>
        rw [sub_add_cancel_left, abs_neg, abs_of_pos (by norm_num)]
        exact ⟨le_refl _, fun _ => heven⟩
      · next hodd =>
        have hdistance : |((a / b + 1 : Nat) : ℚ) - (((a / b : Nat) : ℚ) + 1 / 2)| = 1 / 2 := by
          push_cast
          rw [abs_of_nonneg (by linarith)]
          ring
        rw [hdistance]
        exact ⟨le_refl _, fun _ => by omega⟩

/-- No integer is nearer to a ratio than the nearest one, and if another one is as near, then the
nearest one is even. -/
theorem roundedQuotient_nearest (a : Nat) {b : Nat} (hb : 0 < b) (k : Nat) :
    |(roundedQuotient a b : ℚ) - a / b| ≤ |(k : ℚ) - a / b| ∧
      (|(k : ℚ) - a / b| = |(roundedQuotient a b : ℚ) - a / b| → k ≠ roundedQuotient a b →
        roundedQuotient a b % 2 = 0) := by
  obtain ⟨hhalf, heven⟩ := abs_roundedQuotient_sub a hb
  rcases eq_or_ne k (roundedQuotient a b) with rfl | hne
  · exact ⟨le_refl _, fun _ h => absurd rfl h⟩
  · have hone : (1 : ℚ) ≤ |(k : ℚ) - roundedQuotient a b| := by
      have hint : (1 : ℤ) ≤ |(k : ℤ) - roundedQuotient a b| :=
        Int.one_le_abs (sub_ne_zero.2 (by exact_mod_cast hne))
      exact_mod_cast hint
    have htriangle := abs_sub_le (k : ℚ) (a / b) (roundedQuotient a b)
    rw [abs_sub_comm (a / b : ℚ)] at htriangle
    exact ⟨by linarith, fun heq _ => heven (by linarith)⟩

namespace Binary

/-! ## Numbers and ratios as rationals -/

/-- The number as a rational. -/
def toRat (b : Binary) : ℚ := b.significand * 2 ^ b.exponent

/-- Shifting by the positive and by the negative part of an exponent scales a ratio by a power of
two. -/
private theorem shifted_ratio (a b : Nat) (e : Int) :
    ((a <<< e.toNat : Nat) : ℚ) / ((b <<< (-e).toNat : Nat) : ℚ) = a / b * 2 ^ e := by
  rw [Nat.shiftLeft_eq, Nat.shiftLeft_eq]
  push_cast
  rcases Int.le_total 0 e with he | he
  · obtain ⟨n, rfl⟩ := Int.eq_ofNat_of_zero_le he
    simp [mul_div_right_comm]
  · obtain ⟨n, rfl⟩ : ∃ n : Nat, e = -n := ⟨(-e).toNat, by omega⟩
    simp only [neg_neg, Int.toNat_natCast, zpow_neg, zpow_natCast]
    have hzero : (-(n : Int)).toNat = 0 := by omega
    rw [hzero]
    field_simp

theorem toRat_eq (b : Binary) : b.toRat = b.numerator / b.denominator := by
  rw [numerator, denominator, shifted_ratio]
  simp [toRat]

theorem denominator_pos (b : Binary) : 0 < b.denominator := by
  simp [denominator, Nat.shiftLeft_eq]

theorem floor_eq (b : Binary) : b.floor = ⌊b.toRat⌋₊ := by
  rw [toRat_eq, Nat.floor_div_eq_div, floor]

theorem floor_mono {a b : Binary} (h : a.toRat ≤ b.toRat) : a.floor ≤ b.floor := by
  rw [floor_eq, floor_eq]
  exact Nat.floor_mono h

/-! ## The scale of a ratio -/

/-- The binary logarithms of numerator and denominator leave two candidates for the scale, and the
test in its definition picks the right one. -/
theorem scale_bounds {num den : Nat} (hn : 0 < num) (hd : 0 < den) :
    (2 : ℚ) ^ scale num den ≤ num / den ∧ (num / den : ℚ) < 2 ^ (scale num den + 1) := by
  have hn₁ : (2 : ℚ) ^ (num.log2 : Int) ≤ num := by
    exact_mod_cast Nat.log2_self_le hn.ne'
  have hn₂ : (num : ℚ) < 2 ^ ((num.log2 : Int) + 1) := by
    exact_mod_cast (Nat.log2_lt hn.ne').1 (Nat.lt_succ_self _)
  have hd₁ : (2 : ℚ) ^ (den.log2 : Int) ≤ den := by
    exact_mod_cast Nat.log2_self_le hd.ne'
  have hd₂ : (den : ℚ) < 2 ^ ((den.log2 : Int) + 1) := by
    exact_mod_cast (Nat.log2_lt hd.ne').1 (Nat.lt_succ_self _)
  have hd₀ : (0 : ℚ) < den := by exact_mod_cast hd
  have htwo : (2 : ℚ) ≠ 0 := two_ne_zero
  set e : Int := (num.log2 : Int) - den.log2 with he
  have hreaches : (if 0 ≤ e then den <<< e.toNat ≤ num else den ≤ num <<< (-e).toNat) ↔
      (2 : ℚ) ^ e ≤ num / den := by
    rw [le_div_iff₀ hd₀]
    split_ifs with hpos
    · obtain ⟨k, hk⟩ := Int.eq_ofNat_of_zero_le hpos
      rw [hk, Nat.shiftLeft_eq]
      simp only [Int.toNat_natCast, zpow_natCast, mul_comm]
      exact_mod_cast Iff.rfl
    · obtain ⟨k, hk⟩ : ∃ k : Nat, e = -k := ⟨(-e).toNat, by omega⟩
      rw [hk, Nat.shiftLeft_eq, zpow_neg, inv_mul_le_iff₀ (by positivity)]
      simp only [neg_neg, Int.toNat_natCast, zpow_natCast, mul_comm]
      exact_mod_cast Iff.rfl
  have hupper : (num / den : ℚ) < 2 ^ (e + 1) := by
    rw [div_lt_iff₀ hd₀]
    calc
      (num : ℚ) < 2 ^ ((num.log2 : Int) + 1) := hn₂
      _ = 2 ^ (e + 1) * 2 ^ (den.log2 : Int) := by rw [← zpow_add₀ htwo, he]; congr 1; ring
      _ ≤ 2 ^ (e + 1) * den := by gcongr
  have hlower : (2 : ℚ) ^ (e - 1) ≤ num / den := by
    rw [le_div_iff₀ hd₀]
    calc
      (2 : ℚ) ^ (e - 1) * den ≤ 2 ^ (e - 1) * 2 ^ ((den.log2 : Int) + 1) := by gcongr
      _ = 2 ^ (num.log2 : Int) := by rw [← zpow_add₀ htwo, he]; congr 1; ring
      _ ≤ num := hn₁
  have hscale : scale num den = if (2 : ℚ) ^ e ≤ num / den then e else e - 1 := by
    simp only [scale, ← he]
    by_cases hr : (2 : ℚ) ^ e ≤ num / den
    · simp only [hr, if_true]
      rw [if_pos]
      have := hreaches.2 hr
      split_ifs at this ⊢ <;> simpa using this
    · simp only [hr, if_false]
      rw [if_neg]
      have := mt hreaches.1 hr
      split_ifs at this ⊢ <;> simpa using this
  rw [hscale]
  split_ifs with hr
  · exact ⟨hr, hupper⟩
  · refine ⟨hlower, ?_⟩
    simpa using not_le.1 hr

theorem scale_eq_log {num den : Nat} (hn : 0 < num) (hd : 0 < den) :
    scale num den = Int.log 2 (num / den : ℚ) := by
  have hpos : (0 : ℚ) < num / den := by positivity
  obtain ⟨hle, hlt⟩ := scale_bounds hn hd
  apply le_antisymm
  · exact (Int.zpow_le_iff_le_log one_lt_two hpos).1 (by exact_mod_cast hle)
  · have := (Int.lt_zpow_iff_log_lt one_lt_two hpos).1 (by exact_mod_cast hlt)
    omega

/-! ## Rounded ratios -/

/-- The exponent of a rounded ratio. -/
private def digitScale (num den : Nat) : Int := scale num den - (precision - 1 : Nat)

/-- A rounded ratio has the nearest integer to a multiple of the ratio as its significand, and the
multiple has as many digits as the precision allows. -/
private theorem ofRatio_eq {num den : Nat} (hn : 0 < num) (hd : 0 < den) :
    ∃ a b : Nat, 0 < b ∧ ofRatio num den = ⟨roundedQuotient a b, digitScale num den⟩ ∧
      (a / b : ℚ) = num / den * 2 ^ (-digitScale num den) := by
  refine ⟨num <<< (-digitScale num den).toNat, den <<< (digitScale num den).toNat, ?_, ?_, ?_⟩
  · rw [Nat.shiftLeft_eq]
    positivity
  · simp only [ofRatio, hn.ne', if_false]
    change (if 0 ≤ digitScale num den then _ else _) = _
    split_ifs with he
    · have hzero : (-digitScale num den).toNat = 0 := by omega
      rw [hzero]
      rfl
    · have hzero : (digitScale num den).toNat = 0 := by omega
      rw [hzero]
      rfl
  · simpa using shifted_ratio num den (-digitScale num den)

/-- A ratio in units of the last digit of the rounded ratio. -/
private theorem ratio_in_units {num den a b : Nat}
    (h : (a / b : ℚ) = num / den * 2 ^ (-digitScale num den)) :
    (num / den : ℚ) = a / b * 2 ^ digitScale num den := by
  rw [h, mul_assoc, ← zpow_add₀ two_ne_zero, neg_add_cancel, zpow_zero, mul_one]

/-- The multiple of a ratio whose nearest integer is the significand has exactly as many digits as
the precision allows. -/
private theorem digits_bounds {num den : Nat} (hn : 0 < num) (hd : 0 < den) :
    (2 : ℚ) ^ (precision - 1) ≤ num / den * 2 ^ (-digitScale num den) ∧
      (num / den * 2 ^ (-digitScale num den) : ℚ) ≤ 2 ^ precision := by
  obtain ⟨hle, hlt⟩ := scale_bounds hn hd
  have htwo : (2 : ℚ) ≠ 0 := two_ne_zero
  have hpow : (0 : ℚ) < 2 ^ (-digitScale num den) := by positivity
  constructor
  · calc
      (2 : ℚ) ^ (precision - 1) = 2 ^ scale num den * 2 ^ (-digitScale num den) := by
        rw [← zpow_add₀ htwo, ← zpow_natCast, digitScale]
        congr 1
        ring
      _ ≤ num / den * 2 ^ (-digitScale num den) := by gcongr
  · calc
      (num / den * 2 ^ (-digitScale num den) : ℚ) ≤
          2 ^ (scale num den + 1) * 2 ^ (-digitScale num den) := by gcongr
      _ = 2 ^ precision := by
        rw [← zpow_add₀ htwo, ← zpow_natCast, digitScale]
        congr 1
        simp only [precision]
        norm_num
        ring

/-- A rounded ratio lies between the powers of two around the ratio. -/
private theorem significand_bounds {num den : Nat} (hn : 0 < num) (hd : 0 < den) :
    2 ^ (precision - 1) ≤ (ofRatio num den).significand ∧
      (ofRatio num den).significand ≤ 2 ^ precision := by
  obtain ⟨a, b, hb, heq, hratio⟩ := ofRatio_eq hn hd
  obtain ⟨hle, hlt⟩ := digits_bounds hn hd
  have hb₀ : (0 : ℚ) < b := by exact_mod_cast hb
  rw [← hratio] at hle hlt
  rw [le_div_iff₀ hb₀] at hle
  rw [div_le_iff₀ hb₀] at hlt
  rw [heq]
  constructor
  · rw [← roundedQuotient_one (2 ^ (precision - 1))]
    refine roundedQuotient_mono Nat.one_pos hb ?_
    rw [Nat.mul_one]
    exact_mod_cast hle
  · rw [← roundedQuotient_one (2 ^ precision)]
    refine roundedQuotient_mono hb Nat.one_pos ?_
    rw [Nat.mul_one]
    exact_mod_cast hlt

theorem toRat_nonneg (b : Binary) : 0 ≤ b.toRat := by
  unfold toRat
  positivity

/-- A rounded ratio is monotone in the ratio. -/
theorem toRat_ofRatio_mono {m n den : Nat} (hd : 0 < den) (h : m ≤ n) :
    (ofRatio m den).toRat ≤ (ofRatio n den).toRat := by
  rcases Nat.eq_zero_or_pos m with rfl | hm
  · simpa [ofRatio, toRat] using toRat_nonneg (ofRatio n den)
  have hn : 0 < n := Nat.lt_of_lt_of_le hm h
  have hd₀ : (0 : ℚ) < den := by exact_mod_cast hd
  have hratio : (m / den : ℚ) ≤ n / den := by
    have : (m : ℚ) ≤ n := by exact_mod_cast h
    gcongr
  have hscale : digitScale m den ≤ digitScale n den := by
    have hpos : (0 : ℚ) < m / den := by positivity
    have hlog : Int.log 2 (m / den : ℚ) ≤ Int.log 2 (n / den : ℚ) :=
      Int.log_mono_right hpos hratio
    rw [← scale_eq_log hm hd, ← scale_eq_log hn hd] at hlog
    exact Int.sub_le_sub_right hlog _
  obtain ⟨a, b, hb, hma, hab⟩ := ofRatio_eq hm hd
  obtain ⟨c, d, hd', hnc, hcd⟩ := ofRatio_eq hn hd
  rcases Int.lt_or_eq_of_le hscale with hlt | heq
  · -- A lower scale: a power of two lies in between.
    have hsm := (significand_bounds hm hd).2
    have hsn := (significand_bounds hn hd).1
    rw [hma] at hsm ⊢
    rw [hnc] at hsn ⊢
    have hsm' : (roundedQuotient a b : ℚ) ≤ 2 ^ precision := by exact_mod_cast hsm
    have hsn' : (2 : ℚ) ^ (precision - 1) ≤ roundedQuotient c d := by exact_mod_cast hsn
    simp only [toRat]
    calc
      (roundedQuotient a b : ℚ) * 2 ^ digitScale m den ≤
          2 ^ precision * 2 ^ digitScale m den := by gcongr
      _ = 2 ^ (precision - 1) * 2 ^ (digitScale m den + 1) := by
        rw [zpow_add_one₀ two_ne_zero, show precision = precision - 1 + 1 by rfl, pow_succ]
        simp only [Nat.add_sub_cancel]
        ring
      _ ≤ 2 ^ (precision - 1) * 2 ^ digitScale n den := by
        gcongr
        · norm_num
        · exact hlt
      _ ≤ roundedQuotient c d * 2 ^ digitScale n den := by gcongr
  · have hle : (a / b : ℚ) ≤ c / d := by
      rw [hab, hcd, heq]
      gcongr
    have hb₀ : (0 : ℚ) < b := by exact_mod_cast hb
    have hd₁ : (0 : ℚ) < d := by exact_mod_cast hd'
    rw [div_le_div_iff₀ hb₀ hd₁] at hle
    have hround : roundedQuotient a b ≤ roundedQuotient c d :=
      roundedQuotient_mono hb hd' (by exact_mod_cast hle)
    rw [hma, hnc, heq]
    simp only [toRat]
    have : (roundedQuotient a b : ℚ) ≤ roundedQuotient c d := by exact_mod_cast hround
    gcongr

/-! ## The nearest number -/

/-- Whether a number is `q`, rounded: it has as many digits as the precision allows, no number with
as many digits is nearer to `q`, and its significand is even if another one is as near. -/
structure Nearest (b : Binary) (q : ℚ) : Prop where
  normal : q ≠ 0 → 2 ^ (precision - 1) ≤ b.significand
  digits : b.significand ≤ 2 ^ precision
  nearest : ∀ c : Binary, c.significand < 2 ^ precision → |b.toRat - q| ≤ |c.toRat - q|
  even : ∀ c : Binary, c.significand < 2 ^ precision → |c.toRat - q| = |b.toRat - q| →
    c.toRat ≠ b.toRat → b.significand % 2 = 0

/-- A number either has an exponent that is too small to reach the digits of a ratio, and is below
the power of two at which they begin, or it is a multiple of the last digit. -/
private theorem below_or_multiple {c : Binary} (hc : c.significand < 2 ^ precision) (e : Int) :
    c.toRat < 2 ^ (precision - 1) * 2 ^ e ∨ ∃ k : Nat, c.toRat = k * 2 ^ e := by
  rcases Int.lt_or_le c.exponent e with hlt | hle
  · left
    have hsignificand : (c.significand : ℚ) < 2 ^ precision := by exact_mod_cast hc
    calc
      c.toRat < 2 ^ precision * 2 ^ c.exponent := by
        unfold toRat
        gcongr
      _ ≤ 2 ^ precision * 2 ^ (e - 1) := by
        gcongr
        · norm_num
        · omega
      _ = 2 ^ (precision - 1) * 2 ^ e := by
        rw [show precision = precision - 1 + 1 by rfl, pow_succ, zpow_sub_one₀ two_ne_zero]
        simp only [Nat.add_sub_cancel]
        ring
  · right
    obtain ⟨n, hn⟩ := Int.eq_ofNat_of_zero_le (Int.sub_nonneg.2 hle)
    refine ⟨c.significand * 2 ^ n, ?_⟩
    rw [toRat, show c.exponent = n + e by omega, zpow_add₀ two_ne_zero, zpow_natCast]
    push_cast
    ring

/-- A rounded ratio is the number that is nearest to the ratio. -/
theorem nearest_ofRatio (num : Nat) {den : Nat} (hd : 0 < den) :
    (ofRatio num den).Nearest (num / den) := by
  rcases Nat.eq_zero_or_pos num with rfl | hn
  · have hzero : (ofRatio 0 den).toRat = 0 := by simp [ofRatio, toRat]
    have hsignificand : (ofRatio 0 den).significand = 0 := rfl
    refine ⟨fun h => absurd (by simp) h, by simp [hsignificand], fun c _ => ?_, fun _ _ _ _ => ?_⟩
    · simp [hzero]
    · rw [hsignificand]
  obtain ⟨a, b, hb, heq, hratio⟩ := ofRatio_eq hn hd
  obtain ⟨hnormal, hdigits⟩ := significand_bounds hn hd
  have hulp : (0 : ℚ) < 2 ^ digitScale num den := by positivity
  -- In units of the last digit the ratio is `a / b`, and its neighbours are integers.
  have hunit := ratio_in_units hratio
  have hstart : (2 : ℚ) ^ (precision - 1) ≤ a / b := hratio ▸ (digits_bounds hn hd).1
  have hdistance (k : Nat) : |(k : ℚ) * 2 ^ digitScale num den - num / den| =
      |(k : ℚ) - a / b| * 2 ^ digitScale num den := by
    rw [hunit, ← sub_mul, abs_mul, abs_of_pos hulp]
  have hrounded : (ofRatio num den).toRat =
      (roundedQuotient a b : Nat) * 2 ^ digitScale num den := by
    rw [heq, toRat]
  have hsignificand : (ofRatio num den).significand = roundedQuotient a b := by rw [heq]
  -- The power of two at which the digits begin is one of the integers, and is not above the ratio.
  have hfar {c : Binary} (hc : c.toRat < 2 ^ (precision - 1) * 2 ^ digitScale num den) :
      |(ofRatio num den).toRat - num / den| < |c.toRat - num / den| := by
    have hfirst := (roundedQuotient_nearest a hb (2 ^ (precision - 1))).1
    have hcast : ((2 ^ (precision - 1) : Nat) : ℚ) = 2 ^ (precision - 1) := by norm_num
    rw [hcast] at hfirst
    have hbelow : c.toRat < num / den := by
      rw [hunit]
      exact hc.trans_le (by gcongr)
    calc
      |(ofRatio num den).toRat - num / den| ≤
          |(2 : ℚ) ^ (precision - 1) - a / b| * 2 ^ digitScale num den := by
        rw [hrounded, hdistance]
        gcongr
      _ = num / den - 2 ^ (precision - 1) * 2 ^ digitScale num den := by
        rw [abs_of_nonpos (by linarith), hunit]
        ring
      _ < num / den - c.toRat := by linarith
      _ = |c.toRat - num / den| := by
        rw [abs_of_neg (by linarith)]
        ring
  refine ⟨fun _ => hnormal, hdigits, fun c hc => ?_, fun c hc hsame hne => ?_⟩
  · rcases below_or_multiple hc (digitScale num den) with hbelow | ⟨k, hk⟩
    · exact (hfar hbelow).le
    · rw [hrounded, hk, hdistance, hdistance]
      have := (roundedQuotient_nearest a hb k).1
      gcongr
  · rcases below_or_multiple hc (digitScale num den) with hbelow | ⟨k, hk⟩
    · exact absurd hsame (hfar hbelow).ne'
    · rw [hrounded, hk, hdistance, hdistance] at hsame
      rw [hrounded, hk] at hne
      rw [hsignificand]
      refine (roundedQuotient_nearest a hb k).2 (mul_right_cancel₀ hulp.ne' hsame) ?_
      rintro rfl
      exact hne rfl

/-- A ratio that is an integer of few enough digits is not changed by rounding. -/
theorem toRat_ofRatio_mul {q : Nat} (hq : q < 2 ^ precision) {den : Nat} (hd : 0 < den) :
    (ofRatio (q * den) den).toRat = q := by
  have hd₀ : (den : ℚ) ≠ 0 := by exact_mod_cast hd.ne'
  have hratio : ((q * den : Nat) : ℚ) / den = q := by
    push_cast
    exact mul_div_cancel_right₀ _ hd₀
  have hnearest := (nearest_ofRatio (q * den) hd).nearest ⟨q, 0⟩ hq
  rw [hratio] at hnearest
  simpa [toRat, sub_eq_zero] using hnearest

/-- Rounding moves a ratio by at most half a unit of its last digit. -/
theorem abs_toRat_ofRatio_sub (num : Nat) {den : Nat} (hd : 0 < den) :
    |(ofRatio num den).toRat - num / den| ≤ num / den / 2 ^ precision := by
  rcases Nat.eq_zero_or_pos num with rfl | hn
  · simp [ofRatio, toRat]
  obtain ⟨a, b, hb, heq, hratio⟩ := ofRatio_eq hn hd
  have hstart := (digits_bounds hn hd).1
  have hulp : (0 : ℚ) < 2 ^ digitScale num den := by positivity
  have hunit := ratio_in_units hratio
  rw [← hratio] at hstart
  have hhalf := (abs_roundedQuotient_sub a hb).1
  rw [heq, toRat, hunit, ← sub_mul, abs_mul, abs_of_pos hulp]
  calc
    |(roundedQuotient a b : ℚ) - a / b| * 2 ^ digitScale num den ≤
        1 / 2 * 2 ^ digitScale num den := by gcongr
    _ = 2 ^ (precision - 1) / 2 ^ precision * 2 ^ digitScale num den := by norm_num [precision]
    _ ≤ a / b / 2 ^ precision * 2 ^ digitScale num den := by gcongr
    _ = a / b * 2 ^ digitScale num den / 2 ^ precision := by ring

/-- The whole part of a rounded product is monotone in the factor. -/
theorem floor_scaled_mono (b : Binary) {m n : Nat} (h : m ≤ n) :
    (b.scaled m).floor ≤ (b.scaled n).floor :=
  floor_mono (toRat_ofRatio_mono b.denominator_pos (Nat.mul_le_mul_right _ h))

end Binary

end Separable
