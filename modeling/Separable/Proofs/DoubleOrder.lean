import Mathlib.Data.Prod.Lex
import Mathlib.Order.Compare
import Separable.Scalar

/-!
# The order of doubles

Double-precision numbers are compared by kind, exponent and significand. A number that is no number
has no place in this order: every comparison with it is false, so a maximum that is taken by
comparisons passes over it, and every sum and product with it is no number again. All others have a
place in a linear order, and their comparisons are those of their places; so the comparisons are as
transitive and as total as a proof needs them, but for the one exception.

## Main results

* `lt_iff`, `le_iff`: doubles are compared by their places.
* `lt_trans`, `isNaN_or_lt`, `not_lt_iff`: what is left of transitivity and totality.
* `isFinite_of_le_of_le`: what is between two finite numbers is finite.
* `isNaN_add`, `isNaN_mul`, `not_le_of_isNaN`: what becomes of a number that is no number.
-/

namespace Separable

namespace Double

open Float.Model

/-- The place of an unpacked number among all numbers. -/
def place : UnpackedFloat → Option (ℤ ×ₗ ℤ ×ₗ ℤ)
  | .notANumber => none
  | .infinity .negative => some (toLex (-2, toLex (0, 0)))
  | .finite .negative significand exponent _ =>
    some (toLex (-1, toLex (-exponent, -(significand : ℤ))))
  | .zero _ => some (toLex (0, toLex (0, 0)))
  | .finite .positive significand exponent _ =>
    some (toLex (1, toLex (exponent, (significand : ℤ))))
  | .infinity .positive => some (toLex (2, toLex (0, 0)))

/-- Two numbers with a place are compared by it. -/
theorem compare_eq_some {a b : UnpackedFloat} {p q : ℤ ×ₗ ℤ ×ₗ ℤ} (ha : place a = some p)
    (hb : place b = some q) : a.compare b = some (compare p q) := by
  have hnat (m n : ℕ) : compare (m : ℤ) n = compare m n := by
    cases h : compare m n <;> simp_all [compare_lt_iff_lt, compare_gt_iff_gt]
  have hneg (e f : ℤ) : compare (-e) (-f) = (compare e f).swap := by
    cases h : compare e f <;> simp_all [compare_lt_iff_lt, compare_gt_iff_gt]
  rcases a with (_ | _) | _ | _ | ⟨_ | _, m, e, hm⟩ <;>
    rcases b with (_ | _) | _ | _ | ⟨_ | _, n, f, hn⟩ <;>
    dsimp only [place] at ha hb <;> simp only [Option.some.injEq, reduceCtorEq] at ha hb <;>
    subst ha hb <;> dsimp only [UnpackedFloat.compare] <;>
    simp only [Prod.Lex.compare_def, compareLex, compareOn, hnat, hneg, ofLex_toLex,
      Ordering.swap_then] <;>
    rfl

theorem compare_eq_none {a b : UnpackedFloat} (h : place a = none ∨ place b = none) :
    a.compare b = none := by
  rcases a with (_ | _) | _ | _ | ⟨_ | _, m, e, hm⟩ <;>
    rcases b with (_ | _) | _ | _ | ⟨_ | _, n, f, hn⟩ <;>
    dsimp only [place] at h <;> simp at h <;> rfl

/-! ## Comparisons -/

/-- The place of a double. -/
def rank (x : Float) : Option (ℤ ×ₗ ℤ ×ₗ ℤ) := place x.toModel.unpack

theorem rank_eq_none_iff (x : Float) : rank x = none ↔ x.isNaN = true := by
  show place x.toModel.unpack = none ↔ x.toModel.unpack.isNaN = true
  cases x.toModel.unpack with
  | notANumber => exact iff_of_true rfl rfl
  | infinity sign => cases sign <;> exact iff_of_false nofun nofun
  | zero sign => exact iff_of_false nofun nofun
  | finite sign significand exponent hpos => cases sign <;> exact iff_of_false nofun nofun

/-- A comparison passes if both doubles have a place and the places pass it. -/
theorem any_compare_iff (passes : Ordering → Bool) (x y : Float) :
    (x.toModel.unpack.compare y.toModel.unpack).any passes = true ↔
      ∃ p q, rank x = some p ∧ rank y = some q ∧ passes (compare p q) = true := by
  cases hx : rank x with
  | none =>
      rw [compare_eq_none (Or.inl hx)]
      simp
  | some p =>
      cases hy : rank y with
      | none =>
          rw [compare_eq_none (Or.inr hy)]
          simp
      | some q =>
          rw [compare_eq_some hx hy]
          simp

/-- Doubles are compared by their places. -/
theorem lt_iff (x y : Float) : x < y ↔ ∃ p q, rank x = some p ∧ rank y = some q ∧ p < q := by
  have hcompare : x < y ↔ (x.toModel.unpack.compare y.toModel.unpack).any (· == .lt) = true := by
    show decide (UnpackedFloat.lt x.toModel.unpack y.toModel.unpack = true) = true ↔ _
    rw [decide_eq_true_iff, UnpackedFloat.lt]
    cases x.toModel.unpack.compare y.toModel.unpack <;> simp
  rw [hcompare, any_compare_iff]
  simp [compare_lt_iff_lt]

/-- The same for the comparison that lets equal places pass. -/
theorem le_iff (x y : Float) : x ≤ y ↔ ∃ p q, rank x = some p ∧ rank y = some q ∧ p ≤ q := by
  have hcompare : x ≤ y ↔ (x.toModel.unpack.compare y.toModel.unpack).any (·.isLE) = true := by
    show decide (UnpackedFloat.le x.toModel.unpack y.toModel.unpack = true) = true ↔ _
    exact decide_eq_true_iff
  rw [hcompare, any_compare_iff]
  simp [Ordering.isLE_iff_ne_gt, compare_le_iff_le]

variable {x y z : Float}

protected theorem lt_trans (hxy : x < y) (hyz : y < z) : x < z := by
  obtain ⟨p, q, hp, hq, hpq⟩ := (lt_iff x y).1 hxy
  obtain ⟨q', r, hq', hr, hqr⟩ := (lt_iff y z).1 hyz
  cases hq.symm.trans hq'
  exact (lt_iff x z).2 ⟨p, r, hp, hr, lt_trans hpq hqr⟩

/-- What is not above a number below a bound is below the bound, if it is a number at all. -/
theorem isNaN_or_lt (hxz : x < z) (hxy : ¬x < y) : y.isNaN = true ∨ y < z := by
  obtain ⟨p, r, hp, hr, hpr⟩ := (lt_iff x z).1 hxz
  cases hy : rank y with
  | none => exact Or.inl ((rank_eq_none_iff y).1 hy)
  | some q =>
      have hqp : ¬p < q := fun hpq => hxy ((lt_iff x y).2 ⟨p, q, hp, hy, hpq⟩)
      exact Or.inr ((lt_iff y z).2 ⟨q, r, hy, hr, lt_of_le_of_lt (not_lt.1 hqp) hpr⟩)

/-- What a number is not below is at most that number, or no number. -/
theorem not_lt_iff (hx : x.isNaN = false) : ¬x < y ↔ y ≤ x ∨ y.isNaN = true := by
  rw [lt_iff, le_iff, ← rank_eq_none_iff y]
  cases hp : rank x with
  | none =>
      rw [(rank_eq_none_iff x).1 hp] at hx
      cases hx
  | some p => cases rank y <;> simp

theorem le_unpack (h : x ≤ y) : x.toModel.unpack.le y.toModel.unpack = true := by
  have hle : decide (UnpackedFloat.le x.toModel.unpack y.toModel.unpack = true) = true := h
  exact of_decide_eq_true hle

theorem not_le_of_isNaN (hx : x.isNaN = true) : ¬x ≤ y := by
  rw [le_iff, (rank_eq_none_iff x).2 hx]
  simp

/-- What is between two finite numbers is finite. -/
theorem isFinite_of_le_of_le (hxy : x ≤ y) (hyz : y ≤ z) (hx : x.isFinite = true)
    (hz : z.isFinite = true) : y.isFinite = true := by
  have hxy := le_unpack hxy
  have hyz := le_unpack hyz
  have hx : x.toModel.unpack.isFinite = true := hx
  have hz : z.toModel.unpack.isFinite = true := hz
  show y.toModel.unpack.isFinite = true
  generalize x.toModel.unpack = u at hxy hx
  generalize y.toModel.unpack = v at hxy hyz
  generalize z.toModel.unpack = w at hyz hz
  rcases v with (_ | _) | _ | _ | _
  · -- Nothing but itself is at most minus infinity.
    rcases u with (_ | _) | _ | _ | ⟨_ | _, _, _, _⟩ <;>
      first | exact hx | exact absurd hxy Bool.false_ne_true
  · rcases w with (_ | _) | _ | _ | ⟨_ | _, _, _, _⟩ <;>
      first | exact hz | exact absurd hyz Bool.false_ne_true
  · exact hyz
  · rfl
  · rfl

/-! ## Sums and products -/

theorem unpack_of_isNaN (hx : x.isNaN = true) : x.toModel.unpack = .notANumber := by
  have hx : x.toModel.unpack.isNaN = true := hx
  cases hunpack : x.toModel.unpack with
  | notANumber => rfl
  | infinity sign =>
      rw [hunpack] at hx
      cases hx
  | zero sign =>
      rw [hunpack] at hx
      cases hx
  | finite sign significand exponent hpos =>
      rw [hunpack] at hx
      cases hx

theorem isNaN_add (h : x.isNaN = true ∨ y.isNaN = true) : (x + y).isNaN = true := by
  show Float.isNaN ⟨Float.Model.pack (.add .binary64 x.toModel.unpack y.toModel.unpack)⟩ = true
  have hadd : UnpackedFloat.add .binary64 x.toModel.unpack y.toModel.unpack = .notANumber := by
    rcases h with hx | hy
    · rw [unpack_of_isNaN hx]
      rfl
    · rw [unpack_of_isNaN hy]
      cases x.toModel.unpack <;> rfl
  rw [hadd]
  rfl

theorem isNaN_mul (hy : y.isNaN = true) : (x * y).isNaN = true := by
  show Float.isNaN ⟨Float.Model.pack (.mul .binary64 x.toModel.unpack y.toModel.unpack)⟩ = true
  have hmul : UnpackedFloat.mul .binary64 x.toModel.unpack y.toModel.unpack = .notANumber := by
    rw [unpack_of_isNaN hy]
    cases x.toModel.unpack <;> rfl
  rw [hmul]
  rfl

end Double

end Separable
