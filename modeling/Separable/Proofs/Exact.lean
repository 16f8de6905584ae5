import Mathlib.Analysis.SpecialFunctions.Pow.Real
import Separable.SparseLibrary

/-!
# Exact arithmetic

Floating-point sums depend on the order in which they are taken. A statement about sums that were
regrouped therefore needs scalars whose addition is exact, which is what `ExactAddition` asks for
and no more: addition is associative, and adding zero does nothing. The real numbers are such
scalars, with their own comparisons, roots and powers, and no number overflows or is rounded.

Buffers are compared entry by entry; an entry outside of a buffer reads as zero.

## Main results

* `sum_append`, `sum_map_sum`: a sum may be taken piece by piece.
* `getD_addAt`, `getD_overwrite`, `getD_zipWith_add`: what writes do to an entry.
-/

namespace Separable

open Scalar

/-- Scalars whose sums may be regrouped. -/
class ExactAddition (α : Type) [Scalar α] : Prop where
  add_assoc : ∀ a b c : α, a + b + c = a + (b + c)
  zero_add : ∀ a : α, 0 + a = a
  add_zero : ∀ a : α, a + 0 = a

variable {α : Type} [Scalar α]

/-! ## Sums -/

namespace Scalar

variable [ExactAddition α]

theorem foldl_add (a : α) (xs : List α) : xs.foldl (· + ·) a = a + sum xs := by
  induction xs generalizing a with
  | nil => exact (ExactAddition.add_zero a).symm
  | cons x rest ih =>
      calc (x :: rest).foldl (· + ·) a = a + x + sum rest := ih (a + x)
        _ = a + (0 + x + sum rest) := by
            rw [ExactAddition.add_assoc, ExactAddition.zero_add]
        _ = a + sum (x :: rest) := by rw [← ih (0 + x)]; rfl

theorem sum_cons (x : α) (xs : List α) : sum (x :: xs) = x + sum xs := by
  calc sum (x :: xs) = 0 + x + sum xs := foldl_add (0 + x) xs
    _ = x + sum xs := by rw [ExactAddition.zero_add]

theorem sum_append (xs ys : List α) : sum (xs ++ ys) = sum xs + sum ys := by
  rw [sum, List.foldl_append, foldl_add]
  rfl

/-- The sums of pieces add up to the sum of the whole. -/
theorem sum_map_sum (xss : List (List α)) : sum (xss.map sum) = sum xss.flatten := by
  induction xss with
  | nil => rfl
  | cons xs xss ih => rw [List.map_cons, sum_cons, ih, List.flatten_cons, sum_append]

theorem sum_replicate_zero (n : Nat) : sum (List.replicate n (0 : α)) = 0 := by
  induction n with
  | zero => rfl
  | succ n ih => rw [List.replicate_succ, sum_cons, ih, ExactAddition.add_zero]

end Scalar

/-! ## Largest values -/

omit [Scalar α] in
theorem le_foldl_max {β γ : Type} [LinearOrder γ] (f : β → γ) {xs : List β} {x : β} (hx : x ∈ xs)
    (start : γ) : f x ≤ xs.foldl (fun a b => max a (f b)) start := by
  have hstart (ys : List β) (a : γ) : a ≤ ys.foldl (fun a b => max a (f b)) a := by
    induction ys generalizing a with
    | nil => exact le_refl a
    | cons y rest ih => exact le_trans (le_max_left a (f y)) (ih _)
  induction xs generalizing start with
  | nil => cases hx
  | cons y rest ih =>
      rcases List.mem_cons.1 hx with rfl | hx
      · exact le_trans (le_max_right start (f x)) (hstart rest _)
      · exact ih hx _

/-! ## Entries of buffers -/

/-- Buffers of one length are equal if their entries are. -/
theorem ext_getD {xs ys : List α} (hlength : xs.length = ys.length)
    (h : ∀ k < xs.length, xs.getD k 0 = ys.getD k 0) : xs = ys := by
  refine List.ext_getElem hlength fun k hx hy => ?_
  have hk := h k hx
  simpa [List.getD_eq_getElem?_getD, hx, hy] using hk

@[simp] theorem getD_zeros (n k : Nat) : (zeros n : List α).getD k 0 = 0 := by
  by_cases hk : k < n
  · simp [zeros, hk]
  · simp [zeros, Nat.le_of_not_lt hk]

/-- Writing over a part of a buffer that lies inside of it. -/
theorem getD_overwrite {start : Nat} {new old : List α} (h : start + new.length ≤ old.length)
    (k : Nat) : (overwrite start new old).getD k 0 =
      if start ≤ k ∧ k < start + new.length then new.getD (k - start) 0 else old.getD k 0 := by
  rw [List.getD_eq_getElem?_getD, getElem?_overwrite, List.getD_eq_getElem?_getD (l := old)]
  by_cases hstart : start ≤ k
  · by_cases hstop : k < start + new.length
    · have hk : k < old.length := Nat.lt_of_lt_of_le hstop h
      have hoffset : k - start < new.length := by omega
      simp [hstart, hstop, hk, hoffset]
    · have hoffset : new.length ≤ k - start := by omega
      cases old[k]? <;> simp [hstart, hstop, hoffset]
  · cases old[k]? <;> simp [hstart]

section Adding

variable [ExactAddition α]

/-- Adding to a part of a buffer that lies inside of it. -/
theorem getD_addAt {start : Nat} {delta xs : List α} (h : start + delta.length ≤ xs.length)
    (k : Nat) : (addAt start delta xs).getD k 0 =
      xs.getD k 0 + if start ≤ k then delta.getD (k - start) 0 else 0 := by
  rw [List.getD_eq_getElem?_getD, getElem?_addAt, List.getD_eq_getElem?_getD (l := xs)]
  by_cases hstart : start ≤ k
  · by_cases hk : k < xs.length
    · cases hdelta : delta[k - start]? with
      | none => simp [hstart, hk, hdelta, ExactAddition.add_zero]
      | some d => simp [hstart, hk, hdelta]
    · have hoffset : delta.length ≤ k - start := by omega
      simp [hstart, Nat.le_of_not_lt hk, hoffset, ExactAddition.add_zero]
  · cases xs[k]? <;> simp [hstart, ExactAddition.add_zero]

theorem getD_zipWith_add {xs ys : List α} (h : xs.length = ys.length) (k : Nat) :
    (xs.zipWith (· + ·) ys).getD k 0 = xs.getD k 0 + ys.getD k 0 := by
  by_cases hk : k < xs.length
  · simp [List.getD_eq_getElem?_getD, hk, h ▸ hk]
  · simp [List.getD_eq_getElem?_getD, Nat.le_of_not_lt hk,
      h ▸ Nat.le_of_not_lt hk, ExactAddition.add_zero]

end Adding

/-! ## Real numbers -/

/-- Two is a numeral. With a name for the reason, the definitions that write a two share it. -/
instance atLeastTwo_two : Nat.AtLeastTwo 2 := ⟨le_rfl⟩

instance atLeastTwo_four : Nat.AtLeastTwo 4 := ⟨by decide⟩

namespace Scalar

noncomputable instance : Scalar ℝ where
  magnitude a := |a|
  sqrt := Real.sqrt
  pow := Real.rpow
  lt a b := decide (a < b)
  le a b := decide (a ≤ b)
  eq a b := decide (a = b)
  isFinite _ := true
  nearest _ a := a
  truncated? a := some (if 0 ≤ a then ⌊a⌋ else ⌈a⌉)
  ofInteger? n := some n

noncomputable instance : Backend ℝ where
  sparse := .standard

@[simp] theorem lt_real (a b : ℝ) : (lt a b = true) = (a < b) := by simp [lt]

@[simp] theorem le_real (a b : ℝ) : (le a b = true) = (a ≤ b) := by simp [le]

theorem magnitude_real (a : ℝ) : magnitude a = |a| := rfl

theorem larger_real (a b : ℝ) : larger a b = max a b := by
  unfold larger
  rw [max_def]
  by_cases h : a < b
  · simp [h, h.le]
  · rcases (not_lt.1 h).eq_or_lt with heq | hlt
    · simp [heq]
    · simp [h, not_le.2 hlt]

/-- Only a zero divisor is refused. -/
theorem divide_real {a b : ℝ} (h : b ≠ 0) : divide a b = .ok (a / b) :=
  divide_of_ne (by simpa [eq] using h)

/-- Powers of real numbers do not overflow. -/
theorem power_real (a b : ℝ) : power a b = .ok (a ^ b) := rfl

end Scalar

instance : ExactAddition ℝ where
  add_assoc := add_assoc
  zero_add := zero_add
  add_zero := add_zero

end Separable
