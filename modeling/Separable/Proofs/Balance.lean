import Mathlib.Data.Nat.ModEq
import Separable.Proofs.Partition

/-!
# Chunks of one size

The exact cut `w * n / k` of `n` terms for `k` workers makes chunks whose sizes differ by at most
one. The cut that is computed with rounding may fall short of it by one. This takes a product that
is an integer, of a quotient that is not: a quotient that is an integer is not rounded at all, and a
product that is no integer is too far below the next one, at least by `1 / k`, to be carried across
it. So of two neighbouring cuts at most one falls short, and the chunks on both sides of it trade
one term without leaving the two sizes.

## Main results

* `abs_product_sub`: how far the rounded product is from the exact one.
* `evenCut_bounds`: a rounded cut is the exact one, or falls short of it by one.
* `cut_eq_evenCut`: no cut has to be held back at the end of the list.
* `size_chunk`: the size of the chunk between two cuts.
* `balanced_chunks`: all that is true of the chunks together.
-/

namespace Separable.Partition

open Binary

/-- The quotient of terms by workers, rounded. -/
def quotient (n workers : Nat) : Binary := ofRatio n workers

/-- The product of a worker's number and the quotient, rounded. -/
def product (n workers w : Nat) : Binary := (quotient n workers).scaled w

theorem evenCut_eq (n workers w : Nat) : evenCut n workers w = ⌊(product n workers w).toRat⌋₊ :=
  floor_eq _

/-- The ratio that becomes the product. -/
private theorem scaled_ratio (b : Binary) (w : Nat) :
    ((w * b.numerator : Nat) : ℚ) / b.denominator = w * b.toRat := by
  rw [toRat_eq]
  push_cast
  ring

theorem nearest_quotient (n : Nat) {workers : Nat} (h : 0 < workers) :
    (quotient n workers).Nearest (n / workers) := nearest_ofRatio n h

theorem nearest_product (n workers w : Nat) :
    (product n workers w).Nearest (w * (quotient n workers).toRat) :=
  scaled_ratio (quotient n workers) w ▸ nearest_ofRatio _ (denominator_pos _)

/-! ## How far a cut is off -/

section Cuts

variable {n workers w : Nat} (hworkers : 0 < workers) (hsmall : n * workers < 2 ^ 50)
  (hw : w ≤ workers)

include hworkers hsmall hw

/-- Where all workers get the same number of terms nothing is rounded. -/
theorem evenCut_of_dvd (h : workers ∣ n) : evenCut n workers w = w * n / workers := by
  obtain ⟨q, rfl⟩ := h
  have hn : workers * q ≤ workers * q * workers := Nat.le_mul_of_pos_right _ hworkers
  have hq : q ≤ workers * q := Nat.le_mul_of_pos_left _ hworkers
  have hwq : w * q ≤ workers * q := Nat.mul_le_mul_right q hw
  have hprecision : 2 ^ 50 ≤ 2 ^ precision := by decide
  have hexact : (quotient (workers * q) workers).toRat = q := by
    rw [quotient, Nat.mul_comm]
    exact toRat_ofRatio_mul (by omega) hworkers
  have hdivides : w * (quotient (workers * q) workers).numerator =
      w * q * (quotient (workers * q) workers).denominator := by
    have hratio := scaled_ratio (quotient (workers * q) workers) w
    have hpos : ((quotient (workers * q) workers).denominator : ℚ) ≠ 0 := by
      exact_mod_cast (denominator_pos _).ne'
    rw [hexact, div_eq_iff hpos] at hratio
    exact_mod_cast hratio
  rw [evenCut_eq, product, scaled, hdivides, toRat_ofRatio_mul (by omega) (denominator_pos _),
    Nat.floor_natCast, Nat.mul_left_comm, Nat.mul_div_cancel_left _ hworkers]

/-- The rounded product is closer to the exact one than half of one term's share. -/
theorem abs_product_sub :
    |(product n workers w).toRat - w * n / workers| < 1 / (2 * workers) := by
  have hworkers₀ : (0 : ℚ) < workers := by exact_mod_cast hworkers
  have hn₀ : (0 : ℚ) ≤ n := Nat.cast_nonneg n
  have hw₀ : (w : ℚ) ≤ workers := by exact_mod_cast hw
  have hsmall₀ : (n : ℚ) * workers < 2 ^ 50 := by exact_mod_cast hsmall
  have hexact : (w : ℚ) * n / workers ≤ n := by
    rw [div_le_iff₀ hworkers₀]
    nlinarith
  -- The quotient is off by one part in `2 ^ 53`, and so is the product after it.
  have hquotient : |w * (quotient n workers).toRat - w * n / workers| ≤ n / 2 ^ precision := by
    have hoff := abs_toRat_ofRatio_sub n hworkers
    calc
      |w * (quotient n workers).toRat - w * n / workers| =
          w * |(quotient n workers).toRat - n / workers| := by
        rw [mul_div_assoc, ← mul_sub, abs_mul, Nat.abs_cast]
      _ ≤ w * (n / workers / 2 ^ precision) := by
        rw [quotient]
        gcongr
      _ = w * n / workers / 2 ^ precision := by ring
      _ ≤ n / 2 ^ precision := by gcongr
  have hproduct : |(product n workers w).toRat - w * (quotient n workers).toRat| ≤
      2 * n / 2 ^ precision := by
    have hoff := abs_toRat_ofRatio_sub (w * (quotient n workers).numerator)
      (denominator_pos (quotient n workers))
    rw [scaled_ratio] at hoff
    have hpart : (n : ℚ) / 2 ^ precision ≤ n := div_le_self hn₀ (by norm_num [precision])
    have hdouble : w * (quotient n workers).toRat ≤ 2 * n := by
      linarith [(abs_le.1 hquotient).2]
    exact hoff.trans (by gcongr)
  calc
    |(product n workers w).toRat - w * n / workers| ≤
        |(product n workers w).toRat - w * (quotient n workers).toRat| +
          |w * (quotient n workers).toRat - w * n / workers| := abs_sub_le _ _ _
    _ ≤ 2 * n / 2 ^ precision + n / 2 ^ precision := add_le_add hproduct hquotient
    _ < 1 / (2 * workers) := by
      rw [← add_div, div_lt_div_iff₀ (by positivity) (by positivity)]
      norm_num [precision] at hsmall₀ ⊢
      nlinarith

/-- A rounded cut is the exact one, or falls short of it by one; the latter only if the product is
an integer and the quotient is not. -/
theorem evenCut_bounds : evenCut n workers w ≤ w * n / workers ∧
    w * n / workers ≤ evenCut n workers w + 1 ∧
    (evenCut n workers w ≠ w * n / workers → workers ∣ w * n ∧ ¬workers ∣ n) := by
  have hworkers₀ : (0 : ℚ) < workers := by exact_mod_cast hworkers
  obtain ⟨hlower, hupper⟩ := abs_lt.1 (abs_product_sub hworkers hsmall hw)
  have hratio := ratio_eq_whole_add (w * n) hworkers
  push_cast at hratio
  have hshare : (1 : ℚ) / (2 * workers) + 1 / (2 * workers) = 1 / workers := by
    field_simp
    norm_num
  have hshare₀ : (0 : ℚ) < 1 / (2 * workers) := by positivity
  have hhalf : (1 : ℚ) / (2 * workers) < 1 := by
    rw [div_lt_one (by positivity)]
    have hone : (1 : ℚ) ≤ workers := by exact_mod_cast hworkers
    linarith
  -- The fraction of the exact product is at most one share below the next integer.
  have hbelow : ((w * n % workers : Nat) : ℚ) / workers + 1 / workers ≤ 1 := by
    rw [← add_div, div_le_one hworkers₀]
    exact_mod_cast Nat.mod_lt (w * n) hworkers
  have habove : (0 : ℚ) ≤ ((w * n % workers : Nat) : ℚ) / workers := by positivity
  have hle : evenCut n workers w ≤ w * n / workers := by
    rw [evenCut_eq, ← Nat.lt_succ_iff, Nat.floor_lt (toRat_nonneg _), Nat.succ_eq_add_one]
    push_cast
    linarith
  have hnext : (product n workers w).toRat < evenCut n workers w + 1 := by
    rw [evenCut_eq]
    exact Nat.lt_floor_add_one _
  refine ⟨hle, ?_, fun hne => ⟨?_, fun hdvd => hne (evenCut_of_dvd hworkers hsmall hw hdvd)⟩⟩
  · have hlt : ((w * n / workers : Nat) : ℚ) < ((evenCut n workers w + 2 : Nat) : ℚ) := by
      push_cast
      linarith
    exact Nat.lt_succ_iff.1 (by exact_mod_cast hlt)
  · -- Any fraction at all is a whole share, which is more than the product is off.
    rw [Nat.dvd_iff_mod_eq_zero]
    by_contra hfraction
    have hone : (1 : ℚ) / workers ≤ ((w * n % workers : Nat) : ℚ) / workers := by
      gcongr
      exact_mod_cast Nat.pos_of_ne_zero hfraction
    refine hne (Nat.le_antisymm hle ?_)
    rw [evenCut_eq]
    refine Nat.le_floor ?_
    linarith

end Cuts

/-! ## The chunks -/

section Chunks

variable {n workers : Nat} (hworkers : 0 < workers) (hsmall : n * workers < 2 ^ 50)

include hworkers hsmall

/-- No cut has to be held back at the end of the list. -/
theorem cut_eq_evenCut {w : Nat} (hw : w < workers) : cut n workers w = evenCut n workers w := by
  have hle := (evenCut_bounds hworkers hsmall hw.le).1
  have hexact : w * n / workers ≤ n := Nat.div_le_of_le_mul (Nat.mul_le_mul_right n hw.le)
  rw [cut, if_pos hw, Nat.min_eq_right (hle.trans hexact)]

theorem cut_bounds {w : Nat} (hw : w ≤ workers) : cut n workers w ≤ w * n / workers ∧
    w * n / workers ≤ cut n workers w + 1 ∧
    (cut n workers w ≠ w * n / workers → workers ∣ w * n ∧ ¬workers ∣ n) := by
  rcases Nat.lt_or_eq_of_le hw with hlt | rfl
  · rw [cut_eq_evenCut hworkers hsmall hlt]
    exact evenCut_bounds hworkers hsmall hw
  · rw [cut_last, Nat.mul_div_cancel_left n hworkers]
    exact ⟨Nat.le_refl n, Nat.le_succ n, fun h => absurd rfl h⟩

/-- The size of a chunk, rounded down or up from the share of a worker. -/
theorem size_chunk {w : Nat} (hw : w < workers) :
    cut n workers (w + 1) - cut n workers w = n / workers ∨
      cut n workers (w + 1) - cut n workers w = n / workers + 1 ∧ ¬workers ∣ n := by
  obtain ⟨hle, hge, hshort⟩ := cut_bounds hworkers hsmall hw.le
  obtain ⟨hle', hge', hshort'⟩ := cut_bounds hworkers hsmall (Nat.succ_le_of_lt hw)
  rw [Nat.succ_mul] at hle' hge' hshort'
  have hsum := Nat.add_div (a := w * n) (b := n) hworkers
  simp only [Nat.dvd_iff_mod_eq_zero] at hshort hshort' ⊢
  have hremainder := Nat.mod_lt (w * n) hworkers
  have hremainder' := Nat.mod_lt n hworkers
  -- The remainders tell whether the exact cuts are one share apart or one term more.
  have hcarry : workers ≤ w * n % workers + n % workers ∧
        (w * n + n) / workers = w * n / workers + n / workers + 1 ∧
        (w * n + n) % workers + workers = w * n % workers + n % workers ∨
      w * n % workers + n % workers < workers ∧
        (w * n + n) / workers = w * n / workers + n / workers ∧
        (w * n + n) % workers = w * n % workers + n % workers := by
    by_cases h : workers ≤ w * n % workers + n % workers
    · rw [if_pos h] at hsum
      exact Or.inl ⟨h, hsum, Nat.add_mod_add_of_le_add_mod h⟩
    · rw [if_neg h] at hsum
      exact Or.inr ⟨Nat.not_le.1 h, hsum, Nat.add_mod_of_add_mod_lt (Nat.not_le.1 h)⟩
  generalize (w * n + n) / workers = next, (w * n + n) % workers = nextRemainder at *
  generalize w * n / workers = exact, w * n % workers = remainder at *
  generalize n / workers = share, n % workers = rest at *
  generalize cut n workers (w + 1) = c', cut n workers w = c at *
  omega

end Chunks

/-- The positions between the cuts, chunk by chunk, are all positions in their order. -/
theorem flatMap_chunks (n : Nat) {workers : Nat} (h : 0 < workers) :
    ((chunks n workers).flatMap fun chunk => List.range' chunk.1 (chunk.2 - chunk.1)) =
      List.range n := by
  have hpiece : ∀ chunk ∈ chunks n workers,
      List.range' chunk.1 (chunk.2 - chunk.1) = piece (List.range n) chunk := by
    intro chunk hchunk
    obtain ⟨w, _, rfl⟩ := List.mem_map.1 hchunk
    have hle := cut_le n workers (w + 1)
    refine List.ext_getElem ?_ fun i _ _ => ?_
    · rw [List.length_range', length_piece _ (by simpa using hle)]
    · simp [piece]
  have hflatten := flatten_assignments (List.range n) h
  rw [assignments, List.length_range, List.map_map] at hflatten
  rw [List.flatMap_def, List.map_congr_left hpiece]
  exact hflatten

/-- For a number of terms and of workers whose product is below `2 ^ 50`, the cuts are the whole
parts of the rounded products of the rounded quotient, and the last one is the end of the list. They
begin at zero, ascend and stay in the list, so the chunks between them are consecutive and have all
positions, each of them once; and every chunk has the size of an equal share, rounded down or up. -/
theorem balanced_chunks (n : Nat) {workers : Nat} (hworkers : 0 < workers)
    (hsmall : n * workers < 2 ^ 50) :
    chunks n workers =
      (List.range workers).map (fun w => (cut n workers w, cut n workers (w + 1))) ∧
    (∀ w < workers, cut n workers w = ⌊(product n workers w).toRat⌋₊ ∧
      (product n workers w).Nearest (w * (quotient n workers).toRat)) ∧
    (quotient n workers).Nearest (n / workers) ∧
    cut n workers workers = n ∧ cut n workers 0 = 0 ∧
    (∀ v w, v ≤ w → cut n workers v ≤ cut n workers w) ∧ (∀ w, cut n workers w ≤ n) ∧
    ((chunks n workers).flatMap fun chunk => List.range' chunk.1 (chunk.2 - chunk.1)) =
      List.range n ∧
    ∀ w < workers, cut n workers (w + 1) - cut n workers w = n / workers ∨
      cut n workers (w + 1) - cut n workers w = (n + workers - 1) / workers := by
  have hproducts : ∀ w < workers, cut n workers w = ⌊(product n workers w).toRat⌋₊ ∧
      (product n workers w).Nearest (w * (quotient n workers).toRat) := by
    intro w hw
    rw [cut_eq_evenCut hworkers hsmall hw]
    exact ⟨evenCut_eq n workers w, nearest_product n workers w⟩
  refine ⟨rfl, hproducts, nearest_quotient n hworkers, cut_last n workers, cut_zero n hworkers,
    fun v w h => cut_mono n workers h, cut_le n workers, flatMap_chunks n hworkers, fun w hw => ?_⟩
  rcases size_chunk hworkers hsmall hw with hdown | ⟨hup, hdvd⟩
  · exact Or.inl hdown
  · right
    have hremainder := Nat.pos_of_ne_zero (mt Nat.dvd_of_mod_eq_zero hdvd)
    have hsplit := Nat.div_add_mod n workers
    have hlt := Nat.mod_lt n hworkers
    rw [hup, eq_comm]
    refine Nat.div_eq_of_lt_le ?_ ?_ <;> rw [Nat.mul_comm] <;> simp only [Nat.mul_add] <;> omega

/-- Two terms for 98 workers: the cut in the middle falls short of `49 * 2 / 98`, so that the first
term goes to the worker behind it, and still no chunk has more than one term and both terms are
there. -/
theorem balanced_two_of_many : cut 2 98 49 = 0 ∧ 49 * 2 / 98 = 1 ∧
    (cut 2 98 49 = ⌊(product 2 98 49).toRat⌋₊ ∧
      (product 2 98 49).Nearest ((49 : Nat) * (quotient 2 98).toRat)) ∧
    (cut 2 98 50 - cut 2 98 49 = 0 ∨ cut 2 98 50 - cut 2 98 49 = 1) ∧
    ((chunks 2 98).flatMap fun chunk => List.range' chunk.1 (chunk.2 - chunk.1)) = [0, 1] := by
  have hworkers : 0 < 98 := by decide
  obtain ⟨-, hproducts, -, -, -, -, -, hcovered, hsizes⟩ :=
    balanced_chunks 2 hworkers (by decide)
  exact ⟨by decide +kernel, rfl, hproducts 49 (by decide), hsizes 49 (by decide), hcovered⟩

end Separable.Partition
