import Separable.Binary

/-!
# Chunks of work

A list of `n` terms is cut into one contiguous chunk per worker. The cuts are spread evenly, in
binary arithmetic of limited precision: cut `w` of `k` is the whole part of `w * (n / k)`, with
the quotient and the product both rounded, and the last cut is `n`.

## Main results

* `cut_le`: no cut lies beyond the end of the list.
* `cut_last`: the last cut is the end of the list.
-/

namespace Separable.Partition

/-- The whole part of `w * (n / workers)`, both operations rounded. -/
def evenCut (n workers w : Nat) : Nat := ((Binary.ofRatio n workers).scaled w).floor

/-- Where the chunk of worker `w` begins. -/
def cut (n workers w : Nat) : Nat := if w < workers then min n (evenCut n workers w) else n

/-- First position and end of each worker's chunk. -/
def chunks (n workers : Nat) : List (Nat × Nat) :=
  (List.range workers).map fun w => (cut n workers w, cut n workers (w + 1))

theorem cut_le (n workers w : Nat) : cut n workers w ≤ n := by
  unfold cut
  split
  · exact Nat.min_le_left _ _
  · exact Nat.le_refl _

theorem cut_last (n workers : Nat) : cut n workers workers = n := by
  simp [cut]

@[simp] theorem length_chunks (n workers : Nat) : (chunks n workers).length = workers := by
  simp [chunks]

end Separable.Partition
