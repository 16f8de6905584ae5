import Separable.Partition
import Separable.Proofs.Rounding

/-!
# Chunks cover a list

The cuts of a list ascend from zero to its length. So the chunks between them are consecutive, and
the pieces of the list that they stand for are, one after another, the whole list: no term is left
out, none is taken twice and none changes its place. This holds for every number of terms and
workers, because rounding is monotone.

## Main results

* `cut_zero`, `cut_mono`: the cuts begin at zero and ascend.
* `consecutive_assignments`: each chunk begins where the one before it ends.
* `flatten_assignments`: the pieces of the chunks make up the list.
-/

namespace Separable.Partition

variable {β : Type}

theorem cut_zero (n : Nat) {workers : Nat} (h : 0 < workers) : cut n workers 0 = 0 := by
  have hfloor : ((Binary.ofRatio n workers).scaled 0).floor = 0 := by
    simp [Binary.scaled, Binary.ofRatio, Binary.floor, Binary.numerator]
  simp [cut, h, evenCut, hfloor]

theorem cut_mono (n workers : Nat) {v w : Nat} (h : v ≤ w) :
    cut n workers v ≤ cut n workers w := by
  by_cases hw : w < workers
  · have hv : v < workers := Nat.lt_of_le_of_lt h hw
    have hfloor : evenCut n workers v ≤ evenCut n workers w :=
      Binary.floor_scaled_mono (Binary.ofRatio n workers) h
    simp only [cut, hv, hw, if_true]
    omega
  · have hlast : cut n workers w = n := by simp [cut, hw]
    rw [hlast]
    exact cut_le n workers v

/-! ## Pieces of a list -/

/-- The part of a list between two positions. -/
def piece (xs : List β) (chunk : Nat × Nat) : List β :=
  (xs.drop chunk.1).take (chunk.2 - chunk.1)

/-- The chunks of a list, each with the part of the list that it stands for. -/
def assignments (xs : List β) (workers : Nat) : List ((Nat × Nat) × List β) :=
  (chunks xs.length workers).map fun chunk => (chunk, piece xs chunk)

/-- Whether chunks follow each other from `start` on, each as long as its piece. -/
def Consecutive : (start : Nat) → List ((Nat × Nat) × List β) → Prop
  | _, [] => True
  | start, (chunk, xs) :: rest =>
    chunk.1 = start ∧ chunk.2 = start + xs.length ∧ Consecutive chunk.2 rest

@[simp] theorem length_assignments (xs : List β) (workers : Nat) :
    (assignments xs workers).length = workers := by
  simp [assignments]

theorem length_piece (xs : List β) {first stop : Nat} (h : stop ≤ xs.length) :
    (piece xs (first, stop)).length = stop - first := by
  simp only [piece, List.length_take, List.length_drop]
  omega

section Cuts

variable (xs : List β) (c : Nat → Nat)

/-- The chunks between ascending cuts, with their pieces. -/
private def between (first count : Nat) : List ((Nat × Nat) × List β) :=
  (List.range' first count).map fun w => ((c w, c (w + 1)), piece xs (c w, c (w + 1)))

private theorem between_succ (first count : Nat) :
    between xs c first (count + 1) =
      ((c first, c (first + 1)), piece xs (c first, c (first + 1))) ::
        between xs c (first + 1) count := by
  simp [between, List.range'_succ]

private theorem consecutive_between (hmono : ∀ {v w}, v ≤ w → c v ≤ c w) (hle : ∀ w, c w ≤ xs.length)
    (first count : Nat) : Consecutive (c first) (between xs c first count) := by
  induction count generalizing first with
  | zero => trivial
  | succ count ih =>
      have hstep : c first ≤ c (first + 1) := hmono (Nat.le_succ first)
      rw [between_succ]
      refine ⟨rfl, ?_, ih (first + 1)⟩
      rw [length_piece xs (hle (first + 1))]
      omega

private theorem flatten_between (hmono : ∀ {v w}, v ≤ w → c v ≤ c w) (first count : Nat) :
    ((between xs c first count).map (·.2)).flatten = piece xs (c first, c (first + count)) := by
  induction count generalizing first with
  | zero => simp [between, piece]
  | succ count ih =>
      have hstep : c first ≤ c (first + 1) := hmono (Nat.le_succ first)
      have hrest : c (first + 1) ≤ c (first + 1 + count) := hmono (Nat.le_add_right _ count)
      have hdrop : xs.drop (c (first + 1)) =
          (xs.drop (c first)).drop (c (first + 1) - c first) := by
        rw [List.drop_drop]
        congr 1
        omega
      have hsplit : c (first + (count + 1)) - c first =
          (c (first + 1) - c first) + (c (first + 1 + count) - c (first + 1)) := by
        rw [show first + (count + 1) = first + 1 + count by omega]
        omega
      rw [between_succ, List.map_cons, List.flatten_cons, ih]
      simp only [piece]
      rw [hsplit, List.take_add, hdrop]

end Cuts

private theorem assignments_eq (xs : List β) (workers : Nat) :
    assignments xs workers = between xs (cut xs.length workers) 0 workers := by
  simp [assignments, between, chunks, List.range_eq_range', Function.comp_def]

theorem consecutive_assignments (xs : List β) {workers : Nat} (h : 0 < workers) :
    Consecutive 0 (assignments xs workers) := by
  have hcuts := consecutive_between xs (cut xs.length workers) (cut_mono xs.length workers)
    (cut_le xs.length workers) 0 workers
  rw [cut_zero xs.length h] at hcuts
  rw [assignments_eq]
  exact hcuts

theorem flatten_assignments (xs : List β) {workers : Nat} (h : 0 < workers) :
    ((assignments xs workers).map (·.2)).flatten = xs := by
  rw [assignments_eq, flatten_between xs _ (cut_mono xs.length workers)]
  simp [piece, cut_zero xs.length h, cut_last]

end Separable.Partition
