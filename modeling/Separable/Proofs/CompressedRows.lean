import Separable.Proofs.Exact
import Separable.Proofs.SparseLibrary

/-!
# The matrix that compressed rows stand for

A sparse matrix by rows is read back as a matrix with an entry at every place: an entry is what the
values of its row add up to in its column, so a column that is present several times counts several
times, and one that is absent counts as zero. In exact arithmetic, in which the order of a sum does
not matter, collecting triplets by rows keeps what they add up to at every place.

## Main results

* `total_summed`, `total_entriesIn`: what a row adds up to in a column, and what its triplets do.
* `expanded_of_assemble`: an assembled matrix has the sums of the triplets as its entries.
-/

namespace Separable

open Scalar

variable {α : Type} [Scalar α]

/-- An entry of a matrix, zero outside of it. -/
def entryAt (matrix : Block α) (r c : Nat) : α := (matrix.getD r []).getD c 0

section Extents

variable {rows columns : Nat} {matrix : Block α}
  (h : rowLengths matrix = List.replicate rows columns)

include h

omit [Scalar α] in
theorem length_of_rowLengths : matrix.length = rows := by
  simpa [rowLengths] using congrArg List.length h

omit [Scalar α] in
theorem length_row_of_rowLengths : ∀ row ∈ matrix, row.length = columns := by
  intro row hrow
  have hmem : row.length ∈ rowLengths matrix := List.mem_map_of_mem hrow
  exact (List.mem_replicate.1 (h ▸ hmem)).2

/-- Matrices of the same extents are equal if their entries are. -/
theorem ext_entryAt {other : Block α} (hother : rowLengths other = List.replicate rows columns)
    (heq : ∀ r < rows, ∀ c < columns, entryAt matrix r c = entryAt other r c) : matrix = other := by
  have hlength := length_of_rowLengths h
  have hlength' := length_of_rowLengths hother
  refine List.ext_getElem (hlength.trans hlength'.symm) fun r hr hr' => ?_
  have hrow := length_row_of_rowLengths h _ (List.getElem_mem hr)
  have hrow' := length_row_of_rowLengths hother _ (List.getElem_mem hr')
  refine ext_getD (hrow.trans hrow'.symm) fun c hc => ?_
  have hentry := heq r (hlength ▸ hr) c (hrow ▸ hc)
  simpa [entryAt, List.getD_eq_getElem?_getD, hr, hr'] using hentry

end Extents

namespace CompressedRows

/-- What the entries of a row add up to in a column. -/
def total (column : Nat) (entries : List (Nat × α)) : α :=
  sum (entries.map fun (c, value) => if c = column then value else 0)

/-- The matrix with an entry at every place. -/
def expanded (matrix : CompressedRows α) : Block α :=
  (List.range matrix.shape.1).map fun r =>
    (List.range matrix.shape.2).map fun c => total c (matrix.entriesOf r)

theorem rowLengths_expanded (matrix : CompressedRows α) :
    rowLengths matrix.expanded = List.replicate matrix.shape.1 matrix.shape.2 := by
  simp [rowLengths, expanded, Function.comp_def]

theorem entryAt_expanded (matrix : CompressedRows α) {r c : Nat} (hr : r < matrix.shape.1)
    (hc : c < matrix.shape.2) : entryAt matrix.expanded r c = total c (matrix.entriesOf r) := by
  simp [entryAt, expanded, List.getD_eq_getElem?_getD, hr, hc]

/-! ## Rows -/

variable [ExactAddition α] [Std.Commutative fun a b : α => a + b]

omit [ExactAddition α] in
theorem add_swap (a b : α) : a + b = b + a :=
  (inferInstance : Std.Commutative fun a b : α => a + b).comm a b

omit [Std.Commutative fun a b : α => a + b] in
theorem total_cons (column c : Nat) (value : α) (entries : List (Nat × α)) :
    total column ((c, value) :: entries) =
      (if c = column then value else 0) + total column entries :=
  sum_cons _ _

theorem total_insert (column c : Nat) (value : α) (entries : List (Nat × α)) :
    total column (insert c value entries) =
      (if c = column then value else 0) + total column entries := by
  fun_induction insert c value entries with
  | case1 => exact total_cons column c value []
  | case2 d v rest hlt => exact total_cons column c value _
  | case3 v rest hlt =>
      rw [total_cons, total_cons, ← ExactAddition.add_assoc, add_swap v]
      congr 1
      split
      · rfl
      · exact (ExactAddition.add_zero 0).symm
  | case4 d v rest hlt hne ih =>
      rw [total_cons, total_cons, ih, ← ExactAddition.add_assoc, ← ExactAddition.add_assoc,
        add_swap (if d = column then v else 0)]

/-- Adding up by columns keeps what a row adds up to. -/
theorem total_summed (column : Nat) (entries : List (Nat × α)) :
    total column (summed entries) = total column entries := by
  have hstart (row : List (Nat × α)) :
      total column (entries.foldl (fun row entry => insert entry.1 entry.2 row) row) =
        total column row + total column entries := by
    induction entries generalizing row with
    | nil => exact (ExactAddition.add_zero _).symm
    | cons entry rest ih =>
        obtain ⟨c, value⟩ := entry
        rw [List.foldl_cons, ih, total_insert, total_cons, ← ExactAddition.add_assoc]
        congr 1
        exact add_swap _ _
  rw [summed, hstart, show total column ([] : List (Nat × α)) = 0 from rfl,
    ExactAddition.zero_add]

omit [Std.Commutative fun a b : α => a + b] in
/-- What the triplets of a row add up to. -/
theorem total_entriesIn (r column : Nat) (triplets : List (Nat × Nat × α)) :
    total column (entriesIn r triplets) = sum (triplets.map fun (i, c, value) =>
      if i = r ∧ c = column then value else 0) := by
  induction triplets with
  | nil => rfl
  | cons triplet rest ih =>
      obtain ⟨i, c, value⟩ := triplet
      rw [List.map_cons, sum_cons, ← ih, entriesIn, List.filterMap_cons]
      by_cases hi : i = r
      · simp only [hi, if_true, true_and]
        exact total_cons column c value _
      · simp only [hi, if_false, false_and, ExactAddition.zero_add]
        rfl

/-- An assembled matrix has the sums of the triplets as its entries. -/
theorem expanded_of_assemble {α : Type} [Backend α] [ExactAddition α]
    [Std.Commutative fun a b : α => a + b] {places : Coordinates} {values : List α}
    (hplaces : places.Inside) (hvalues : values.length = places.rows.length) :
    ∃ matrix, assemble places values = .ok matrix ∧ matrix.shape = places.shape ∧
      ∀ r < places.shape.1, ∀ c < places.shape.2, entryAt matrix.expanded r c =
        sum ((triplets places values).map fun (i, j, value) =>
          if i = r ∧ j = c then value else 0) := by
  refine ⟨_, assemble_eq hplaces hvalues, rfl, fun r hr c hc => ?_⟩
  rw [entryAt_expanded _ hr hc, entriesOf_ofRows _ _ (by simpa using hr), ← total_entriesIn]
  simp [List.getD_eq_getElem?_getD, hr, row, total_summed]

end CompressedRows

end Separable
