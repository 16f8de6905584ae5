import Separable.CompressedRows

/-!
# The library that compresses triplets

Triplets are turned into compressed rows by a library of sparse matrices, in three passes: they are
put into their rows, the columns of each row are brought into ascending order, and the entries of
one column, which are neighbours then, are merged into one. A `SparseLibrary` is any such library.
Only what is documented of each pass is known of it, and only for matrices as the pass before leaves
them:

* the first pass keeps the order of the triplets of a row (`bucket_eq`);
* the second one keeps the order of the entries of one column (`sortColumns_eq`);
* the third one adds the values of a run from left to right, beginning with the first of them, and
  drops no entry that is zero (`mergeRuns_eq`).

Whatever assembles sparse matrices runs over a `Backend`, an arithmetic together with such a
library. `SparseLibrary.standard` is the one that is executed.

## Main results

* `sortedFrom_byColumns`: a stable sort by columns does what the second pass has to do.
-/

namespace Separable

namespace CompressedRows

variable {α : Type}

/-- Whether these can be the entries of the rows of a matrix. -/
structure Lie (shape : Nat × Nat) (rows : List (List (Nat × α))) : Prop where
  length : rows.length = shape.1
  columns : ∀ row ∈ rows, ∀ entry ∈ row, entry.1 < shape.2

/-- Whether `sorted` has the entries of `row` by ascending columns, and those of each column in
their order. -/
structure SortedFrom (row sorted : List (Nat × α)) : Prop where
  ascending : (sorted.map (·.1)).Pairwise (· ≤ ·)
  stable : ∀ c, sorted.filter (·.1 = c) = row.filter (·.1 = c)

/-- The entry that is being merged, and what follows it. -/
def mergedFrom [Add α] (column : Nat) (value : α) : List (Nat × α) → List (Nat × α)
  | [] => [(column, value)]
  | (c, v) :: rest =>
    if c = column then mergedFrom column (value + v) rest
    else (column, value) :: mergedFrom c v rest

/-- A row in which neighbours of one column are one entry. -/
def merged [Add α] : List (Nat × α) → List (Nat × α)
  | [] => []
  | (c, v) :: rest => mergedFrom c v rest

/-- The entries of a row by ascending columns, those of one column in their order. -/
def byColumns (row : List (Nat × α)) : List (Nat × α) :=
  row.mergeSort fun a b => a.1 ≤ b.1

private theorem le_columns_trans (a b c : Nat × α) :
    decide (a.1 ≤ b.1) = true → decide (b.1 ≤ c.1) = true → decide (a.1 ≤ c.1) = true := by
  simpa using Nat.le_trans

private theorem le_columns_total (a b : Nat × α) :
    (decide (a.1 ≤ b.1) || decide (b.1 ≤ a.1)) = true := by
  simp [Nat.le_total]

theorem sortedFrom_byColumns (row : List (Nat × α)) : SortedFrom row (byColumns row) where
  ascending := List.pairwise_map.2 ((List.pairwise_mergeSort le_columns_trans le_columns_total
    row).imp of_decide_eq_true)
  stable := by
    intro c
    -- The entries of one column are sorted already, so they keep their order.
    have hsorted : (row.filter (·.1 = c)).Pairwise fun a b => decide (a.1 ≤ b.1) = true := by
      refine List.pairwise_iff_forall_sublist.2 fun {a b} hab => ?_
      have ha := (List.mem_filter.1 (hab.subset List.mem_cons_self)).2
      have hb := (List.mem_filter.1 (hab.subset (List.mem_cons_of_mem _ List.mem_cons_self))).2
      simp_all
    have hsub : (row.filter (·.1 = c)).Sublist (byColumns row) :=
      List.sublist_mergeSort le_columns_trans le_columns_total hsorted List.filter_sublist
    have hfilter := hsub.filter (·.1 = c)
    rw [List.filter_filter] at hfilter
    simp only [Bool.and_self] at hfilter
    exact (hfilter.eq_of_length ((List.mergeSort_perm row _).filter _).length_eq.symm).symm

end CompressedRows

open CompressedRows

/-- The three passes by which triplets become compressed rows, and what is documented of them. -/
structure SparseLibrary (α : Type) [Add α] where
  bucket : Coordinates → List α → CompressedRows α
  sortColumns : CompressedRows α → CompressedRows α
  mergeRuns : CompressedRows α → CompressedRows α
  /-- Triplets that lie in the matrix go into their rows, in the order in which they come. -/
  bucket_eq : ∀ (places : Coordinates) (values : List α), places.Inside →
    values.length = places.size →
    bucket places values = ofRows places.shape
      ((List.range places.shape.1).map fun r => entriesIn r (triplets places values))
  /-- Each row is sorted by its columns, and the entries of one column keep their order. -/
  sortColumns_eq : ∀ (shape : Nat × Nat) (rows : List (List (Nat × α))), Lie shape rows →
    ∃ sorted, sortColumns (ofRows shape rows) = ofRows shape sorted ∧
      sorted.length = rows.length ∧ ∀ r, SortedFrom (rows.getD r []) (sorted.getD r [])
  /-- Where the columns ascend the runs of each row are merged. -/
  mergeRuns_eq : ∀ (shape : Nat × Nat) (rows : List (List (Nat × α))), Lie shape rows →
    (∀ row ∈ rows, (row.map (·.1)).Pairwise (· ≤ ·)) →
    mergeRuns (ofRows shape rows) = ofRows shape (rows.map merged)

namespace SparseLibrary

variable {α : Type} [Add α]

/-- A library that does what is documented, and leaves every other matrix as it comes. -/
def standard : SparseLibrary α where
  bucket places values := ofRows places.shape
    ((List.range places.shape.1).map fun r => entriesIn r (triplets places values))
  sortColumns := mapEntries byColumns
  mergeRuns := mapEntries merged
  bucket_eq _ _ _ _ := rfl
  sortColumns_eq _ rows h := by
    refine ⟨rows.map byColumns, mapEntries_ofRows _ h.length, List.length_map _, fun r => ?_⟩
    have hrow : (rows.map byColumns).getD r [] = byColumns (rows.getD r []) := by
      simp only [List.getD_eq_getElem?_getD, List.getElem?_map]
      cases rows[r]? <;> simp [byColumns]
    exact hrow ▸ sortedFrom_byColumns _
  mergeRuns_eq _ _ h _ := mapEntries_ofRows _ h.length

variable (library : SparseLibrary α)

/-- Brings the columns of each row into order, and merges the entries of one column. -/
def sumDuplicates (matrix : CompressedRows α) : CompressedRows α :=
  library.mergeRuns (library.sortColumns matrix)

/-- Triplets by rows, without duplicates. -/
def compress (places : Coordinates) (values : List α) : CompressedRows α :=
  library.sumDuplicates (library.bucket places values)

end SparseLibrary

/-- An arithmetic, and a library that assembles sparse matrices of its scalars. -/
class Backend (α : Type) extends Scalar α where
  sparse : SparseLibrary α

instance : Backend Float where
  sparse := .standard

namespace CompressedRows

variable {α : Type} [Backend α]

/-- The matrix that the triplets add up to. Duplicates are summed once more after the conversion,
which leaves none. -/
def assemble (places : Coordinates) (values : List α) : Except Fault (CompressedRows α) :=
  if values.length ≠ places.rows.length then .error .sizeMismatch
  else if places.columns.length ≠ places.rows.length then .error .tripletLengths
  else .ok (Backend.sparse.sumDuplicates (Backend.sparse.compress places values))

/-- The matrix that triplets from outside add up to. -/
def ofTriplets (rows columns : List Int) (shape : Int × Int) (values : Supplied (List α)) :
    Except Fault (CompressedRows α) :=
  if !(rows.all isIndex && columns.all isIndex) then .error .integerTooWide
  else
    values.bind fun values =>
      if values.length ≠ rows.length then .error .sizeMismatch
      else (Coordinates.ofIndices rows columns shape).bind fun places => assemble places values

end CompressedRows

end Separable
