import Separable.Proofs.CompressedRows

/-!
# How often a place is hit

Triplets that meet at a place of a sparse matrix are added up, but the place stays one place. Which
places a matrix has is therefore a matter of the coordinates alone, and is seen best if the triplets
of each column are counted instead of added: `countRow` adds up ones, as natural numbers, in the
same way as `row` adds up the values. It has the same columns, and with each of them how many
triplets it got.

If all triplets have the value one, then the values that are kept are those counts, each of them as
so many ones added up from left to right (`tally`). In exact arithmetic that is the number itself,
and all of them add up to the number of triplets.

## Main results

* `map_fst_row`: a row has the columns that are counted, whatever the values are.
* `row_ones`: a row of ones has the counts as its values.
* `mem_countRow`: the columns are those that are hit, each with the number of its triplets.
* `same_structure`: two matrices that are assembled at the same places have the same structure.
* `sum_counts`: the counts of all rows add up to the number of triplets.
-/

namespace Separable

open Scalar

variable {α : Type} [Scalar α]

/-! ## Ones -/

namespace Scalar

/-- So many ones, added up from left to right. -/
def tally : Nat → α
  | 0 => 0
  | 1 => 1
  | n + 2 => tally (n + 1) + 1

theorem tally_succ {n : Nat} (h : 0 < n) : (tally (n + 1) : α) = tally n + 1 := by
  cases n with
  | zero => cases h
  | succ n => rfl

theorem tally_real (n : Nat) : (tally n : ℝ) = n := by
  induction n with
  | zero => simp [tally]
  | succ n ih =>
      rcases Nat.eq_zero_or_pos n with rfl | hn
      · simp [tally]
      · rw [tally_succ hn, ih, Nat.cast_succ]

section Exact

variable [ExactAddition α]

theorem tally_add (m n : Nat) : (tally (m + n) : α) = tally m + tally n := by
  have hsucc (k : Nat) : (tally (k + 1) : α) = tally k + 1 := by
    rcases Nat.eq_zero_or_pos k with rfl | hk
    · exact (ExactAddition.zero_add 1).symm
    · exact tally_succ hk
  induction n with
  | zero => exact (ExactAddition.add_zero _).symm
  | succ n ih => rw [← Nat.add_assoc, hsucc, ih, hsucc, ExactAddition.add_assoc]

theorem sum_tally (counts : List Nat) : sum (counts.map tally) = (tally counts.sum : α) := by
  induction counts with
  | nil => rfl
  | cons n counts ih => rw [List.map_cons, sum_cons, ih, List.sum_cons, tally_add]

end Exact

end Scalar

namespace CompressedRows

/-! ## Counting the triplets of a row -/

/-- The columns of row `r` that are hit, each with the number of triplets there: ones that are added
up as natural numbers. -/
def countRow (r : Nat) (places : List (Nat × Nat)) : List (Nat × Nat) :=
  row r (places.map fun (i, c) => (i, c, 1))

theorem countRow_append_singleton (r : Nat) (places : List (Nat × Nat)) (place : Nat × Nat) :
    countRow r (places ++ [place]) =
      if place.1 = r then insert place.2 1 (countRow r places) else countRow r places := by
  rw [countRow, List.map_append, List.map_singleton, row_append_singleton]
  rfl

/-- Which columns a row gets does not depend on its values. -/
theorem map_fst_insert {β : Type} [Add β] (column : Nat) (value : α) (other : β)
    {entries : List (Nat × α)} {others : List (Nat × β)}
    (h : entries.map (·.1) = others.map (·.1)) :
    (insert column value entries).map (·.1) = (insert column other others).map (·.1) := by
  induction entries generalizing others with
  | nil =>
      cases others with
      | nil => rfl
      | cons entry' others => cases h
  | cons entry entries ih =>
      cases others with
      | nil => cases h
      | cons entry' others =>
          obtain ⟨c, v⟩ := entry
          obtain ⟨d, w⟩ := entry'
          obtain ⟨rfl, hrest⟩ := List.cons.inj h
          simp only [insert]
          split
          · simp [hrest]
          · split
            · simp [hrest]
            · simp [ih hrest]

/-- A row has the columns that are counted, whatever the values are. -/
theorem map_fst_row (r : Nat) (triplets : List (Nat × Nat × α)) :
    (row r triplets).map (·.1) =
      (countRow r (triplets.map fun (i, c, _) => (i, c))).map (·.1) := by
  induction triplets using List.reverseRecOn with
  | nil => rfl
  | append_singleton triplets t ih =>
      rw [List.map_append, List.map_singleton, row_append_singleton, countRow_append_singleton]
      split
      · exact map_fst_insert _ _ _ ih
      · exact ih

/-! ## What is counted -/

theorem sum_insert (column value : Nat) (counts : List (Nat × Nat)) :
    ((insert column value counts).map (·.2)).sum = (counts.map (·.2)).sum + value := by
  fun_induction insert column value counts <;> grind

theorem valuesAt_ones (r c : Nat) (places : List (Nat × Nat)) :
    valuesAt r c (places.map fun (i, j) => (i, j, 1)) = List.replicate (places.count (r, c)) 1 := by
  induction places with
  | nil => rfl
  | cons place rest ih =>
      obtain ⟨i, j⟩ := place
      rw [List.map_cons, valuesAt, List.filterMap_cons, List.count_cons]
      by_cases hhit : i = r ∧ j = c
      · simp only [hhit, and_self, if_true, beq_self_eq_true, List.replicate_succ]
        exact congrArg _ ih
      · simpa [hhit, valuesAt] using ih

theorem sumFromFirst?_ones (n : Nat) :
    sumFromFirst? (List.replicate (n + 1) 1) = some (n + 1) := by
  induction n with
  | zero => rfl
  | succ n ih =>
      rw [List.replicate_succ', sumFromFirst?_append_singleton, ih]
      rfl

section Row

variable (r : Nat) (places : List (Nat × Nat))

theorem ascending_countRow : ((countRow r places).map (·.1)).Pairwise (· < ·) :=
  ascending_row r _

/-- The columns of a row are those that are hit, and each is counted as often as it is hit. -/
theorem mem_countRow (c n : Nat) :
    (c, n) ∈ countRow r places ↔ 0 < n ∧ n = places.count (r, c) := by
  rw [countRow, mem_row, valuesAt_ones]
  cases places.count (r, c) with
  | zero =>
      have hnone : sumFromFirst? (List.replicate 0 1) = (none : Option Nat) := rfl
      rw [hnone]
      simp only [reduceCtorEq, false_iff]
      omega
  | succ count =>
      rw [sumFromFirst?_ones, Option.some.injEq]
      omega

theorem pos_countRow : ∀ p ∈ countRow r places, 0 < p.2 :=
  fun _ hp => ((mem_countRow r places _ _).1 hp).1

theorem sum_countRow : ((countRow r places).map (·.2)).sum = places.countP (·.1 = r) := by
  induction places using List.reverseRecOn with
  | nil => rfl
  | append_singleton places place ih =>
      rw [countRow_append_singleton, List.countP_append, ← ih]
      by_cases hr : place.1 = r <;> simp [hr, sum_insert]

/-- A row of ones has the counts as its values. -/
theorem row_ones : row r (places.map fun (i, c) => (i, c, (1 : α))) =
    (countRow r places).map fun (c, n) => (c, tally n) := by
  have hinsert {column : Nat} {counts : List (Nat × Nat)} (h : ∀ p ∈ counts, 0 < p.2) :
      insert column (1 : α) (counts.map fun (c, n) => (c, tally n)) =
        (insert column 1 counts).map fun (c, n) => (c, tally n) := by
    fun_induction insert column 1 counts with
    | case1 => rfl
    | case2 c n rest hlt => simp [insert, hlt, tally]
    | case3 n rest hlt =>
        simp [insert, tally_succ (h (column, n) (by simp))]
    | case4 c n rest hlt hne ih =>
        simp [insert, hlt, hne, ih fun p hp => h p (List.mem_cons_of_mem _ hp)]
  induction places using List.reverseRecOn with
  | nil => rfl
  | append_singleton places place ih =>
      rw [List.map_append, List.map_singleton, row_append_singleton, countRow_append_singleton, ih]
      by_cases hr : place.1 = r
      · simpa [hr] using hinsert (pos_countRow r places)
      · simp [hr]

end Row

/-- Each triplet is counted in one row. -/
theorem sum_counts {places : List (Nat × Nat)} {n : Nat} (h : ∀ place ∈ places, place.1 < n) :
    ((List.range n).map fun r => ((countRow r places).map (·.2)).sum).sum = places.length := by
  simp only [sum_countRow]
  induction places with
  | nil => simp
  | cons place places ih =>
      obtain ⟨hplace, hrest⟩ := List.forall_mem_cons.1 h
      have hone : ((List.range n).map fun r => if place.1 = r then 1 else 0).sum = 1 := by
        show ∑ r ∈ Finset.range n, (if place.1 = r then 1 else 0) = 1
        rw [Finset.sum_ite_eq, if_pos (Finset.mem_range.2 hplace)]
      simp only [List.countP_cons, decide_eq_true_eq, List.sum_map_add, ih hrest, hone,
        List.length_cons]

/-! ## Assembled matrices -/

/-- The places of some triplets. -/
def hits (places : Coordinates) : List (Nat × Nat) := places.rows.zip places.columns

section Assembled

variable {α : Type} [Backend α] {places : Coordinates} {values : List α}
  {matrix : CompressedRows α}

theorem exists_assemble (hvalues : values.length = places.rows.length)
    (hcolumns : places.columns.length = places.rows.length) :
    ∃ matrix, assemble places values = .ok matrix := by
  simp [assemble, hvalues, hcolumns]

/-- What an assembled matrix is made of. -/
theorem of_assemble_eq_ok (hplaces : places.Inside) (h : assemble places values = .ok matrix) :
    (triplets places values).map (fun (i, c, _) => (i, c)) = hits places ∧
      matrix = ofRows places.shape
        ((List.range places.shape.1).map fun r => row r (triplets places values)) := by
  have hvalues : values.length = places.rows.length := by
    by_contra hne
    rw [assemble, if_pos hne] at h
    cases h
  refine ⟨?_, (Except.ok.inj ((assemble_eq hplaces hvalues).symm.trans h)).symm⟩
  have hsecond : (places.columns.zip values).map Prod.fst = places.columns :=
    List.map_fst_zip (by rw [hvalues, hplaces.length_columns])
  rw [hits, triplets]
  conv_rhs => rw [← hsecond, List.zip_map_right]
  rfl

section Structure

variable (hplaces : places.Inside) (h : assemble places values = .ok matrix)

include hplaces h

/-- The columns of a row are those that are counted, whatever the values are. -/
theorem map_fst_entriesOf {r : Nat} (hr : r < places.shape.1) :
    (matrix.entriesOf r).map (·.1) = (countRow r (hits places)).map (·.1) := by
  obtain ⟨hhits, rfl⟩ := of_assemble_eq_ok hplaces h
  rw [entriesOf_ofRows _ _ (by simpa using hr), ← hhits, ← map_fst_row]
  simp [List.getD_eq_getElem?_getD, hr]

/-- Two matrices that are assembled at the same places have the same structure. -/
theorem same_structure {others : List α} {other : CompressedRows α}
    (h' : assemble places others = .ok other) :
    matrix.shape = other.shape ∧ matrix.starts = other.starts ∧ matrix.columns = other.columns := by
  obtain ⟨hhits, rfl⟩ := of_assemble_eq_ok hplaces h
  obtain ⟨hhits', rfl⟩ := of_assemble_eq_ok hplaces h'
  have hrows : ((List.range places.shape.1).map fun r =>
        row r (triplets places values)).map (List.map (·.1)) =
      ((List.range places.shape.1).map fun r =>
        row r (triplets places others)).map (List.map (·.1)) := by
    simp only [List.map_map]
    refine List.map_congr_left fun r _ => ?_
    rw [Function.comp_apply, Function.comp_apply, map_fst_row, map_fst_row, hhits, hhits']
  have hlengths (rows : List (List (Nat × α))) :
      rows.map List.length = (rows.map (List.map (·.1))).map List.length := by
    simp [Function.comp_def]
  refine ⟨rfl, ?_, ?_⟩
  · simp only [ofRows]
    rw [hlengths, hlengths (List.map _ _), hrows]
  · simp only [ofRows, List.map_flatten]
    rw [hrows]

end Structure

section Ones

variable (hplaces : places.Inside)
  (h : assemble places (List.replicate places.size 1) = .ok matrix)

include hplaces h

private theorem rows_of_ones :
    (List.range places.shape.1).map (fun r =>
        row r (triplets places (List.replicate places.size (1 : α)))) =
      (List.range places.shape.1).map fun r =>
        (countRow r (hits places)).map fun (c, n) => (c, tally n) := by
  obtain ⟨hhits, -⟩ := of_assemble_eq_ok hplaces h
  have hone : ∀ t ∈ triplets places (List.replicate places.size (1 : α)),
      t = (t.1, t.2.1, 1) := fun t ht => by
    have hvalue := List.eq_of_mem_replicate (List.of_mem_zip (List.of_mem_zip ht).2).2
    rw [← hvalue]
  refine List.map_congr_left fun r _ => ?_
  rw [← row_ones, ← hhits, List.map_map]
  congr 1
  conv_lhs => rw [← List.map_id (triplets places _)]
  exact List.map_congr_left hone

/-- A matrix of ones has the counts as its values. -/
theorem entriesOf_ones {r : Nat} (hr : r < places.shape.1) :
    matrix.entriesOf r = (countRow r (hits places)).map fun (c, n) => (c, tally n) := by
  obtain ⟨-, hmatrix⟩ := of_assemble_eq_ok hplaces h
  rw [hmatrix, entriesOf_ofRows _ _ (by simpa using hr), rows_of_ones hplaces h]
  simp [List.getD_eq_getElem?_getD, hr]

/-- The values of a matrix of ones count the triplets, each of them once. -/
theorem values_ones :
    ∃ counts : List Nat, matrix.values = counts.map tally ∧ counts.sum = (hits places).length := by
  obtain ⟨-, hmatrix⟩ := of_assemble_eq_ok hplaces h
  refine ⟨(List.range places.shape.1).flatMap fun r => (countRow r (hits places)).map (·.2), ?_, ?_⟩
  · rw [hmatrix, ofRows, rows_of_ones hplaces h]
    simp [List.flatMap_def, List.map_flatten, Function.comp_def]
  · rw [List.flatMap_def, List.sum_flatten, List.map_map]
    exact sum_counts fun place hplace => hplaces.rows _ (List.of_mem_zip hplace).1

end Ones

end Assembled

end CompressedRows

end Separable
