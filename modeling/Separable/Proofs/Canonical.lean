import Mathlib.Data.List.GetD
import Separable.Proofs.Multiplicity

/-!
# The canonical form of compressed rows

There are many ways to write a sparse matrix by rows, and one of them is canonical: the row starts
ascend from zero to the number of stored entries, and the columns of every row ascend strictly, so
that no place is stored twice. Assembling triplets always ends in this form, whichever library makes
the passes.

A row stores in each column the sum of the values that came with it, from left to right and
beginning with the first of them (`sumFromFirst?`), and stores nothing exactly where no triplet
lies. A sum that is zero is stored like any other. In exact arithmetic two triplets can be exchanged
(`insert_swap`), so only their multiset matters.

## Main results

* `canonical_ofRows`: a matrix that is put together from ascending rows is canonical.
* `row_perm`: in exact arithmetic the order of the triplets does not matter.
* `ofTriplets_eq_assemble`: triplets from outside that lie in the matrix are assembled as they are.
* `canonical_of_assemble`: all that is true of an assembled matrix.
-/

namespace Separable

open Scalar

namespace CompressedRows

section Matrices

variable {α : Type} [Scalar α]

section Exact

variable [ExactAddition α] [Std.Commutative fun a b : α => a + b]

theorem insert_swap (c d : Nat) (v w : α) (entries : List (Nat × α)) :
    insert c v (insert d w entries) = insert d w (insert c v entries) := by
  have hswap (a : α) : a + v + w = a + w + v := by
    rw [ExactAddition.add_assoc, ExactAddition.add_assoc, add_swap v]
  have hcomm := add_swap v w
  induction entries with
  | nil => grind [insert]
  | cons entry rest ih => grind [insert]

/-- The order of the triplets does not matter. -/
theorem row_perm (r : Nat) {triplets others : List (Nat × Nat × α)} (h : triplets.Perm others) :
    row r triplets = row r others :=
  (h.filterMap _).foldl_eq' (fun _ _ _ _ _ => insert_swap _ _ _ _ _) []

end Exact

/-! ## The canonical form -/

omit [Scalar α] in
/-- Whether a matrix by rows is in the canonical form. -/
structure Canonical (matrix : CompressedRows α) : Prop where
  length_starts : matrix.starts.length = matrix.shape.1 + 1
  first : matrix.starts.head? = some 0
  ascending : matrix.starts.Pairwise (· ≤ ·)
  last : matrix.starts.getLast? = some matrix.values.length
  length_columns : matrix.columns.length = matrix.values.length
  columns : ∀ r < matrix.shape.1, ((matrix.entriesOf r).map (·.1)).Pairwise (· < ·)
  inside : ∀ c ∈ matrix.columns, c < matrix.shape.2

theorem head?_runningTotals (start : Nat) (lengths : List Nat) :
    (runningTotals start lengths).head? = some start := by
  cases lengths <;> rfl

theorem getLast?_runningTotals (start : Nat) (lengths : List Nat) :
    (runningTotals start lengths).getLast? = some (start + lengths.sum) := by
  induction lengths generalizing start with
  | nil => rfl
  | cons length rest ih =>
      rw [runningTotals, List.getLast?_cons, ih, List.sum_cons, Option.getD_some, Nat.add_assoc]

theorem ascending_runningTotals (start : Nat) (lengths : List Nat) :
    (runningTotals start lengths).Pairwise (· ≤ ·) ∧
      ∀ total ∈ runningTotals start lengths, start ≤ total := by
  induction lengths generalizing start with
  | nil => simp [runningTotals]
  | cons length rest ih =>
      obtain ⟨hascending, hle⟩ := ih (start + length)
      have hstart : ∀ total ∈ runningTotals (start + length) rest, start ≤ total :=
        fun total htotal => (Nat.le_add_right start length).trans (hle total htotal)
      exact ⟨List.pairwise_cons.2 ⟨hstart, hascending⟩,
        List.forall_mem_cons.2 ⟨Nat.le_refl start, hstart⟩⟩

omit [Scalar α] in
/-- A matrix that is put together from ascending rows is canonical. -/
theorem canonical_ofRows {shape : Nat × Nat} {rows : List (List (Nat × α))}
    (hlength : rows.length = shape.1)
    (hascending : ∀ row ∈ rows, (row.map (·.1)).Pairwise (· < ·))
    (hinside : ∀ row ∈ rows, ∀ c ∈ row.map (·.1), c < shape.2) : (ofRows shape rows).Canonical where
  length_starts := by simp [ofRows, length_runningTotals, hlength]
  first := head?_runningTotals _ _
  ascending := (ascending_runningTotals _ _).1
  last := by
    show (runningTotals 0 (rows.map List.length)).getLast? = some (rows.flatten.map (·.2)).length
    rw [getLast?_runningTotals, List.length_map, List.length_flatten, Nat.zero_add]
  length_columns := by
    show (rows.flatten.map (·.1)).length = (rows.flatten.map (·.2)).length
    rw [List.length_map, List.length_map]
  columns := by
    intro r hr
    have hr' : r < rows.length := hlength.symm ▸ hr
    rw [entriesOf_ofRows _ _ hr', List.getD_eq_getElem _ _ hr']
    exact hascending _ (List.getElem_mem hr')
  inside := by
    intro c hc
    obtain ⟨entry, hentry, rfl⟩ := List.mem_map.1 hc
    obtain ⟨row, hrow, hmem⟩ := List.mem_flatten.1 hentry
    exact hinside row hrow _ (List.mem_map_of_mem hmem)

end Matrices

/-! ## Triplets from outside -/

variable {α : Type} [Backend α]

theorem isIndex_of_lt {i : Int} (h : 0 ≤ i) (hlt : i < indexBound) : isIndex i = true := by
  have hbound : (0 : Int) ≤ indexBound := Int.natCast_nonneg _
  simp only [isIndex, Bool.and_eq_true, decide_eq_true_eq]
  omega

theorem all_isIndex {indices : List Nat} {extent : Nat} (h : ∀ i ∈ indices, i < extent)
    (hextent : (extent : Int) < indexBound) :
    (indices.map (Nat.cast : Nat → Int)).all isIndex = true := by
  rw [List.all_eq_true]
  intro i hi
  obtain ⟨n, hn, rfl⟩ := List.mem_map.1 hi
  have hlt : (n : Int) < extent := Int.ofNat_lt.2 (h n hn)
  exact isIndex_of_lt (Int.natCast_nonneg n) (hlt.trans hextent)

theorem positions_natCast (axis : Nat) {extent : Nat} {ps : List Nat} (h : ∀ p ∈ ps, p < extent) :
    positions axis extent (ps.map Nat.cast) = .ok ps := by
  rw [positions_eq_ok_iff]
  constructor
  · intro i hi
    obtain ⟨p, hp, rfl⟩ := List.mem_map.1 hi
    have hlt := h p hp
    omega
  · simp [Function.comp_def]

theorem Coordinates.ofIndices_natCast {places : Coordinates} (hplaces : places.Inside)
    (hshape : (places.shape.1 : Int) < indexBound ∧ (places.shape.2 : Int) < indexBound) :
    Coordinates.ofIndices (places.rows.map Nat.cast) (places.columns.map Nat.cast)
      (places.shape.1, places.shape.2) = .ok places := by
  have hnegative : ¬((places.shape.1 : Int) < 0 ∨ (places.shape.2 : Int) < 0) := by omega
  have hwide : ¬(indexBound ≤ (places.shape.1 : Int) ∨ indexBound ≤ (places.shape.2 : Int)) := by
    omega
  simp only [Coordinates.ofIndices, if_neg hnegative, if_neg hwide, List.length_map,
    hplaces.length_columns, ne_eq, not_true_eq_false, if_false, Int.toNat_natCast,
    positions_natCast _ hplaces.rows, positions_natCast _ hplaces.columns]
  rfl

/-- Triplets from outside that lie in the matrix are assembled as they are. -/
theorem ofTriplets_eq_assemble {places : Coordinates} {values : List α} (hplaces : places.Inside)
    (hvalues : values.length = places.rows.length)
    (hshape : (places.shape.1 : Int) < indexBound ∧ (places.shape.2 : Int) < indexBound) :
    ofTriplets (places.rows.map Nat.cast) (places.columns.map Nat.cast)
      (places.shape.1, places.shape.2) (.ok values) = assemble places values := by
  simp only [ofTriplets, all_isIndex hplaces.rows hshape.1, all_isIndex hplaces.columns hshape.2,
    Bool.and_self, Bool.not_true, Bool.false_eq_true, if_false, List.length_map, hvalues, ne_eq,
    not_true_eq_false, Coordinates.ofIndices_natCast hplaces hshape, Except.bind]

/-! ## Assembled matrices -/

omit [Backend α] in
/-- Values come with a place exactly if it is hit. -/
theorem valuesAt_ne_nil_iff (r c : Nat) (ts : List (Nat × Nat × α)) :
    valuesAt r c ts ≠ [] ↔ (r, c) ∈ ts.map fun (i, j, _) => (i, j) := by
  rw [valuesAt, ne_eq, List.filterMap_eq_nil_iff]
  simp [and_comm]

omit [Backend α] in
/-- The places of triplets in another order are in the matrix as well. -/
theorem inside_of_perm {places others : Coordinates} {values values' : List α}
    (hplaces : places.Inside) (hshape : others.shape = places.shape)
    (hlengths : others.columns.length = others.rows.length)
    (hvalues' : values'.length = others.rows.length)
    (hperm : (triplets others values').Perm (triplets places values)) : others.Inside := by
  have hzip : others.columns.length ≤ values'.length := by omega
  have hcolumns : (others.columns.zip values').map (·.1) = others.columns := List.map_fst_zip hzip
  have hrows : (triplets others values').map (·.1) = others.rows :=
    List.map_fst_zip (by rw [List.length_zip]; omega)
  have hsecond : (triplets others values').map (·.2) = others.columns.zip values' :=
    List.map_snd_zip (by rw [List.length_zip]; omega)
  refine ⟨hlengths, fun r hr => ?_, fun c hc => ?_⟩
  · rw [← hrows] at hr
    obtain ⟨t, ht, rfl⟩ := List.mem_map.1 hr
    exact hshape ▸ hplaces.rows _ (List.of_mem_zip (hperm.mem_iff.1 ht)).1
  · rw [← hcolumns, ← hsecond, List.map_map] at hc
    obtain ⟨t, ht, rfl⟩ := List.mem_map.1 hc
    exact hshape ▸ hplaces.columns _ (List.of_mem_zip (List.of_mem_zip (hperm.mem_iff.1 ht)).2).1

/-- An assembled matrix is in canonical form, whichever library makes its passes. What it stores at
a place is the sum of the values that came with the place, from left to right and beginning with the
first of them, and it stores something exactly at the places that are hit. Triplets that come from
outside are assembled in the same way. In exact arithmetic the order of the triplets does not
matter. -/
theorem canonical_of_assemble {places : Coordinates} {values : List α} (hplaces : places.Inside)
    (hvalues : values.length = places.rows.length) :
    ∃ matrix, assemble places values = .ok matrix ∧ matrix.shape = places.shape ∧
      matrix.Canonical ∧
      (∀ r c, (r < places.shape.1 ∧ c ∈ (matrix.entriesOf r).map (·.1)) ↔ (r, c) ∈ hits places) ∧
      (∀ r < places.shape.1, ∀ c v, (c, v) ∈ matrix.entriesOf r ↔
        sumFromFirst? (valuesAt r c (triplets places values)) = some v) ∧
      ((places.shape.1 : Int) < indexBound ∧ (places.shape.2 : Int) < indexBound →
        ofTriplets (places.rows.map Nat.cast) (places.columns.map Nat.cast)
          (places.shape.1, places.shape.2) (.ok values) = .ok matrix) ∧
      (ExactAddition α → Std.Commutative (fun a b : α => a + b) →
        ∀ (others : Coordinates) (values' : List α), others.shape = places.shape →
          values'.length = others.rows.length → others.columns.length = others.rows.length →
          (triplets others values').Perm (triplets places values) →
          assemble others values' = .ok matrix) := by
  have hmatrix := assemble_eq hplaces hvalues
  obtain ⟨hhits, -⟩ := of_assemble_eq_ok hplaces hmatrix
  have hentries {r : Nat} (hr : r < places.shape.1) : (ofRows places.shape
      ((List.range places.shape.1).map fun r => row r (triplets places values))).entriesOf r =
        row r (triplets places values) := by
    rw [entriesOf_ofRows _ _ (by simpa using hr)]
    simp [List.getD_eq_getElem?_getD, hr]
  have hcovered {r : Nat} (hr : r < places.shape.1) (c : Nat) :
      c ∈ (row r (triplets places values)).map (·.1) ↔ (r, c) ∈ hits places := by
    rw [← hhits, ← valuesAt_ne_nil_iff, ne_eq, ← sumFromFirst?_eq_none_iff, ← ne_eq,
      Option.ne_none_iff_exists']
    simp only [← mem_row, List.mem_map, Prod.exists, exists_and_right, exists_eq_right]
  refine ⟨_, hmatrix, rfl, ?_, fun r c => ?_, fun r hr c v => ?_, ?_, ?_⟩
  · refine canonical_ofRows (by simp) (fun entries hentry => ?_) fun entries hentry c hc => ?_
    · obtain ⟨r, _, rfl⟩ := List.mem_map.1 hentry
      exact ascending_row r _
    · obtain ⟨r, hr, rfl⟩ := List.mem_map.1 hentry
      exact hplaces.columns c (List.of_mem_zip ((hcovered (List.mem_range.1 hr) c).1 hc)).2
  · constructor
    · rintro ⟨hr, hc⟩
      exact (hcovered hr c).1 (hentries hr ▸ hc)
    · intro hhit
      have hr := hplaces.rows r (List.of_mem_zip hhit).1
      exact ⟨hr, hentries hr ▸ (hcovered hr c).2 hhit⟩
  · rw [hentries hr, mem_row]
  · intro hshape
    rw [ofTriplets_eq_assemble hplaces hvalues hshape, hmatrix]
  · intro _ _ others values' hshape hvalues' hlengths hperm
    rw [assemble_eq (inside_of_perm hplaces hshape hlengths hvalues' hperm) hvalues', hshape]
    congr 2
    exact List.map_congr_left fun r _ => row_perm r hperm

/-- Four triplets in a matrix of three rows: two of them cancel at one place, which is stored with
the value zero, and a row has none. In the reverse order they make the same matrix. -/
theorem canonical_of_cancelling : ∃ matrix : CompressedRows ℝ,
    assemble ⟨[2, 0, 2, 2], [1, 0, 1, 0], (3, 2)⟩ [5, 2, -5, 3] = .ok matrix ∧
    matrix.Canonical ∧ (1, 0) ∈ matrix.entriesOf 2 ∧ 0 ∉ (matrix.entriesOf 1).map (·.1) ∧
    ofTriplets [2, 0, 2, 2] [1, 0, 1, 0] (3, 2) (.ok [5, 2, -5, 3]) = .ok matrix ∧
    assemble ⟨[2, 2, 0, 2], [0, 1, 0, 1], (3, 2)⟩ [3, -5, 2, 5] = .ok matrix := by
  obtain ⟨matrix, hmatrix, -, hcanonical, hcovered, hstored, hforeign, hperm⟩ :=
    @canonical_of_assemble ℝ _ ⟨[2, 0, 2, 2], [1, 0, 1, 0], (3, 2)⟩ [5, 2, -5, 3]
      ⟨rfl, by decide, by decide⟩ rfl
  refine ⟨matrix, hmatrix, hcanonical, ?_, fun hmem => ?_, hforeign (by decide), ?_⟩
  · rw [hstored 2 (by decide)]
    simp [valuesAt, triplets, sumFromFirst?]
  · have hhit := (hcovered 1 0).1 ⟨by decide, hmem⟩
    exact absurd hhit (by decide)
  · refine hperm inferInstance inferInstance _ _ rfl rfl rfl ?_
    exact List.reverse_perm (triplets ⟨[2, 0, 2, 2], [1, 0, 1, 0], (3, 2)⟩ [5, 2, -5, 3])

end CompressedRows

end Separable
