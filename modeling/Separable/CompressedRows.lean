import Separable.Buffer

/-!
# Triplets and compressed rows

A sparse matrix is collected as triplets, a row, a column and a value each, in any order and with
repetitions, and is kept by rows: for each row the columns that are present, with a value each, and
where the entries of the row start. `Separable.SparseLibrary` goes from the first form to the
second.

Triplets may also come from outside, with indices that are any integers. `positions` refuses those
that do not lie in the matrix.

## Main results

* `positions_eq_ok_iff`: indices are refused exactly if one of them lies outside of the axis.
* `length_runningTotals`: a matrix of `n` rows has `n + 1` row starts.
* `entriesOf_ofRows`: the row starts cut the entries into the rows that were put together.
-/

namespace Separable

/-- The places of the triplets, and the extents of the matrix. -/
structure Coordinates where
  rows : List Nat
  columns : List Nat
  shape : Nat × Nat
  deriving DecidableEq, Repr

/-- The number of triplets. -/
def Coordinates.size (c : Coordinates) : Nat := c.rows.length

/-- Whether each triplet lies in the matrix, and has both of its indices. -/
structure Coordinates.Inside (c : Coordinates) : Prop where
  length_columns : c.columns.length = c.rows.length
  rows : ∀ r ∈ c.rows, r < c.shape.1
  columns : ∀ column ∈ c.columns, column < c.shape.2

/-- The indices along an axis as positions on it. A largest index that is too large is reported
before a smallest one that is negative. -/
def positions (axis extent : Nat) : List Int → Except Fault (List Nat)
  | [] => .ok []
  | first :: rest =>
    let largest := rest.foldl (fun a b => if a < b then b else a) first
    let smallest := rest.foldl (fun a b => if b < a then b else a) first
    if extent ≤ largest then .error (.indexAbove axis largest extent)
    else if smallest < 0 then .error (.indexBelow axis smallest)
    else .ok ((first :: rest).map Int.toNat)

/-- Indices and extents are below this, and indices are not below minus this. -/
def indexBound : Int := (1 <<< 63 : Nat)

/-- Whether an index can be kept at all, wherever it lies. -/
def isIndex (i : Int) : Bool := -indexBound ≤ i && i < indexBound

/-- The places with these indices. -/
def Coordinates.ofIndices (rows columns : List Int) (shape : Int × Int) :
    Except Fault Coordinates :=
  if shape.1 < 0 ∨ shape.2 < 0 then .error .negativeExtent
  else if indexBound ≤ shape.1 ∨ indexBound ≤ shape.2 then .error .integerTooWide
  else if columns.length ≠ rows.length then .error .tripletLengths
  else
    (positions 0 shape.1.toNat rows).bind fun r =>
      (positions 1 shape.2.toNat columns).map fun c =>
        ⟨r, c, (shape.1.toNat, shape.2.toNat)⟩

theorem foldl_larger_lt_iff (bound first : Int) (rest : List Int) :
    rest.foldl (fun a b => if a < b then b else a) first < bound ↔
      first < bound ∧ ∀ i ∈ rest, i < bound := by
  induction rest generalizing first with
  | nil => simp
  | cons i rest ih => simp only [List.foldl_cons, ih]; grind

theorem le_foldl_smaller_iff (bound first : Int) (rest : List Int) :
    bound ≤ rest.foldl (fun a b => if b < a then b else a) first ↔
      bound ≤ first ∧ ∀ i ∈ rest, bound ≤ i := by
  induction rest generalizing first with
  | nil => simp
  | cons i rest ih => simp only [List.foldl_cons, ih]; grind

theorem positions_eq_ok_iff (axis extent : Nat) (indices : List Int) (ps : List Nat) :
    positions axis extent indices = .ok ps ↔
      (∀ i ∈ indices, 0 ≤ i ∧ i < extent) ∧ ps = indices.map Int.toNat := by
  cases indices with
  | nil => simp [positions, eq_comm]
  | cons first rest =>
    have above := foldl_larger_lt_iff extent first rest
    have below := le_foldl_smaller_iff 0 first rest
    simp only [positions]
    split
    · grind
    · split <;> grind

/-- A sparse matrix by rows: row `r` has the entries numbered from `starts[r]` to `starts[r + 1]`. -/
structure CompressedRows (α : Type) where
  shape : Nat × Nat
  starts : List Nat
  columns : List Nat
  values : List α
  deriving Repr

namespace CompressedRows

variable {α : Type}

/-- The running totals of `lengths`, from `start` on. -/
def runningTotals (start : Nat) : List Nat → List Nat
  | [] => [start]
  | length :: lengths => start :: runningTotals (start + length) lengths

/-- A matrix from the entries of its rows. -/
def ofRows (shape : Nat × Nat) (rows : List (List (Nat × α))) : CompressedRows α where
  shape := shape
  starts := runningTotals 0 (rows.map List.length)
  columns := rows.flatten.map (·.1)
  values := rows.flatten.map (·.2)

/-- The triplets with these places and values. -/
def triplets (places : Coordinates) (values : List α) : List (Nat × Nat × α) :=
  places.rows.zip (places.columns.zip values)

/-- The entries of row `r`, in the order in which the triplets come. -/
def entriesIn (r : Nat) (triplets : List (Nat × Nat × α)) : List (Nat × α) :=
  triplets.filterMap fun (row, column, value) => if row = r then some (column, value) else none

/-- The entries that the row starts assign to row `r`. -/
def entriesOf (matrix : CompressedRows α) (r : Nat) : List (Nat × α) :=
  let first := matrix.starts.getD r 0
  slice first (matrix.starts.getD (r + 1) 0 - first) (matrix.columns.zip matrix.values)

/-- The matrix with the entries of each row changed by `f`. -/
def mapEntries (f : List (Nat × α) → List (Nat × α)) (matrix : CompressedRows α) :
    CompressedRows α :=
  ofRows matrix.shape ((List.range matrix.shape.1).map fun r => f (matrix.entriesOf r))

theorem length_runningTotals (start : Nat) (lengths : List Nat) :
    (runningTotals start lengths).length = lengths.length + 1 := by
  induction lengths generalizing start with
  | nil => rfl
  | cons length lengths ih => simp [runningTotals, ih]

theorem getD_runningTotals_zero (start : Nat) (lengths : List Nat) :
    (runningTotals start lengths).getD 0 0 = start := by
  cases lengths <;> rfl

/-- The row starts cut a list of entries into the rows that it was put together from. -/
theorem slice_runningTotals {β : Type} (rows : List (List β)) (before : List β) {r : Nat}
    (hr : r < rows.length) :
    slice ((runningTotals before.length (rows.map List.length)).getD r 0)
        ((runningTotals before.length (rows.map List.length)).getD (r + 1) 0 -
          (runningTotals before.length (rows.map List.length)).getD r 0)
        (before ++ rows.flatten) = rows.getD r [] := by
  induction rows generalizing before r with
  | nil => cases hr
  | cons row rest ih =>
      rw [List.map_cons, runningTotals]
      cases r with
      | zero =>
          rw [List.getD_cons_zero, List.getD_cons_succ, getD_runningTotals_zero,
            Nat.add_sub_cancel_left, List.flatten_cons, List.getD_cons_zero]
          simp [slice]
      | succ r =>
          have hrest := ih (before ++ row) (Nat.lt_of_succ_lt_succ hr)
          rw [List.length_append, List.append_assoc] at hrest
          rw [List.getD_cons_succ, List.getD_cons_succ, List.getD_cons_succ, List.flatten_cons]
          exact hrest

/-- The rows of a matrix that was put together from rows. -/
theorem entriesOf_ofRows (shape : Nat × Nat) (rows : List (List (Nat × α))) {r : Nat}
    (hr : r < rows.length) : (ofRows shape rows).entriesOf r = rows.getD r [] := by
  have hzip : (rows.flatten.map (·.1)).zip (rows.flatten.map (·.2)) = rows.flatten := by
    rw [List.zip_map']
    exact List.map_id _
  rw [entriesOf, ofRows]
  dsimp only
  rw [hzip]
  exact slice_runningTotals rows [] hr

theorem mapEntries_ofRows (f : List (Nat × α) → List (Nat × α)) {shape : Nat × Nat}
    {rows : List (List (Nat × α))} (h : rows.length = shape.1) :
    mapEntries f (ofRows shape rows) = ofRows shape (rows.map f) := by
  refine congrArg (ofRows shape) (List.ext_getElem (by simp [ofRows, h]) fun r _ hr => ?_)
  have hr' : r < rows.length := by simpa using hr
  rw [List.getElem_map, List.getElem_map, List.getElem_range, entriesOf_ofRows shape rows hr',
    List.getD_eq_getElem?_getD, List.getElem?_eq_getElem hr', Option.getD_some]

end CompressedRows

end Separable
