import Separable.CompressedRows
import Separable.Penalty
import Separable.Variable

/-!
# Terms bound to variables

A summand becomes part of a graph when its arguments are bound to variables. From then on its
Hessian blocks have places: the block of arguments `i` and `j` lies in the matrix at the rows of
the variable bound to `i` and the columns of the variable bound to `j`. The same variable may be
bound to several arguments; then blocks lie on top of each other and are added.

The blocks of a term can be read off in three ways that fit together: as coordinates
(`coordinates`), as values in the same order, which are written one block after another into a
buffer of fixed size (`gather`), and as an addition to a dense matrix (`scatter`). The first two are
enumerations: of the places of all blocks (`places`), row by row, and of their entries (`entries`).

## Main results

* `coordinates_eq`: rows and columns that are repeated and tiled are those of the places.
* `gather_eq_ok_iff`: a buffer is filled exactly if it has room for all entries and no more.
* `length_blockPlaces`: a block has as many places as entries.
-/

namespace Separable

/-- A summand with the variables that it is bound to, and its Hessian blocks. -/
structure Bound (α : Type) where
  summand : Summand α
  vars : List (Variable α)
  /-- One block per ordered pair of arguments; none if the graph keeps no Hessians. -/
  blocks : Grid α

namespace Bound

variable {α : Type}

/-- The number of arguments. -/
def arity (b : Bound α) : Nat := b.vars.length

/-- The places of the block of two variables, row by row. -/
def blockPlaces (v w : Variable α) : List (Nat × Nat) :=
  (List.range v.userDimension).flatMap fun a =>
    (List.range w.userDimension).map fun b => (v.offset + a, w.offset + b)

/-- The places of all blocks, block by block. -/
def places (b : Bound α) : List (Nat × Nat) :=
  b.vars.flatMap fun v => b.vars.flatMap fun w => blockPlaces v w

/-- The entries of all blocks, in the order of `places`. -/
def entries (b : Bound α) : List α := b.blocks.flatMap fun blocks => blocks.flatMap List.flatten

/-- Whether some argument is bound to a reparameterized variable. -/
def hasReparam (b : Bound α) : Bool := b.vars.any (·.reparam.isSome)

theorem length_blockPlaces (v w : Variable α) :
    (blockPlaces v w).length = v.userDimension * w.userDimension := by
  simp [blockPlaces, List.length_flatMap, List.map_const']

/-- The rows of the entries of the block of two variables. -/
def blockRows (v w : Variable α) : List Nat :=
  (repeated w.userDimension (List.range v.userDimension)).map (· + v.offset)

/-- The columns of the entries of the block of two variables. -/
def blockColumns (v w : Variable α) : List Nat :=
  (tiled v.userDimension (List.range w.userDimension)).map (· + w.offset)

/-- The coordinates of all blocks of some terms. -/
def coordinates (terms : List (Bound α)) (scalars : Nat) : Coordinates where
  rows := terms.flatMap fun b => b.vars.flatMap fun v => b.vars.flatMap fun w => blockRows v w
  columns := terms.flatMap fun b => b.vars.flatMap fun v => b.vars.flatMap fun w => blockColumns v w
  shape := (scalars, scalars)

theorem blockRows_eq (v w : Variable α) : blockRows v w = (blockPlaces v w).map (·.1) := by
  simp [blockRows, blockPlaces, repeated, List.map_flatMap, List.map_replicate, List.map_const',
    Nat.add_comm, Function.comp_def]

theorem blockColumns_eq (v w : Variable α) : blockColumns v w = (blockPlaces v w).map (·.2) := by
  simp [blockColumns, blockPlaces, tiled, List.flatMap_def, List.map_flatten, List.map_replicate,
    List.map_const', Nat.add_comm, Function.comp_def]

theorem coordinates_eq (terms : List (Bound α)) (scalars : Nat) :
    coordinates terms scalars =
      ⟨(terms.flatMap places).map (·.1), (terms.flatMap places).map (·.2), (scalars, scalars)⟩ := by
  simp only [coordinates, places, blockRows_eq, blockColumns_eq, List.map_flatMap]

theorem length_columns_coordinates (terms : List (Bound α)) (scalars : Nat) :
    (coordinates terms scalars).columns.length = (coordinates terms scalars).rows.length := by
  simp [coordinates_eq]

theorem size_coordinates (terms : List (Bound α)) (scalars : Nat) :
    (coordinates terms scalars).size = (terms.flatMap places).length := by
  simp [coordinates_eq, Coordinates.size]

/-- The blocks of a term as vectors, one after another. -/
def flatBlocks (b : Bound α) : List (List α) :=
  b.blocks.flatMap fun blocks => blocks.map List.flatten

/-- A buffer into which vectors were written one after another from position `start` on, and the
position behind the last of them. A vector that does not fit is refused, but for one of a single
entry, which is dropped. -/
def fill : (vectors : List (List α)) → (start : Nat) → (out : List α) → Except Fault (Nat × List α)
  | [], start, out => .ok (start, out)
  | xs :: rest, start, out =>
    match copied xs (min xs.length (out.length - start)) with
    | .error fault => .error fault
    | .ok new => fill rest (start + xs.length) (overwrite start new out)

variable [Scalar α]

/-- The entries of all blocks of some terms, in a buffer of `size` entries that they have to fill
exactly. -/
def gather (terms : List (Bound α)) (size : Nat) : Except Fault (List α) :=
  (fill (terms.flatMap flatBlocks) 0 (zeros size)).bind fun (stop, out) =>
    if stop = out.length then .ok out else .error .sizeMismatch

/-- Blocks of zeros for these variables. -/
def zeroBlocks (vars : List (Variable α)) : Grid α :=
  vars.map fun v => vars.map fun w => filled v.userDimension w.userDimension 0

/-- Adds the blocks to a dense matrix. -/
def scatter (b : Bound α) (matrix : Block α) : Block α :=
  (b.vars.zip b.blocks).foldl (fun matrix (v, blocks) =>
    (b.vars.zip blocks).foldl (fun matrix (w, block) =>
      addBlock v.offset w.offset block matrix) matrix) matrix

/-- The dense matrix that the blocks of some terms add up to. -/
def dense (terms : List (Bound α)) (scalars : Nat) : Block α :=
  terms.foldl (fun matrix b => b.scatter matrix) (filled scalars scalars 0)

/-! ## Filling a buffer -/

omit [Scalar α] in
theorem flatten_flatBlocks (terms : List (Bound α)) :
    (terms.flatMap flatBlocks).flatten = terms.flatMap entries := by
  have hterm (b : Bound α) : b.flatBlocks.flatMap id = b.entries := by
    simp only [flatBlocks, List.flatMap_assoc, List.flatMap_map, id, entries]
  rw [← List.flatMap_id, List.flatMap_assoc]
  simp only [hterm]

omit [Scalar α] in
/-- Vectors for which there is room are written one behind the other. -/
theorem fill_of_le {vectors : List (List α)} (done : List α) {room : List α}
    (h : vectors.flatten.length ≤ room.length) :
    fill vectors done.length (done ++ room) =
      .ok ((done ++ vectors.flatten).length,
        (done ++ vectors.flatten) ++ room.drop vectors.flatten.length) := by
  induction vectors generalizing done room with
  | nil => simp [fill]
  | cons xs rest ih =>
    rw [List.flatten_cons, List.length_append] at h
    have hmin : min xs.length ((done ++ room).length - done.length) = xs.length := by
      rw [List.length_append]
      omega
    have hrest : rest.flatten.length ≤ (room.drop xs.length).length := by
      rw [List.length_drop]
      omega
    rw [fill, hmin, copied_of_length_eq rfl]
    dsimp only
    rw [overwrite_length_append (by omega), ← List.length_append, ih _ hrest, List.flatten_cons,
      List.append_assoc, List.drop_drop, ← List.length_append]

omit [Scalar α] in
/-- The position behind the last vector, and the length of the buffer. -/
theorem of_fill_eq_ok {vectors : List (List α)} {start stop : Nat} {out filled : List α}
    (h : fill vectors start out = .ok (stop, filled)) :
    stop = start + vectors.flatten.length ∧ filled.length = out.length := by
  induction vectors generalizing start out with
  | nil =>
    cases h
    exact ⟨rfl, rfl⟩
  | cons xs rest ih =>
    rw [fill] at h
    split at h
    · cases h
    · obtain ⟨hstop, hlength⟩ := ih h
      rw [length_overwrite] at hlength
      refine ⟨?_, hlength⟩
      rw [hstop, List.flatten_cons, List.length_append, Nat.add_assoc]

theorem gather_of_length_eq {terms : List (Bound α)} {size : Nat}
    (h : (terms.flatMap entries).length = size) :
    gather terms size = .ok (terms.flatMap entries) := by
  have hroom : (terms.flatMap flatBlocks).flatten.length ≤ (zeros size : List α).length :=
    Nat.le_of_eq (by rw [flatten_flatBlocks, h, length_zeros])
  have hfill := fill_of_le [] hroom
  rw [flatten_flatBlocks, h] at hfill
  have hzeros : (zeros size : List α).drop size = [] :=
    List.drop_eq_nil_of_le (Nat.le_of_eq (length_zeros size))
  simp only [List.nil_append, List.length_nil, hzeros, List.append_nil] at hfill
  simp [gather, hfill, Except.bind]

/-- A buffer is filled exactly if it has room for all entries and no more. -/
theorem gather_eq_ok_iff {terms : List (Bound α)} {size : Nat} {values : List α} :
    gather terms size = .ok values ↔
      (terms.flatMap entries).length = size ∧ values = terms.flatMap entries := by
  constructor
  · intro h
    have hsize : (terms.flatMap entries).length = size := by
      unfold gather at h
      cases hfill : fill (terms.flatMap flatBlocks) 0 (zeros size) with
      | error fault =>
        rw [hfill] at h
        cases h
      | ok filled =>
        obtain ⟨stop, out⟩ := filled
        obtain ⟨hstop, hlength⟩ := of_fill_eq_ok hfill
        rw [flatten_flatBlocks, Nat.zero_add] at hstop
        rw [length_zeros] at hlength
        rw [hfill] at h
        simp only [Except.bind] at h
        split at h
        · next heq => rw [← hstop, heq, hlength]
        · cases h
    rw [gather_of_length_eq hsize] at h
    exact ⟨hsize, (Except.ok.inj h).symm⟩
  · rintro ⟨hsize, rfl⟩
    exact gather_of_length_eq hsize

end Bound

end Separable
