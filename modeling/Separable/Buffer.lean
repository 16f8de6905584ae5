import Separable.Scalar

/-!
# Vectors, rows and blocks

A vector is a list of scalars. The derivatives of a term live in two kinds of buffers: `Rows`, one
row per argument of the term, and a `Grid`, one `Block` (a matrix as a list of its rows) per ordered
pair of arguments.

Whoever owns a buffer fixes its shape, and a write never changes the shape: `overwrite`, `addAt`
and `addBlock` touch the entries they name and drop what falls outside. `rowLengths` and
`gridLengths` are the views in which this is said.

## Main results

* `length_overwrite`, `length_addAt`, `length_addBlock`: writes keep the length.
* `getElem?_overwrite`, `getElem?_addAt`: an entry after a write, in terms of the entry before.
* `copied_of_length_eq`, `length_of_copied_eq_ok`: a copy into a whole vector keeps its length.
* `overwrite_zero_of_length_eq`, `overwrite_length_append`: a vector is written as a whole where there
  is room for it.
* `readAt_writeAt`, `readAt_writeAt_of_disjoint`, `writeAt_readAt`: entries that are written at some
  positions are read there again, and are seen nowhere else.
-/

namespace Separable

/-- Gradient buffers: one row per argument. -/
abbrev Rows (α : Type) := List (List α)

/-- A matrix, as the list of its rows. -/
abbrev Block (α : Type) := List (List α)

/-- Hessian buffers: one block per ordered pair of arguments. -/
abbrev Grid (α : Type) := List (List (Block α))

variable {α : Type}

/-- The lengths of the rows. -/
def rowLengths (rows : List (List α)) : List Nat := rows.map List.length

/-- The row lengths of every block. -/
def gridLengths (grid : Grid α) : List (List (List Nat)) :=
  grid.map fun blocks => blocks.map rowLengths

/-! ## Entries computed in place -/

/-- Every entry of every row, computed from its row, its column and what it holds. -/
def mapRows (f : Nat → Nat → α → α) (rows : List (List α)) : List (List α) :=
  rows.mapIdx fun i row => row.mapIdx fun k old => f i k old

/-- Every entry of every block, computed from its two arguments, its row and column in the block,
and what it holds. -/
def mapGrid (f : Nat → Nat → Nat → Nat → α → α) (grid : Grid α) : Grid α :=
  grid.mapIdx fun i blocks => blocks.mapIdx fun j block => mapRows (f i j) block

@[simp] theorem rowLengths_mapRows (f : Nat → Nat → α → α) (rows : List (List α)) :
    rowLengths (mapRows f rows) = rowLengths rows := by
  apply List.ext_getElem? fun i => ?_
  simp [rowLengths, mapRows, Function.comp_def]

theorem mapRows_eq_map (f : α → α) (rows : Rows α) :
    mapRows (fun _ _ a => f a) rows = rows.map (List.map f) := by
  apply List.ext_getElem? fun i => ?_
  simp only [mapRows, List.getElem?_mapIdx, List.getElem?_map]
  congr 1
  funext row
  apply List.ext_getElem? fun k => ?_
  simp

@[simp] theorem gridLengths_mapGrid (f : Nat → Nat → Nat → Nat → α → α) (grid : Grid α) :
    gridLengths (mapGrid f grid) = gridLengths grid := by
  apply List.ext_getElem? fun i => ?_
  simp only [gridLengths, mapGrid, List.getElem?_map, List.getElem?_mapIdx, Option.map_map]
  congr 1
  funext blocks
  apply List.ext_getElem? fun j => ?_
  simp [Function.comp_def]

/-! ## Slices -/

/-- The `count` entries from position `start` on. -/
def slice (start count : Nat) (xs : List α) : List α := (xs.drop start).take count

/-- Writes `new` over the entries of `old` from position `start` on. -/
def overwrite (start : Nat) (new old : List α) : List α :=
  old.mapIdx fun i a => if start ≤ i then new.getD (i - start) a else a

@[simp] theorem length_overwrite (start : Nat) (new old : List α) :
    (overwrite start new old).length = old.length := by
  simp [overwrite]

theorem getElem?_overwrite (start : Nat) (new old : List α) (i : Nat) :
    (overwrite start new old)[i]? =
      old[i]?.map fun a => if start ≤ i then new.getD (i - start) a else a := by
  simp [overwrite]

theorem overwrite_zero_of_length_eq {new old : List α} (h : new.length = old.length) :
    overwrite 0 new old = new := by
  apply List.ext_getElem? fun i => ?_
  rw [getElem?_overwrite]
  by_cases hi : i < old.length
  · simp [List.getElem?_eq_getElem hi, List.getElem?_eq_getElem (h ▸ hi : i < new.length)]
  · simp [List.getElem?_eq_none (Nat.le_of_not_lt hi),
      List.getElem?_eq_none (h ▸ Nat.le_of_not_lt hi : new.length ≤ i)]

theorem overwrite_append (done new old : List α) :
    overwrite done.length new (done ++ old) = done ++ overwrite 0 new old := by
  apply List.ext_getElem? fun i => ?_
  rw [getElem?_overwrite]
  by_cases hi : i < done.length
  · rw [List.getElem?_append_left hi, List.getElem?_append_left hi, List.getElem?_eq_getElem hi]
    simp [Nat.not_le.2 hi]
  · have hle := Nat.not_lt.1 hi
    rw [List.getElem?_append_right hle, List.getElem?_append_right hle, getElem?_overwrite]
    simp [hle]

theorem overwrite_zero_append {new old : List α} (h : new.length = old.length) (rest : List α) :
    overwrite 0 new (old ++ rest) = new ++ rest := by
  apply List.ext_getElem? fun i => ?_
  rw [getElem?_overwrite]
  by_cases hi : i < old.length
  · have hnew : i < new.length := h ▸ hi
    rw [List.getElem?_append_left hi, List.getElem?_append_left hnew, List.getElem?_eq_getElem hi]
    simp [hnew]
  · have hle := Nat.not_lt.1 hi
    have hnone : new[i]? = none := List.getElem?_eq_none (h ▸ hle)
    rw [List.getElem?_append_right hle, List.getElem?_append_right (h ▸ hle), h]
    simp [List.getD_eq_getElem?_getD, hnone]

/-- A vector is written behind what is kept. -/
theorem overwrite_length_append {done new old : List α} (h : new.length ≤ old.length) :
    overwrite done.length new (done ++ old) = (done ++ new) ++ old.drop new.length := by
  have htake : new.length = (old.take new.length).length := by
    rw [List.length_take, Nat.min_eq_left h]
  have hwrite := overwrite_zero_append htake (old.drop new.length)
  rw [List.take_append_drop] at hwrite
  rw [overwrite_append, hwrite, List.append_assoc]

/-- A list with every item so many times in a row. -/
def repeated {β : Type} (times : Nat) (items : List β) : List β :=
  items.flatMap (List.replicate times)

/-- A list so many times in a row. -/
def tiled {β : Type} (times : Nat) (items : List β) : List β := (List.replicate times items).flatten

/-- What a vector of `length` entries becomes when `source` is copied into it: a vector of the same
length replaces it, a single entry is repeated, and anything else is refused. -/
def copied (source : List α) (length : Nat) : Except Fault (List α) :=
  if source.length = length then .ok source
  else
    match source with
    | [a] => .ok (List.replicate length a)
    | _ => .error (.shapeMismatch [source.length] [length])

theorem copied_of_length_eq {source : List α} {length : Nat} (h : source.length = length) :
    copied source length = .ok source := by
  simp [copied, h]

theorem length_of_copied_eq_ok {source result : List α} {length : Nat}
    (h : copied source length = .ok result) : result.length = length := by
  unfold copied at h
  split at h
  · next hl => cases h; exact hl
  · split at h
    · cases h; simp
    · cases h

/-! ## Entries at some positions -/

/-- The entries at some positions. -/
def readAt (positions : List Nat) (xs : List α) : List α := positions.filterMap (xs[·]?)

/-- Writes entries at some positions, one after another, up to the last entry there is. -/
def writeAt : (positions : List Nat) → (new old : List α) → List α
  | p :: positions, a :: new, old => writeAt positions new (old.set p a)
  | _, _, old => old

@[simp] theorem length_writeAt (positions : List Nat) (new old : List α) :
    (writeAt positions new old).length = old.length := by
  fun_induction writeAt positions new old with
  | case1 p positions a new old ih => rw [ih, List.length_set]
  | case2 => rfl

theorem length_readAt {positions : List Nat} {xs : List α} (h : ∀ p ∈ positions, p < xs.length) :
    (readAt positions xs).length = positions.length := by
  induction positions with
  | nil => rfl
  | cons p positions ih =>
    obtain ⟨hp, hrest⟩ := List.forall_mem_cons.1 h
    simp only [readAt, List.filterMap_cons, List.getElem?_eq_getElem hp, List.length_cons] at ih ⊢
    rw [ih hrest]

theorem getElem?_writeAt_of_notMem {positions : List Nat} {p : Nat} (h : p ∉ positions)
    (new old : List α) : (writeAt positions new old)[p]? = old[p]? := by
  fun_induction writeAt positions new old with
  | case1 q positions a new old ih =>
    rw [List.mem_cons, not_or] at h
    rw [ih h.2, List.getElem?_set_ne (Ne.symm h.1)]
  | case2 => rfl

/-- What is written at some positions is not seen at others. -/
theorem readAt_writeAt_of_disjoint {positions others : List Nat}
    (h : ∀ p ∈ others, p ∉ positions) (new old : List α) :
    readAt others (writeAt positions new old) = readAt others old := by
  induction others with
  | nil => rfl
  | cons p others ih =>
    obtain ⟨hp, hrest⟩ := List.forall_mem_cons.1 h
    simp only [readAt, List.filterMap_cons, getElem?_writeAt_of_notMem hp] at ih ⊢
    rw [ih hrest]

/-- What is written at different positions is read there again. -/
theorem readAt_writeAt {positions : List Nat} (hnodup : positions.Nodup) {new old : List α}
    (hlength : new.length = positions.length) (h : ∀ p ∈ positions, p < old.length) :
    readAt positions (writeAt positions new old) = new := by
  fun_induction writeAt positions new old with
  | case1 p positions a new old ih =>
    obtain ⟨hp, hnodup⟩ := List.nodup_cons.1 hnodup
    obtain ⟨hlt, hrest⟩ := List.forall_mem_cons.1 h
    have hhead : (writeAt positions new (old.set p a))[p]? = some a := by
      rw [getElem?_writeAt_of_notMem hp, List.getElem?_set_self hlt]
    have htail := ih hnodup (Nat.succ.inj hlength) fun q hq => by
      rw [List.length_set]
      exact hrest q hq
    rw [readAt, List.filterMap_cons, hhead]
    exact congrArg (a :: ·) htail
  | case2 positions new old hne =>
    cases positions with
    | nil => exact (List.length_eq_zero_iff.1 hlength).symm
    | cons p positions =>
      cases new with
      | nil => cases hlength
      | cons a new => exact absurd rfl (hne p positions a new rfl)

/-- The length of a new vector. A negative one is refused. -/
def checkedLength (length : Int) : Except Fault Nat :=
  if length < 0 then .error .negativeLength else .ok length.toNat

@[simp] theorem checkedLength_natCast (n : Nat) : checkedLength n = .ok n := by
  simp [checkedLength, Int.not_lt.2 (Int.natCast_nonneg n)]

/-- A matrix of `rows` by `columns` entries, all `a`. -/
def filled (rows columns : Nat) (a : α) : Block α :=
  List.replicate rows (List.replicate columns a)

section Arithmetic

variable [Scalar α]

/-- A vector of zeros. -/
def zeros (n : Nat) : List α := List.replicate n 0

@[simp] theorem length_zeros (n : Nat) : (zeros n : List α).length = n := by
  simp [zeros]

/-- Adds the entries of `delta` to those of `xs` from position `start` on. -/
def addAt (start : Nat) (delta xs : List α) : List α :=
  xs.mapIdx fun i a =>
    if start ≤ i then
      match delta[i - start]? with
      | some d => a + d
      | none => a
    else a

@[simp] theorem length_addAt (start : Nat) (delta xs : List α) :
    (addAt start delta xs).length = xs.length := by
  simp [addAt]

theorem getElem?_addAt (start : Nat) (delta xs : List α) (i : Nat) :
    (addAt start delta xs)[i]? = xs[i]?.map fun a =>
      if start ≤ i then
        match delta[i - start]? with
        | some d => a + d
        | none => a
      else a := by
  simp [addAt]

/-- Adds a block to a matrix, its first entry at row `top` and column `left`. -/
def addBlock (top left : Nat) (block matrix : Block α) : Block α :=
  matrix.mapIdx fun r row =>
    if top ≤ r then
      match block[r - top]? with
      | some delta => addAt left delta row
      | none => row
    else row

@[simp] theorem length_addBlock (top left : Nat) (block matrix : Block α) :
    (addBlock top left block matrix).length = matrix.length := by
  simp [addBlock]

end Arithmetic

end Separable
