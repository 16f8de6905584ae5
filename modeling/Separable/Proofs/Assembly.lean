import Mathlib.Data.List.GetD
import Separable.Proofs.CompressedRows
import Separable.Proofs.Derivatives

/-!
# Assembling blocks

The blocks of some terms become a matrix in two ways: they are added to a dense matrix one after
another, or their places and entries are listed separately and collected by rows. Both ways go
through the same *patches*, the blocks with the variables of their rows and columns. A patch
contributes to an entry of the matrix the one entry of its block that lands there, if any
(`landed`); patches may overlap, and one that is empty contributes nothing.

## Main results

* `zip_places_entries`: places and entries are listed in the same order, patch by patch.
* `sum_patch`: what the triplets of a patch add up to at a place is what lands there.
* `rowLengths_dense`: the dense matrix is square, whatever the blocks are.
* `entryAt_dense`, `sum_triplets`: both ways add up what lands at each place.
* `landing_eq`: what lands there, argument by argument.
* `landing_comm`: blocks that mirror each other make a symmetric matrix.
-/

namespace Separable

open Scalar

variable {α : Type} [Backend α]

/-! ## Sums over places -/

section Sums

variable [ExactAddition α] {β γ δ ε : Type}

theorem sum_map_flatMap (f : β → List γ) (g : γ → α) (xs : List β) :
    sum ((xs.flatMap f).map g) = sum (xs.map fun x => sum ((f x).map g)) := by
  induction xs with
  | nil => rfl
  | cons x rest ih =>
      rw [List.flatMap_cons, List.map_append, sum_append, ih, List.map_cons, sum_cons]

theorem sum_map_zero (xs : List β) : sum (xs.map fun _ => (0 : α)) = 0 := by
  rw [List.map_const', sum_replicate_zero]

/-- A sum over numbered elements in which only the number `k` counts. -/
theorem sum_numbered (f : β → α) (default : β) (start k : Nat) (ys : List β) :
    sum (((List.range' start ys.length).zip ys).map fun (i, y) => if i = k then f y else 0) =
      if start ≤ k ∧ k < start + ys.length then f (ys.getD (k - start) default) else 0 := by
  induction ys generalizing start with
  | nil => simp [show sum ([] : List α) = 0 from rfl]
  | cons y rest ih =>
      rw [List.length_cons, List.range'_succ, List.zip_cons_cons, List.map_cons, sum_cons, ih]
      dsimp only
      by_cases hk : start = k
      · subst hk
        have hbehind : ¬(start + 1 ≤ start ∧ start < start + 1 + rest.length) := by omega
        have hhere : start ≤ start ∧ start < start + (rest.length + 1) := by omega
        rw [if_pos rfl, if_neg hbehind, if_pos hhere, ExactAddition.add_zero, Nat.sub_self,
          List.getD_cons_zero]
      · have hiff : (start + 1 ≤ k ∧ k < start + 1 + rest.length) ↔
            (start ≤ k ∧ k < start + (rest.length + 1)) := by omega
        simp only [if_neg hk, hiff, ExactAddition.zero_add]
        split
        · next hinside =>
          have hplace : k - start = k - (start + 1) + 1 := by omega
          rw [hplace, List.getD_cons_succ]
        · rfl

section Exchange

variable [Std.Commutative fun a b : α => a + b]

theorem sum_map_add (f g : β → α) (xs : List β) :
    sum (xs.map fun x => f x + g x) = sum (xs.map f) + sum (xs.map g) := by
  induction xs with
  | nil => exact (ExactAddition.add_zero 0).symm
  | cons x rest ih =>
      simp only [List.map_cons, sum_cons, ih]
      calc f x + g x + (sum (rest.map f) + sum (rest.map g))
          = f x + (g x + sum (rest.map f) + sum (rest.map g)) := by
            simp only [ExactAddition.add_assoc]
        _ = f x + (sum (rest.map f) + g x + sum (rest.map g)) := by
            rw [CompressedRows.add_swap (g x)]
        _ = f x + sum (rest.map f) + (g x + sum (rest.map g)) := by
            simp only [ExactAddition.add_assoc]

/-- The order of two sums can be exchanged. -/
theorem sum_exchange (f : β → γ → α) (xs : List β) (ys : List γ) :
    sum (xs.map fun x => sum (ys.map fun y => f x y)) =
      sum (ys.map fun y => sum (xs.map fun x => f x y)) := by
  induction xs with
  | nil => exact (sum_map_zero ys).symm
  | cons x rest ih => simp only [List.map_cons, sum_cons, ih, sum_map_add]

end Exchange

omit [Backend α] [ExactAddition α] in
/-- Two lists that are put together from pieces of the same lengths are paired piece by piece. -/
theorem zip_flatMap {f : β → List γ} {g : δ → List ε} {xs : List β} {ys : List δ}
    (h : List.Forall₂ (fun x y => (f x).length = (g y).length) xs ys) :
    (xs.flatMap f).zip (ys.flatMap g) = (xs.zip ys).flatMap fun (x, y) => (f x).zip (g y) := by
  induction h with
  | nil => rfl
  | cons hlength _ ih =>
      rw [List.flatMap_cons, List.flatMap_cons, List.zip_append hlength, ih, List.zip_cons_cons,
        List.flatMap_cons]

end Sums

/-! ## Patches -/

/-- The entry of a block that lands at a place of the matrix, if the first entry of the block lies
at `top` and `left`. -/
def landed (top left : Nat) (block : Block α) (r c : Nat) : α :=
  if top ≤ r ∧ left ≤ c then entryAt block (r - top) (c - left) else 0

namespace Bound

omit [Backend α] in
/-- The blocks, each with the variables of its rows and of its columns. -/
def patches (b : Bound α) : List (Variable α × Variable α × Block α) :=
  (b.vars.zip b.blocks).flatMap fun (v, blocks) =>
    (b.vars.zip blocks).map fun (w, block) => (v, w, block)

/-- Whether the blocks have the extents that the variables ask for. -/
def Filled (b : Bound α) : Prop := gridLengths b.blocks = gridLengths (zeroBlocks b.vars)

section Extents

variable {b : Bound α} (h : b.Filled)

include h

theorem Filled.blocks : List.Forall₂ (fun v blocks => List.Forall₂ (fun w block =>
    rowLengths block = List.replicate v.userDimension w.userDimension) b.vars blocks)
    b.vars b.blocks := by
  have hgrid : b.blocks.map (List.map rowLengths) = b.vars.map fun v => b.vars.map fun w =>
      List.replicate v.userDimension w.userDimension := by
    have hzero : gridLengths (zeroBlocks b.vars : Grid α) = b.vars.map fun v => b.vars.map fun w =>
        List.replicate v.userDimension w.userDimension := by
      simp [gridLengths, zeroBlocks, rowLengths, filled, Function.comp_def]
    exact Eq.trans h hzero
  rw [← List.forall₂_eq_eq_eq, List.forall₂_map_left_iff, List.forall₂_map_right_iff] at hgrid
  refine hgrid.flip.imp fun v blocks hblocks => ?_
  have hrow : List.Forall₂ (fun a b : List Nat => a = b) (blocks.map rowLengths)
      (b.vars.map fun w => List.replicate v.userDimension w.userDimension) := by
    rw [List.forall₂_eq_eq_eq]
    exact hblocks
  rw [List.forall₂_map_left_iff, List.forall₂_map_right_iff] at hrow
  exact hrow.flip

/-- A patch lies at variables of the term, and its block has their extents. -/
theorem Filled.of_mem_patches {v w : Variable α} {block : Block α}
    (hmem : (v, w, block) ∈ b.patches) : v ∈ b.vars ∧ w ∈ b.vars ∧
      rowLengths block = List.replicate v.userDimension w.userDimension := by
  obtain ⟨⟨v', blocks⟩, hpair, hmem⟩ := List.mem_flatMap.1 hmem
  obtain ⟨⟨w', block'⟩, hpair', heq⟩ := List.mem_map.1 hmem
  simp only [Prod.mk.injEq] at heq
  obtain ⟨rfl, rfl, rfl⟩ := heq
  have hblocks := (List.forall₂_iff_zip.1 h.blocks).2 hpair
  exact ⟨(List.of_mem_zip hpair).1, (List.of_mem_zip hpair').1,
    (List.forall₂_iff_zip.1 hblocks).2 hpair'⟩

/-- Places and entries are listed in the same order, patch by patch. -/
theorem Filled.zip_places_entries : b.places.zip b.entries =
    b.patches.flatMap fun (v, w, block) => (blockPlaces v w).zip block.flatten := by
  have hblock {v w : Variable α} {block : Block α}
      (hblock : rowLengths block = List.replicate v.userDimension w.userDimension) :
      (blockPlaces v w).length = block.flatten.length := by
    rw [length_blockPlaces, List.length_flatten]
    exact (congrArg List.sum hblock).symm ▸ (by simp)
  have hblocks {v : Variable α} {blocks : List (Block α)} (hblocks : List.Forall₂ (fun w block =>
      rowLengths block = List.replicate v.userDimension w.userDimension) b.vars blocks) :
      List.Forall₂ (fun w block => (blockPlaces v w).length = block.flatten.length) b.vars blocks :=
    hblocks.imp fun _ _ => hblock
  have hrow {v : Variable α} {blocks : List (Block α)} (hrow : List.Forall₂ (fun w block =>
      (blockPlaces v w).length = block.flatten.length) b.vars blocks) :
      (b.vars.flatMap (blockPlaces v)).length = (blocks.flatMap List.flatten).length := by
    generalize b.vars = vars at hrow
    induction hrow with
    | nil => rfl
    | cons hhead _ ih => simp only [List.flatMap_cons, List.length_append, hhead, ih]
  rw [places, entries, zip_flatMap (h.blocks.imp fun v blocks hv => hrow (hblocks hv)), patches,
    List.flatMap_assoc]
  refine List.flatMap_congr ?_
  rintro ⟨v, blocks⟩ hmem
  have hv := hblocks ((List.forall₂_iff_zip.1 h.blocks).2 hmem)
  dsimp only
  rw [zip_flatMap hv, List.flatMap_map]

end Extents

/-! ### What lands at a place -/

omit [Backend α] in
/-- The places of the blocks lie inside of the matrix if the variables do. -/
theorem lt_of_mem_places {terms : List (Bound α)} {n : Nat}
    (hinside : ∀ b ∈ terms, ∀ v ∈ b.vars, v.offset + v.userDimension ≤ n) {place : Nat × Nat}
    (h : place ∈ terms.flatMap places) : place.1 < n ∧ place.2 < n := by
  obtain ⟨b, hb, hmem⟩ := List.mem_flatMap.1 h
  obtain ⟨v, hv, hmem⟩ := List.mem_flatMap.1 hmem
  obtain ⟨w, hw, hmem⟩ := List.mem_flatMap.1 hmem
  obtain ⟨r, hr, hmem⟩ := List.mem_flatMap.1 hmem
  obtain ⟨c, hc, rfl⟩ := List.mem_map.1 hmem
  rw [List.mem_range] at hr hc
  exact ⟨(Nat.add_lt_add_left hr _).trans_le (hinside b hb v hv),
    (Nat.add_lt_add_left hc _).trans_le (hinside b hb w hw)⟩

omit [Backend α] in
/-- The coordinates of the blocks, too. -/
theorem inside_coordinates {terms : List (Bound α)} {n : Nat}
    (hinside : ∀ b ∈ terms, ∀ v ∈ b.vars, v.offset + v.userDimension ≤ n) :
    (coordinates terms n).Inside := by
  rw [coordinates_eq]
  refine ⟨by simp, fun r hr => ?_, fun c hc => ?_⟩
  · obtain ⟨place, hplace, rfl⟩ := List.mem_map.1 hr
    exact (lt_of_mem_places hinside hplace).1
  · obtain ⟨place, hplace, rfl⟩ := List.mem_map.1 hc
    exact (lt_of_mem_places hinside hplace).2

omit [Backend α] in
theorem blockPlaces_eq (v w : Variable α) : blockPlaces v w =
    (List.range' v.offset v.userDimension).flatMap fun r =>
      (List.range' w.offset w.userDimension).map fun c => (r, c) := by
  rw [List.range'_eq_map_range, List.range'_eq_map_range, List.flatMap_map, blockPlaces]
  simp only [List.map_map]
  rfl

section Sums

variable [ExactAddition α]

/-- What the triplets of a patch add up to at a place is what lands there. -/
theorem sum_patch {v w : Variable α} {block : Block α}
    (hblock : rowLengths block = List.replicate v.userDimension w.userDimension) (r c : Nat) :
    sum (((blockPlaces v w).zip block.flatten).map fun (place, a) =>
      if place = (r, c) then a else 0) = landed v.offset w.offset block r c := by
  have hlength : v.userDimension = block.length := (length_of_rowLengths hblock).symm
  have hrow := length_row_of_rowLengths hblock
  have hrows : List.Forall₂ (fun i row =>
      ((List.range' w.offset w.userDimension).map fun c => (i, c)).length = (id row).length)
      (List.range' v.offset block.length) block := by
    refine List.forall₂_iff_zip.2 ⟨List.length_range', fun {i row} hmem => ?_⟩
    rw [List.length_map, List.length_range', id, hrow row (List.of_mem_zip hmem).2]
  -- In a row of the block only one column counts, and of all rows only one.
  have hcolumn : ∀ q ∈ (List.range' v.offset block.length).zip block,
      sum (((((List.range' w.offset w.userDimension).map fun c => (q.1, c)).zip (id q.2)).map
        fun (place, a) => if place = (r, c) then a else 0)) =
      if q.1 = r then (if w.offset ≤ c then q.2.getD (c - w.offset) 0 else 0) else 0 := by
    rintro ⟨i, row⟩ hmem
    have hwidth : w.userDimension = row.length := (hrow row (List.of_mem_zip hmem).2).symm
    rw [id, List.zip_map_left, List.map_map, hwidth]
    by_cases hi : i = r
    · have hsum := sum_numbered (fun a : α => a) 0 w.offset c row
      simp only [Function.comp_def, Prod.map, id, Prod.mk.injEq, hi, true_and, if_true, hsum]
      by_cases hc : w.offset ≤ c
      · by_cases hinside : c < w.offset + row.length
        · rw [if_pos ⟨hc, hinside⟩, if_pos hc]
        · rw [if_neg (by omega), if_pos hc, List.getD_eq_default _ _ (by omega)]
      · rw [if_neg (by omega), if_neg hc]
    · simp only [Function.comp_def, Prod.map, id, Prod.mk.injEq, hi, false_and, if_false,
        sum_map_zero]
  have hflatten : block.flatten = block.flatMap id := List.flatMap_id.symm
  rw [blockPlaces_eq, hlength, hflatten, zip_flatMap hrows, sum_map_flatMap,
    List.map_congr_left hcolumn]
  have hsum := sum_numbered (fun row : List α =>
    if w.offset ≤ c then row.getD (c - w.offset) 0 else 0) [] v.offset r block
  rw [hsum, landed, entryAt]
  by_cases hr : v.offset ≤ r
  · by_cases hinside : r < v.offset + block.length
    · simp only [hr, hinside, and_self, if_true, true_and]
    · have hempty : block.getD (r - v.offset) [] = [] := List.getD_eq_default _ _ (by omega)
      rw [if_neg (by omega), hempty, List.getD_nil, ite_self]
  · rw [if_neg (by omega), if_neg (by omega)]

/-- What the triplets of some terms add up to at a place. -/
theorem sum_triplets {terms : List (Bound α)} (h : ∀ b ∈ terms, b.Filled) (r c : Nat) :
    sum (((terms.flatMap places).zip (terms.flatMap entries)).map fun (place, a) =>
      if place = (r, c) then a else 0) =
    sum (terms.map fun b => sum (b.patches.map fun (v, w, block) =>
      landed v.offset w.offset block r c)) := by
  induction terms with
  | nil => rfl
  | cons b rest ih =>
      obtain ⟨hb, hrest⟩ := List.forall_mem_cons.1 h
      have hterm : sum ((b.places.zip b.entries).map fun (place, a) =>
          if place = (r, c) then a else 0) =
            sum (b.patches.map fun (v, w, block) => landed v.offset w.offset block r c) := by
        rw [hb.zip_places_entries, sum_map_flatMap]
        congr 1
        refine List.map_congr_left fun ⟨v, w, block⟩ hpatch => ?_
        exact sum_patch (hb.of_mem_patches hpatch).2.2 r c
      rw [List.flatMap_cons, List.flatMap_cons, List.zip_append (length_entries_eq hb).symm,
        List.map_append, sum_append, hterm, ih hrest, List.map_cons, sum_cons]

/-! ### The dense matrix -/

omit [ExactAddition α] in
theorem rowLengths_addBlock (top left : Nat) (block matrix : Block α) :
    rowLengths (addBlock top left block matrix) = rowLengths matrix := by
  apply List.ext_getElem? fun r => ?_
  simp only [rowLengths, addBlock, List.getElem?_map, List.getElem?_mapIdx, Option.map_map]
  congr 1
  funext row
  dsimp only [Function.comp_apply]
  split
  · split <;> simp
  · rfl

omit [ExactAddition α] in
theorem addAt_nil (start : Nat) (xs : List α) : addAt start [] xs = xs := by
  apply List.ext_getElem? fun k => ?_
  rw [getElem?_addAt]
  cases xs[k]? <;> simp

omit [ExactAddition α] in
/-- A row of a matrix after a block was added to it. -/
theorem getD_addBlock (top left : Nat) (block matrix : Block α) (r : Nat) :
    (addBlock top left block matrix).getD r [] =
      if top ≤ r then addAt left (block.getD (r - top) []) (matrix.getD r [])
      else matrix.getD r [] := by
  have hrow : (addBlock top left block matrix)[r]? = matrix[r]?.map fun row =>
      if top ≤ r then addAt left (block.getD (r - top) []) row else row := by
    rw [addBlock, List.getElem?_mapIdx]
    congr 1
    funext row
    rw [List.getD_eq_getElem?_getD]
    cases block[r - top]? with
    | none => simp only [Option.getD_none, addAt_nil]
    | some delta => rfl
  rw [List.getD_eq_getElem?_getD, hrow, List.getD_eq_getElem?_getD (l := matrix)]
  cases matrix[r]? with
  | none => exact (ite_self _).symm
  | some row => rfl

/-- Adding a block that lies inside of the matrix adds to every entry what lands there. -/
theorem entryAt_addBlock {n rows columns top left : Nat} {block matrix : Block α}
    (hmatrix : rowLengths matrix = List.replicate n n)
    (hblock : rowLengths block = List.replicate rows columns) (hbottom : top + rows ≤ n)
    (hright : left + columns ≤ n) (r c : Nat) :
    entryAt (addBlock top left block matrix) r c =
      entryAt matrix r c + landed top left block r c := by
  have hheight := length_of_rowLengths hmatrix
  have hlength := length_of_rowLengths hblock
  rw [entryAt, getD_addBlock, landed]
  by_cases htop : top ≤ r
  · rw [if_pos htop]
    by_cases hinside : r - top < rows
    · have hr : r < matrix.length := by omega
      have hr' : r - top < block.length := by omega
      have hwidth : (matrix.getD r []).length = n := by
        rw [List.getD_eq_getElem _ _ hr]
        exact length_row_of_rowLengths hmatrix _ (List.getElem_mem hr)
      have hwidth' : (block.getD (r - top) []).length = columns := by
        rw [List.getD_eq_getElem _ _ hr']
        exact length_row_of_rowLengths hblock _ (List.getElem_mem hr')
      rw [getD_addAt (by omega)]
      simp only [htop, true_and, entryAt]
    · have hempty : block.getD (r - top) [] = [] := List.getD_eq_default _ _ (by omega)
      rw [hempty, addAt_nil, entryAt, entryAt, hempty, List.getD_nil]
      split <;> exact (ExactAddition.add_zero _).symm
  · rw [if_neg htop, if_neg (fun h => htop h.1), entryAt, ExactAddition.add_zero]

/-- Whether a patch lies inside of a square matrix. -/
def Inside (n : Nat) : Variable α × Variable α × Block α → Prop
  | (v, w, block) => rowLengths block = List.replicate v.userDimension w.userDimension ∧
      v.offset + v.userDimension ≤ n ∧ w.offset + w.userDimension ≤ n

/-- Adding patches adds to every entry what lands there. -/
theorem entryAt_addPatches {n : Nat} {patches : List (Variable α × Variable α × Block α)}
    (h : ∀ patch ∈ patches, Inside n patch) {matrix : Block α}
    (hmatrix : rowLengths matrix = List.replicate n n) (r c : Nat) :
    entryAt (patches.foldl (fun matrix (v, w, block) =>
        addBlock v.offset w.offset block matrix) matrix) r c =
      entryAt matrix r c + sum (patches.map fun (v, w, block) =>
        landed v.offset w.offset block r c) := by
  induction patches generalizing matrix with
  | nil => exact (ExactAddition.add_zero _).symm
  | cons patch rest ih =>
      obtain ⟨⟨hblock, hbottom, hright⟩, hrest⟩ := List.forall_mem_cons.1 h
      obtain ⟨v, w, block⟩ := patch
      have hstep := (rowLengths_addBlock v.offset w.offset block matrix).trans hmatrix
      rw [List.foldl_cons, ih hrest hstep, entryAt_addBlock hmatrix hblock hbottom hright,
        List.map_cons, sum_cons, ExactAddition.add_assoc]

omit [ExactAddition α] in
/-- The dense matrix is made by adding the patches of all terms. -/
theorem dense_eq (terms : List (Bound α)) (n : Nat) :
    dense terms n = (terms.flatMap patches).foldl (fun matrix (v, w, block) =>
      addBlock v.offset w.offset block matrix) (filled n n 0) := by
  rw [dense, List.foldl_flatMap]
  congr 1
  funext matrix b
  rw [scatter, patches, List.foldl_flatMap]
  congr 1
  funext matrix ⟨v, blocks⟩
  rw [List.foldl_map]

omit [ExactAddition α] in
/-- The dense matrix is square, whatever the blocks are. -/
theorem rowLengths_dense (terms : List (Bound α)) (n : Nat) :
    rowLengths (dense terms n) = List.replicate n n := by
  have hfold (patches : List (Variable α × Variable α × Block α)) (matrix : Block α) :
      rowLengths (patches.foldl (fun matrix (v, w, block) =>
        addBlock v.offset w.offset block matrix) matrix) = rowLengths matrix := by
    induction patches generalizing matrix with
    | nil => rfl
    | cons patch rest ih => rw [List.foldl_cons, ih, rowLengths_addBlock]
  rw [dense_eq, hfold]
  simp [rowLengths, filled]

omit [ExactAddition α] in
theorem entryAt_filled_zero (n r c : Nat) : entryAt (filled n n (0 : α)) r c = 0 := by
  by_cases hr : r < n
  · have hrow : (filled n n (0 : α)).getD r [] = zeros n := by
      simp [filled, zeros, List.getD_eq_getElem?_getD, hr]
    rw [entryAt, hrow, getD_zeros]
  · simp [entryAt, filled, Nat.le_of_not_lt hr]

/-- The dense matrix adds up what lands at each place. -/
theorem entryAt_dense {terms : List (Bound α)} {n : Nat} (h : ∀ b ∈ terms, b.Filled)
    (hinside : ∀ b ∈ terms, ∀ v ∈ b.vars, v.offset + v.userDimension ≤ n) (r c : Nat) :
    entryAt (dense terms n) r c = sum (terms.map fun b =>
      sum (b.patches.map fun (v, w, block) => landed v.offset w.offset block r c)) := by
  have hpatches : ∀ patch ∈ terms.flatMap patches, Inside n patch := by
    rintro ⟨v, w, block⟩ hmem
    obtain ⟨b, hb, hpatch⟩ := List.mem_flatMap.1 hmem
    obtain ⟨hv, hw, hblock⟩ := (h b hb).of_mem_patches hpatch
    exact ⟨hblock, hinside b hb v hv, hinside b hb w hw⟩
  have hfilled : rowLengths (filled n n (0 : α)) = List.replicate n n := by
    simp [rowLengths, filled]
  rw [dense_eq, entryAt_addPatches hpatches hfilled, entryAt_filled_zero, ExactAddition.zero_add,
    sum_map_flatMap]

end Sums

end Bound

/-! ## Argument by argument -/

/-- Entry `(a, c)` of the block of the arguments `i` and `j`. -/
def Grid.entry (grid : Grid α) (i j a c : Nat) : α := entryAt ((grid.getD i []).getD j []) a c

namespace Bound

/-- What the blocks of a term contribute to an entry of the matrix: the sum over all ordered pairs
of arguments of the entry of their block that lands there. -/
def landing (b : Bound α) (grid : Grid α) (r c : Nat) : α :=
  sum (b.vars.zipIdx.map fun (v, i) => sum (b.vars.zipIdx.map fun (w, j) =>
    if v.Covers r ∧ w.Covers c then grid.entry i j (r - v.offset) (c - w.offset) else 0))

omit [Backend α] in
theorem zip_eq_zipIdx {β γ : Type} {xs : List β} {ys : List γ} (h : xs.length = ys.length)
    (default : γ) : xs.zip ys = xs.zipIdx.map fun (x, i) => (x, ys.getD i default) := by
  refine List.ext_getElem (by simp [h]) fun i hi hi' => ?_
  have hy : i < ys.length := by
    rw [List.length_zip] at hi
    omega
  simp [List.getD_eq_getElem?_getD, hy]

/-- Nothing lands outside of the extents of a block. -/
theorem landed_eq {v w : Variable α} (hv : v.solverDimension = v.userDimension)
    (hw : w.solverDimension = w.userDimension) {block : Block α}
    (hblock : rowLengths block = List.replicate v.userDimension w.userDimension) (r c : Nat) :
    landed v.offset w.offset block r c =
      if v.Covers r ∧ w.Covers c then entryAt block (r - v.offset) (c - w.offset) else 0 := by
  have hlength := length_of_rowLengths hblock
  unfold landed Variable.Covers Variable.stop
  by_cases hstart : v.offset ≤ r ∧ w.offset ≤ c
  · rw [if_pos hstart]
    by_cases hr : r < v.offset + v.solverDimension
    · by_cases hc : c < w.offset + w.solverDimension
      · rw [if_pos ⟨⟨hstart.1, hr⟩, hstart.2, hc⟩]
      · have hrow : r - v.offset < block.length := by omega
        have hwidth := length_row_of_rowLengths hblock _ (List.getElem_mem hrow)
        rw [if_neg fun h => hc h.2.2, entryAt, List.getD_eq_getElem _ _ hrow,
          List.getD_eq_default _ _ (by omega)]
    · rw [if_neg fun h => hr h.1.2, entryAt, List.getD_eq_default block _ (by omega),
        List.getD_nil]
  · rw [if_neg hstart, if_neg fun h => hstart ⟨h.1.1, h.2.1⟩]

variable [ExactAddition α]

/-- What lands at a place, argument by argument. -/
theorem landing_eq {b : Bound α} (h : b.Filled)
    (hplain : ∀ v ∈ b.vars, v.solverDimension = v.userDimension) (r c : Nat) :
    sum (b.patches.map fun (v, w, block) => landed v.offset w.offset block r c) =
      b.landing b.blocks r c := by
  obtain ⟨hlength, hblocks⟩ := List.forall₂_iff_zip.1 h.blocks
  rw [patches, sum_map_flatMap, zip_eq_zipIdx hlength [], List.map_map, landing]
  congr 1
  refine List.map_congr_left fun ⟨v, i⟩ hvi => ?_
  have hrow := hblocks (zip_eq_zipIdx hlength [] ▸ List.mem_map_of_mem hvi :
    (v, b.blocks.getD i []) ∈ b.vars.zip b.blocks)
  obtain ⟨hlength', hblock⟩ := List.forall₂_iff_zip.1 hrow
  dsimp only [Function.comp_apply]
  rw [List.map_map, zip_eq_zipIdx hlength' [], List.map_map]
  congr 1
  refine List.map_congr_left fun ⟨w, j⟩ hwj => ?_
  have hextents := hblock (zip_eq_zipIdx hlength' [] ▸ List.mem_map_of_mem hwj :
    (w, (b.blocks.getD i []).getD j []) ∈ b.vars.zip (b.blocks.getD i []))
  exact landed_eq (hplain v (List.fst_mem_of_mem_zipIdx hvi))
    (hplain w (List.fst_mem_of_mem_zipIdx hwj)) hextents r c

/-- Blocks that mirror each other make a symmetric matrix. -/
theorem landing_comm [Std.Commutative fun a b : α => a + b] (b : Bound α) {grid : Grid α}
    (h : ∀ i j a c, grid.entry i j a c = grid.entry j i c a) (r c : Nat) :
    b.landing grid r c = b.landing grid c r := by
  rw [landing, sum_exchange, landing]
  congr 1
  refine List.map_congr_left fun ⟨v, i⟩ _ => ?_
  congr 1
  refine List.map_congr_left fun ⟨w, j⟩ _ => ?_
  dsimp only
  rw [h]
  exact if_congr and_comm rfl rfl

end Bound

end Separable
