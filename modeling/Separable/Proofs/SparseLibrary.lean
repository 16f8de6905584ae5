import Mathlib.Data.List.GetD
import Mathlib.Data.List.Induction
import Mathlib.Data.List.Sort
import Separable.SparseLibrary

/-!
# What a library of sparse matrices makes of triplets

However a library goes about its three passes, what comes out is determined by what is documented
of them. To see this a row is looked up column by column. In a row whose columns ascend, and whose
runs are merged, a column finds the sum of the values that came with it, from left to right and
beginning with the first of them (`lookup_merged`). A row that is built up one entry at a time, each
of them inserted where its column belongs, finds the same (`lookup_summed`). Rows whose columns
ascend strictly are equal if every column finds the same in both (`ext_lookup`), so the two rows
are one. All that is proved of assembled matrices is proved of rows that are built up in this way.

Summing duplicates a second time finds columns that ascend strictly already, and changes nothing.

## Main results

* `SortedFrom.merged_eq`: sorting and merging a row is adding its entries up by columns.
* `sumDuplicates_ofRows`: the second and the third pass of any library add up the entries of rows.
* `assemble_eq`: an assembled matrix has the rows that the triplets add up to.
-/

namespace Separable

/-- The sum of some values from left to right, beginning with the first; no values have none. -/
def Scalar.sumFromFirst? {α : Type} [Add α] : List α → Option α
  | [] => none
  | first :: rest => some (rest.foldl (· + ·) first)

open Scalar

variable {α : Type} [Add α]

/-- One more value is added on the right. -/
theorem Scalar.sumFromFirst?_append_singleton (xs : List α) (x : α) :
    sumFromFirst? (xs ++ [x]) = some (((sumFromFirst? xs).map (· + x)).getD x) := by
  cases xs with
  | nil => rfl
  | cons first rest => simp [sumFromFirst?, List.foldl_append]

theorem Scalar.sumFromFirst?_eq_none_iff (xs : List α) : sumFromFirst? xs = none ↔ xs = [] := by
  cases xs <;> simp [sumFromFirst?]

namespace CompressedRows

/-! ## Looking columns up -/

omit [Add α] in
theorem lookup_cons (c d : Nat) (w : α) (rest : List (Nat × α)) :
    ((d, w) :: rest).lookup c = if c = d then some w else rest.lookup c := by
  rw [List.lookup_cons]
  by_cases hc : c = d
  · simp [hc]
  · have hne : (c == d) = false := by simpa using hc
    simp [hne, hc]

omit [Add α] in
/-- Nothing is found in front of all columns. -/
theorem lookup_eq_none {c : Nat} {entries : List (Nat × α)}
    (h : ∀ d ∈ entries.map (·.1), c < d) : entries.lookup c = none := by
  rw [List.lookup_eq_none_iff]
  intro entry hentry
  have hlt := h entry.1 (List.mem_map_of_mem hentry)
  simp only [bne_iff_ne, ne_eq]
  omega

omit [Add α] in
/-- With ascending columns, what is found in a column is what is stored there. -/
theorem lookup_eq_some_iff {entries : List (Nat × α)}
    (h : (entries.map (·.1)).Pairwise (· < ·)) (c : Nat) (v : α) :
    entries.lookup c = some v ↔ (c, v) ∈ entries := by
  induction entries with
  | nil => simp
  | cons entry rest ih =>
      obtain ⟨d, w⟩ := entry
      obtain ⟨hhead, hrest⟩ := List.pairwise_cons.1 h
      rw [lookup_cons, List.mem_cons, Prod.mk.injEq]
      by_cases hc : c = d
      · subst hc
        have hlater : (c, v) ∉ rest := fun hmem =>
          Nat.lt_irrefl c (hhead c (List.mem_map_of_mem (f := (·.1)) hmem))
        simp [hlater, eq_comm]
      · simp [hc, ih hrest]

omit [Add α] in
/-- Rows with ascending columns are equal if every column finds the same in both. -/
theorem ext_lookup {entries others : List (Nat × α)}
    (h : (entries.map (·.1)).Pairwise (· < ·)) (h' : (others.map (·.1)).Pairwise (· < ·))
    (heq : ∀ c, entries.lookup c = others.lookup c) : entries = others := by
  have : Std.Irrefl fun a b : Nat × α => a.1 < b.1 := ⟨fun a => Nat.lt_irrefl a.1⟩
  have : Std.Antisymm fun a b : Nat × α => a.1 < b.1 :=
    ⟨fun a b hab hba => absurd hab (Nat.lt_asymm hba)⟩
  refine List.Pairwise.eq_of_mem_iff (List.pairwise_map.1 h) (List.pairwise_map.1 h')
    fun (c, v) => ?_
  rw [← lookup_eq_some_iff h, heq, lookup_eq_some_iff h']

omit [Add α] in
/-- The values that a row has in a column, in their order. -/
def valuesOf (c : Nat) (entries : List (Nat × α)) : List α :=
  (entries.filter (·.1 = c)).map (·.2)

omit [Add α] in
theorem valuesOf_cons (c d : Nat) (w : α) (rest : List (Nat × α)) :
    valuesOf c ((d, w) :: rest) = if d = c then w :: valuesOf c rest else valuesOf c rest := by
  by_cases h : d = c <;> simp [valuesOf, h]

omit [Add α] in
theorem valuesOf_eq_nil {c : Nat} {entries : List (Nat × α)}
    (h : ∀ d ∈ entries.map (·.1), c < d) : valuesOf c entries = [] := by
  rw [valuesOf, List.map_eq_nil_iff, List.filter_eq_nil_iff]
  intro entry hentry
  have hlt := h entry.1 (List.mem_map_of_mem hentry)
  simp only [decide_eq_true_eq]
  omega

/-- With strictly ascending columns there is one value in a column, or none. -/
theorem sumFromFirst?_valuesOf {entries : List (Nat × α)}
    (h : (entries.map (·.1)).Pairwise (· < ·)) (c : Nat) :
    sumFromFirst? (valuesOf c entries) = entries.lookup c := by
  induction entries with
  | nil => rfl
  | cons entry rest ih =>
      obtain ⟨d, w⟩ := entry
      obtain ⟨hhead, hrest⟩ := List.pairwise_cons.1 h
      rw [valuesOf_cons, lookup_cons]
      by_cases hc : d = c
      · subst hc
        rw [if_pos rfl, if_pos rfl, valuesOf_eq_nil hhead]
        rfl
      · rw [if_neg hc, if_neg (Ne.symm hc), ih hrest]

/-! ## Merged rows -/

/-- Merging adds no column. -/
theorem columns_mergedFrom (column : Nat) (value : α) (rest : List (Nat × α)) :
    ∀ c ∈ (mergedFrom column value rest).map (·.1), c = column ∨ c ∈ rest.map (·.1) := by
  fun_induction mergedFrom column value rest <;> grind

/-- Once the runs are merged no column is repeated. -/
theorem ascending_mergedFrom {column : Nat} {value : α} {rest : List (Nat × α)}
    (h : (((column, value) :: rest).map (·.1)).Pairwise (· ≤ ·)) :
    ((mergedFrom column value rest).map (·.1)).Pairwise (· < ·) := by
  fun_induction mergedFrom column value rest with
  | case1 => simp
  | case2 column value v rest ih => exact ih (List.pairwise_cons.1 h).2
  | case3 column value c v rest hne ih =>
      obtain ⟨hhead, hrest⟩ := List.pairwise_cons.1 h
      refine List.pairwise_cons.2 ⟨fun d hd => ?_, ih hrest⟩
      have hc : column < c := Nat.lt_of_le_of_ne (hhead c List.mem_cons_self) (Ne.symm hne)
      rcases columns_mergedFrom c v rest d hd with rfl | hd
      · exact hc
      · exact hc.trans_le ((List.pairwise_cons.1 hrest).1 d hd)

/-- A column finds the sum of its run. -/
theorem lookup_mergedFrom {column : Nat} {value : α} {rest : List (Nat × α)}
    (h : (((column, value) :: rest).map (·.1)).Pairwise (· ≤ ·)) (c : Nat) :
    (mergedFrom column value rest).lookup c =
      sumFromFirst? (valuesOf c ((column, value) :: rest)) := by
  fun_induction mergedFrom column value rest with
  | case1 column value =>
      rw [lookup_cons, valuesOf_cons]
      by_cases hc : c = column
      · simp [hc, valuesOf, sumFromFirst?]
      · simp [hc, Ne.symm hc, valuesOf, sumFromFirst?]
  | case2 column value v rest ih =>
      rw [ih (List.pairwise_cons.1 h).2]
      simp only [valuesOf_cons]
      split <;> rfl
  | case3 column value d v rest hne ih =>
      obtain ⟨hhead, hrest⟩ := List.pairwise_cons.1 h
      have hd : column < d := Nat.lt_of_le_of_ne (hhead d List.mem_cons_self) (Ne.symm hne)
      rw [lookup_cons, valuesOf_cons, ih hrest]
      by_cases hc : c = column
      · have hlater : valuesOf column ((d, v) :: rest) = [] := by
          refine valuesOf_eq_nil (List.forall_mem_cons.2 ⟨hd, fun e he => ?_⟩)
          exact hd.trans_le ((List.pairwise_cons.1 hrest).1 e he)
        rw [hc, if_pos rfl, if_pos rfl, hlater]
        rfl
      · rw [if_neg hc, if_neg (Ne.symm hc)]

theorem ascending_merged {entries : List (Nat × α)}
    (h : (entries.map (·.1)).Pairwise (· ≤ ·)) :
    ((merged entries).map (·.1)).Pairwise (· < ·) := by
  cases entries with
  | nil => exact .nil
  | cons entry rest => exact ascending_mergedFrom h

theorem lookup_merged {entries : List (Nat × α)} (h : (entries.map (·.1)).Pairwise (· ≤ ·))
    (c : Nat) : (merged entries).lookup c = sumFromFirst? (valuesOf c entries) := by
  cases entries with
  | nil => rfl
  | cons entry rest => exact lookup_mergedFrom h c

/-! ## Rows that are built up -/

/-- Adds a value to a row that is kept by ascending columns. -/
def insert (column : Nat) (value : α) : List (Nat × α) → List (Nat × α)
  | [] => [(column, value)]
  | (c, v) :: rest =>
    if column < c then (column, value) :: (c, v) :: rest
    else if column = c then (c, v + value) :: rest
    else (c, v) :: insert column value rest

/-- The entries of a row, added up by columns. -/
def summed (entries : List (Nat × α)) : List (Nat × α) :=
  entries.foldl (fun row entry => insert entry.1 entry.2 row) []

theorem summed_append_singleton (entries : List (Nat × α)) (entry : Nat × α) :
    summed (entries ++ [entry]) = insert entry.1 entry.2 (summed entries) := by
  simp [summed, List.foldl_append]

theorem columns_insert (column : Nat) (value : α) (entries : List (Nat × α)) (c : Nat) :
    c ∈ (insert column value entries).map (·.1) ↔ c = column ∨ c ∈ entries.map (·.1) := by
  fun_induction insert column value entries <;> grind

theorem ascending_insert {column : Nat} {value : α} {entries : List (Nat × α)}
    (h : (entries.map (·.1)).Pairwise (· < ·)) :
    ((insert column value entries).map (·.1)).Pairwise (· < ·) := by
  fun_induction insert column value entries with
  | case1 => simp
  | case2 c v rest hlt =>
      have hhead := (List.pairwise_cons.1 h).1
      refine List.pairwise_cons.2 ⟨fun d hd => ?_, h⟩
      rcases List.mem_cons.1 hd with rfl | hd
      · exact hlt
      · exact hlt.trans (hhead d hd)
  | case3 v rest hlt => exact h
  | case4 c v rest hlt hne ih =>
      obtain ⟨hhead, hrest⟩ := List.pairwise_cons.1 h
      refine List.pairwise_cons.2 ⟨fun d hd => ?_, ih hrest⟩
      rcases (columns_insert column value rest d).1 hd with rfl | hd
      · show c < d
        omega
      · exact hhead d hd

theorem ascending_summed (entries : List (Nat × α)) :
    ((summed entries).map (·.1)).Pairwise (· < ·) := by
  induction entries using List.reverseRecOn with
  | nil => exact .nil
  | append_singleton entries entry ih =>
      rw [summed_append_singleton]
      exact ascending_insert ih

/-- One more entry is found in its column, on the right of what was there, and changes no other
column. -/
theorem lookup_insert (column : Nat) (value : α) {entries : List (Nat × α)}
    (h : (entries.map (·.1)).Pairwise (· < ·)) (c : Nat) :
    (insert column value entries).lookup c =
      if c = column then some (((entries.lookup c).map (· + value)).getD value)
      else entries.lookup c := by
  fun_induction insert column value entries with
  | case1 => simp only [lookup_cons, List.lookup_nil, Option.map_none, Option.getD_none]
  | case2 d w rest hlt =>
      have hnew : ((d, w) :: rest).lookup column = none := by
        refine lookup_eq_none fun e he => ?_
        rcases List.mem_cons.1 he with rfl | he
        · exact hlt
        · exact hlt.trans ((List.pairwise_cons.1 h).1 e he)
      rw [lookup_cons]
      by_cases hc : c = column
      · rw [if_pos hc, if_pos hc, hc, hnew]
        rfl
      · rw [if_neg hc, if_neg hc]
  | case3 w rest hlt =>
      simp only [lookup_cons]
      by_cases hc : c = column <;> simp [hc]
  | case4 d w rest hlt hne ih =>
      rw [lookup_cons, ih (List.pairwise_cons.1 h).2, lookup_cons]
      by_cases hc : c = d
      · have hother : c ≠ column := fun heq => hne (heq.symm.trans hc)
        simp only [hc, if_true]
        rw [if_neg (hc ▸ hother)]
      · rw [if_neg hc, if_neg hc]

/-- A column finds the sum of the values that came with it. -/
theorem lookup_summed (c : Nat) (entries : List (Nat × α)) :
    (summed entries).lookup c = sumFromFirst? (valuesOf c entries) := by
  induction entries using List.reverseRecOn with
  | nil => rfl
  | append_singleton entries entry ih =>
      rw [summed_append_singleton, lookup_insert _ _ (ascending_summed entries), ih]
      by_cases hc : c = entry.1
      · simp [hc, valuesOf, sumFromFirst?_append_singleton]
      · simp [hc, Ne.symm hc, valuesOf]

/-- Adding up by columns leaves a row alone whose columns ascend strictly. -/
theorem summed_of_ascending {entries : List (Nat × α)}
    (h : (entries.map (·.1)).Pairwise (· < ·)) : summed entries = entries :=
  ext_lookup (ascending_summed entries) h fun c =>
    (lookup_summed c entries).trans (sumFromFirst?_valuesOf h c)

/-- Sorting and merging a row is adding its entries up by columns. -/
theorem SortedFrom.merged_eq {row sorted : List (Nat × α)} (h : SortedFrom row sorted) :
    merged sorted = summed row :=
  ext_lookup (ascending_merged h.ascending) (ascending_summed row) fun c => by
    rw [lookup_merged h.ascending, lookup_summed, valuesOf, h.stable, valuesOf]

omit [Add α] in
theorem SortedFrom.mem_iff {row sorted : List (Nat × α)} (h : SortedFrom row sorted)
    (entry : Nat × α) : entry ∈ sorted ↔ entry ∈ row := by
  have hmem := congrArg (entry ∈ ·) (h.stable entry.1)
  simpa [List.mem_filter] using hmem

/-- The entries of row `r`, added up by columns. -/
def row (r : Nat) (triplets : List (Nat × Nat × α)) : List (Nat × α) :=
  summed (entriesIn r triplets)

theorem row_append_singleton (r : Nat) (triplets : List (Nat × Nat × α)) (t : Nat × Nat × α) :
    row r (triplets ++ [t]) =
      if t.1 = r then insert t.2.1 t.2.2 (row r triplets) else row r triplets := by
  rw [row, entriesIn, List.filterMap_append]
  by_cases hr : t.1 = r
  · simp [hr, row, entriesIn, summed_append_singleton]
  · simp [hr, row, entriesIn]

theorem ascending_row (r : Nat) (triplets : List (Nat × Nat × α)) :
    ((row r triplets).map (·.1)).Pairwise (· < ·) :=
  ascending_summed _

omit [Add α] in
/-- The values that come with a place, in their order. -/
def valuesAt (r c : Nat) (triplets : List (Nat × Nat × α)) : List α :=
  triplets.filterMap fun (i, j, value) => if i = r ∧ j = c then some value else none

omit [Add α] in
theorem valuesOf_entriesIn (r c : Nat) (triplets : List (Nat × Nat × α)) :
    valuesOf c (entriesIn r triplets) = valuesAt r c triplets := by
  induction triplets with
  | nil => rfl
  | cons t rest ih =>
      obtain ⟨i, j, value⟩ := t
      simp only [entriesIn, valuesAt, List.filterMap_cons] at ih ⊢
      by_cases hi : i = r <;> by_cases hj : j = c <;> simp [hi, hj, ih, valuesOf_cons]

/-- What a row finds in a column is the sum of the values that came with it. -/
theorem lookup_row (r c : Nat) (triplets : List (Nat × Nat × α)) :
    (row r triplets).lookup c = sumFromFirst? (valuesAt r c triplets) := by
  rw [row, lookup_summed, valuesOf_entriesIn]

/-- A row stores in each column the sum of the values that came with it. -/
theorem mem_row (r c : Nat) (v : α) (triplets : List (Nat × Nat × α)) :
    (c, v) ∈ row r triplets ↔ sumFromFirst? (valuesAt r c triplets) = some v := by
  rw [← lookup_row, lookup_eq_some_iff (ascending_row r triplets)]

/-- Adding up by columns adds no column. -/
theorem columns_summed (entries : List (Nat × α)) (c : Nat) :
    c ∈ (summed entries).map (·.1) ↔ c ∈ entries.map (·.1) := by
  induction entries using List.reverseRecOn with
  | nil => rfl
  | append_singleton entries entry ih =>
      rw [summed_append_singleton, columns_insert, ih, List.map_append, List.mem_append]
      simp [or_comm]

end CompressedRows

/-! ## What a library makes of rows -/

open CompressedRows

section Library

variable {shape : Nat × Nat} {rows : List (List (Nat × α))}

omit [Add α] in
theorem CompressedRows.Lie.of_columns {others : List (List (Nat × α))} (h : Lie shape rows)
    (hlength : others.length = rows.length)
    (hcolumns : ∀ r, ∀ c ∈ (others.getD r []).map (·.1), c ∈ (rows.getD r []).map (·.1)) :
    Lie shape others where
  length := hlength.trans h.length
  columns := by
    intro other hother entry hentry
    obtain ⟨r, hr, rfl⟩ := List.getElem_of_mem hother
    have hr' : r < rows.length := hlength ▸ hr
    have hmem := hcolumns r entry.1 (by
      rw [List.getD_eq_getElem _ _ hr]
      exact List.mem_map_of_mem hentry)
    rw [List.getD_eq_getElem _ _ hr'] at hmem
    obtain ⟨origin, horigin, heq⟩ := List.mem_map.1 hmem
    exact heq ▸ h.columns _ (List.getElem_mem hr') origin horigin

omit [Add α] in
/-- Triplets that lie in a matrix have rows that do. -/
theorem Coordinates.Inside.lie {places : Coordinates} (h : places.Inside) (values : List α) :
    Lie places.shape
      ((List.range places.shape.1).map fun r => entriesIn r (triplets places values)) where
  length := by simp
  columns := by
    intro row hrow entry hentry
    obtain ⟨r, -, rfl⟩ := List.mem_map.1 hrow
    obtain ⟨⟨i, j, value⟩, hmem, hsome⟩ := List.mem_filterMap.1 hentry
    have hj := (List.of_mem_zip (List.of_mem_zip hmem).2).1
    obtain ⟨-, heq⟩ := Option.ite_none_right_eq_some.1 hsome
    exact congrArg Prod.fst (Option.some.inj heq) ▸ h.columns j hj

namespace SparseLibrary

variable (library : SparseLibrary α)

/-- The second and the third pass add up the entries of each row by columns. -/
theorem sumDuplicates_ofRows (h : Lie shape rows) :
    library.sumDuplicates (ofRows shape rows) = ofRows shape (rows.map summed) := by
  obtain ⟨sorted, hsorted, hlength, hrows⟩ := library.sortColumns_eq shape rows h
  have hlie : Lie shape sorted := h.of_columns hlength fun r c hc => by
    obtain ⟨entry, hentry, rfl⟩ := List.mem_map.1 hc
    exact List.mem_map_of_mem (((hrows r).mem_iff entry).1 hentry)
  have hascending : ∀ row ∈ sorted, (row.map (·.1)).Pairwise (· ≤ ·) := by
    intro row hrow
    obtain ⟨r, hr, rfl⟩ := List.getElem_of_mem hrow
    exact List.getD_eq_getElem sorted [] hr ▸ (hrows r).ascending
  have hmerged : sorted.map merged = rows.map summed := by
    refine List.ext_getElem (by simpa using hlength) fun r hr hr' => ?_
    rw [List.length_map] at hr hr'
    have hrow := (hrows r).merged_eq
    rwa [List.getD_eq_getElem _ _ hr, List.getD_eq_getElem _ _ hr', ← List.getElem_map merged,
      ← List.getElem_map summed] at hrow
  rw [sumDuplicates, hsorted, library.mergeRuns_eq shape sorted hlie hascending, hmerged]

/-- Triplets that lie in the matrix are compressed to the rows that they add up to. -/
theorem compress_eq {places : Coordinates} {values : List α} (h : places.Inside)
    (hvalues : values.length = places.size) : library.compress places values =
      ofRows places.shape
        ((List.range places.shape.1).map fun r => row r (triplets places values)) := by
  rw [compress, library.bucket_eq places values h hvalues,
    library.sumDuplicates_ofRows (h.lie values), List.map_map]
  rfl

/-- There is nothing left to be summed then. -/
theorem sumDuplicates_compress {places : Coordinates} {values : List α} (h : places.Inside)
    (hvalues : values.length = places.size) :
    library.sumDuplicates (library.compress places values) = library.compress places values := by
  have hlie : Lie places.shape
      ((List.range places.shape.1).map fun r => row r (triplets places values)) := by
    refine (h.lie values).of_columns (by simp) fun r c hc => ?_
    simp only [List.getD_eq_getElem?_getD, List.getElem?_map] at hc ⊢
    cases hr : (List.range places.shape.1)[r]? with
    | none => simp [hr] at hc
    | some i =>
        rw [hr] at hc
        exact (columns_summed _ c).1 hc
  rw [library.compress_eq h hvalues, library.sumDuplicates_ofRows hlie, List.map_map]
  congr 1
  exact List.map_congr_left fun r _ => summed_of_ascending (ascending_row r _)

end SparseLibrary

end Library

/-- An assembled matrix has the rows that the triplets add up to. -/
theorem CompressedRows.assemble_eq {α : Type} [Backend α] {places : Coordinates} {values : List α}
    (h : places.Inside) (hvalues : values.length = places.rows.length) :
    assemble places values = .ok (ofRows places.shape
      ((List.range places.shape.1).map fun r => row r (triplets places values))) := by
  rw [assemble, if_neg (not_not.2 hvalues), if_neg (not_not.2 h.length_columns),
    SparseLibrary.sumDuplicates_compress _ h hvalues, SparseLibrary.compress_eq _ h hvalues]

end Separable
