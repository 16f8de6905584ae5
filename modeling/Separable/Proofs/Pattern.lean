import Separable.Proofs.Hessian
import Separable.Proofs.Multiplicity

/-!
# The pattern of a Hessian

A graph can be asked for the structure of its Hessian before it is ever evaluated. The pattern has
one triplet of value one at every place of every block, and is assembled as a sparse Hessian is, so
both have the same rows and columns, wherever the Hessian is evaluated and whatever its entries are:
an entry that happens to be zero, or that other blocks cancel, is kept.

A block belongs to an ordered pair of arguments of a term and covers the places in the rows of the
one and the columns of the other. Where the terms touch no reparameterized variable a block has
exactly one triplet at each place that it covers, so the pattern counts there how many blocks
overlap. Where no block lies, nothing is ever added to a dense Hessian.

## Main results

* `Bound.count_places`: how many triplets meet at a place.
* `Bound.entryAt_dense_of_uncovered`: a dense matrix is zero where no block lies.
* `Graph.result_pattern`: a pattern is assembled from the places of all blocks.
* `pattern_of_hessians`: the pattern of a graph and its Hessians.
-/

namespace Separable

open Scalar

variable {α : Type} [Backend α]

/-! ## Covered places -/

namespace Bound

omit [Backend α] in
/-- The ordered pairs of arguments; each of them has a block. -/
def pairs (b : Bound α) : List (Variable α × Variable α) :=
  b.vars.flatMap fun v => b.vars.map fun w => (v, w)

omit [Backend α] in
/-- How many blocks of some terms cover a place: the pairs of arguments of which the first has the
row and the second the column. -/
def coverage (terms : List (Bound α)) (r c : Nat) : Nat :=
  (terms.flatMap pairs).countP fun pair => pair.1.Covers r ∧ pair.2.Covers c

omit [Backend α] in
theorem flatMap_places (terms : List (Bound α)) :
    terms.flatMap places = (terms.flatMap pairs).flatMap fun pair => blockPlaces pair.1 pair.2 := by
  rw [List.flatMap_assoc]
  refine List.flatMap_congr fun b _ => ?_
  rw [pairs, places, List.flatMap_assoc]
  simp only [List.flatMap_map]

omit [Backend α] in
theorem mem_blockPlaces {v w : Variable α} {r c : Nat} :
    (r, c) ∈ blockPlaces v w ↔
      (v.offset ≤ r ∧ r < v.offset + v.userDimension) ∧
        w.offset ≤ c ∧ c < w.offset + w.userDimension := by
  simp [blockPlaces_eq, List.mem_range'_1]

omit [Backend α] in
/-- A block has one triplet at each place that it covers. -/
theorem count_blockPlaces {v w : Variable α} (hv : v.solverDimension = v.userDimension)
    (hw : w.solverDimension = w.userDimension) (r c : Nat) :
    (blockPlaces v w).count (r, c) = if v.Covers r ∧ w.Covers c then 1 else 0 := by
  have hnodup : (blockPlaces v w).Nodup := by
    rw [blockPlaces_eq]
    exact List.Nodup.product List.nodup_range' List.nodup_range'
  have hmem : (r, c) ∈ blockPlaces v w ↔ v.Covers r ∧ w.Covers c := by
    rw [mem_blockPlaces, Variable.Covers, Variable.Covers, Variable.stop, Variable.stop, hv, hw]
  split
  · next hcovers => exact List.count_eq_one_of_mem hnodup (hmem.2 hcovers)
  · next hcovers => exact List.count_eq_zero_of_not_mem fun h => hcovers (hmem.1 h)

omit [Backend α] in
/-- As many triplets meet at a place as blocks cover it. -/
theorem count_places {terms : List (Bound α)}
    (hplain : ∀ b ∈ terms, ∀ v ∈ b.vars, v.solverDimension = v.userDimension) (r c : Nat) :
    (terms.flatMap places).count (r, c) = coverage terms r c := by
  have hpairs : ∀ pair ∈ terms.flatMap pairs, pair.1.solverDimension = pair.1.userDimension ∧
      pair.2.solverDimension = pair.2.userDimension := by
    intro pair hpair
    obtain ⟨b, hb, hmem⟩ := List.mem_flatMap.1 hpair
    obtain ⟨v, hv, hmem⟩ := List.mem_flatMap.1 hmem
    obtain ⟨w, hw, rfl⟩ := List.mem_map.1 hmem
    exact ⟨hplain b hb v hv, hplain b hb w hw⟩
  rw [flatMap_places, coverage]
  generalize terms.flatMap pairs = all at hpairs
  induction all with
  | nil => rfl
  | cons pair rest ih =>
      obtain ⟨⟨hv, hw⟩, hrest⟩ := List.forall_mem_cons.1 hpairs
      rw [List.flatMap_cons, List.count_append, ih hrest, count_blockPlaces hv hw, List.countP_cons,
        Nat.add_comm]
      simp

omit [Backend α] in
theorem hits_coordinates (terms : List (Bound α)) (scalars : Nat) :
    CompressedRows.hits (coordinates terms scalars) = terms.flatMap places := by
  rw [CompressedRows.hits, coordinates_eq, List.zip_map']
  exact List.map_id _

/-! ## Uncovered places -/

/-- Adding a block leaves the entries beside it alone. -/
theorem entryAt_addBlock_of_outside {top left rows columns : Nat} {block : Block α}
    (hblock : rowLengths block = List.replicate rows columns) {r c : Nat}
    (h : ¬((top ≤ r ∧ r < top + rows) ∧ left ≤ c ∧ c < left + columns)) (matrix : Block α) :
    entryAt (addBlock top left block matrix) r c = entryAt matrix r c := by
  rw [entryAt, getD_addBlock, entryAt]
  by_cases htop : top ≤ r
  · have hdelta : left ≤ c → (block.getD (r - top) [])[c - left]? = none := by
      intro hleft
      by_cases hr : r - top < block.length
      · have hwidth := length_row_of_rowLengths hblock _ (List.getElem_mem hr)
        have hlength := length_of_rowLengths hblock
        rw [List.getD_eq_getElem _ _ hr, List.getElem?_eq_none_iff]
        omega
      · rw [List.getD_eq_default _ _ (Nat.le_of_not_lt hr)]
        rfl
    rw [if_pos htop, List.getD_eq_getElem?_getD, getElem?_addAt,
      List.getD_eq_getElem?_getD (l := matrix.getD r [])]
    by_cases hleft : left ≤ c
    · simp only [if_pos hleft, hdelta hleft, Option.map_id']
    · simp only [if_neg hleft, Option.map_id']
  · rw [if_neg htop]

/-- A dense matrix is zero where no block lies. -/
theorem entryAt_dense_of_uncovered {terms : List (Bound α)} (h : ∀ b ∈ terms, b.Filled)
    (hplain : ∀ b ∈ terms, ∀ v ∈ b.vars, v.solverDimension = v.userDimension) (n : Nat) {r c : Nat}
    (huncovered : coverage terms r c = 0) : entryAt (dense terms n) r c = 0 := by
  have houtside : ∀ patch ∈ terms.flatMap patches, ∀ matrix : Block α,
      entryAt (addBlock patch.1.offset patch.2.1.offset patch.2.2 matrix) r c =
        entryAt matrix r c := by
    rintro ⟨v, w, block⟩ hpatch matrix
    obtain ⟨b, hb, hmem⟩ := List.mem_flatMap.1 hpatch
    obtain ⟨hv, hw, hblock⟩ := (h b hb).of_mem_patches hmem
    refine entryAt_addBlock_of_outside hblock (fun hinside => ?_) matrix
    have hpair : (v, w) ∈ terms.flatMap pairs :=
      List.mem_flatMap.2 ⟨b, hb, List.mem_flatMap.2 ⟨v, hv, List.mem_map_of_mem hw⟩⟩
    refine List.countP_eq_zero.1 huncovered _ hpair (decide_eq_true ?_)
    rwa [Variable.Covers, Variable.Covers, Variable.stop, Variable.stop, hplain b hb v hv,
      hplain b hb w hw]
  have hfold (patches : List (Variable α × Variable α × Block α)) (matrix : Block α)
      (hpatches : ∀ patch ∈ patches, ∀ matrix : Block α,
        entryAt (addBlock patch.1.offset patch.2.1.offset patch.2.2 matrix) r c =
          entryAt matrix r c) :
      entryAt (patches.foldl (fun matrix patch =>
        addBlock patch.1.offset patch.2.1.offset patch.2.2 matrix) matrix) r c =
          entryAt matrix r c := by
    induction patches generalizing matrix with
    | nil => rfl
    | cons patch rest ih =>
        obtain ⟨hpatch, hrest⟩ := List.forall_mem_cons.1 hpatches
        exact (ih _ hrest).trans (hpatch matrix)
  rw [dense_eq]
  exact (hfold _ _ houtside).trans (entryAt_filled_zero n r c)

/-! ## Assembled matrices -/

theorem exists_pattern (terms : List (Bound α)) (n : Nat) :
    ∃ pattern : CompressedRows α, CompressedRows.assemble (coordinates terms n)
      (List.replicate (coordinates terms n).size 1) = .ok pattern :=
  CompressedRows.exists_assemble (by simp [Coordinates.size]) (length_columns_coordinates terms n)

section Pattern

variable {terms : List (Bound α)} {n : Nat} {pattern : CompressedRows α}
  (hinside : ∀ b ∈ terms, ∀ v ∈ b.vars, v.offset + v.userDimension ≤ n)
  (hpattern : CompressedRows.assemble (coordinates terms n)
    (List.replicate (coordinates terms n).size 1) = .ok pattern)

include hinside hpattern

/-- A row of the pattern. -/
theorem entriesOf_pattern
    (hplain : ∀ b ∈ terms, ∀ v ∈ b.vars, v.solverDimension = v.userDimension) {r : Nat}
    (hr : r < n) : ((pattern.entriesOf r).map (·.1)).Pairwise (· < ·) ∧
      ∀ c count, (c, count) ∈ pattern.entriesOf r ↔
        0 < coverage terms r c ∧ count = tally (coverage terms r c) := by
  refine ⟨?_, fun c count => ?_⟩
  · rw [CompressedRows.map_fst_entriesOf (inside_coordinates hinside) hpattern hr]
    exact CompressedRows.ascending_countRow r _
  · rw [CompressedRows.entriesOf_ones (inside_coordinates hinside) hpattern hr, List.mem_map]
    constructor
    · rintro ⟨⟨c', n⟩, hmem, heq⟩
      obtain ⟨rfl, rfl⟩ := Prod.mk.inj heq
      obtain ⟨hpos, rfl⟩ := (CompressedRows.mem_countRow _ _ _ _).1 hmem
      rw [hits_coordinates, count_places hplain] at hpos ⊢
      exact ⟨hpos, rfl⟩
    · rintro ⟨hpos, rfl⟩
      refine ⟨(c, coverage terms r c), (CompressedRows.mem_countRow _ _ _ _).2 ⟨hpos, ?_⟩, rfl⟩
      rw [hits_coordinates, count_places hplain]

/-- The pattern counts every triplet once. -/
theorem values_pattern :
    ∃ counts : List Nat, pattern.values = counts.map tally ∧
      counts.sum = (terms.flatMap places).length := by
  rw [← hits_coordinates terms n]
  exact CompressedRows.values_ones (inside_coordinates hinside) hpattern

end Pattern

end Bound

/-! ## A graph -/

/-- A pattern is assembled from the places of all blocks, with a one at each. -/
theorem Graph.result_pattern {g : Graph α} (hg : g.Sound) (henabled : g.hessianEnabled = true)
    (hplain : ∀ b ∈ g.terms, ∀ v ∈ b.vars, v.reparam = none) :
    (pattern g).result = CompressedRows.assemble (Bound.coordinates g.terms g.scalars)
      (List.replicate (Bound.coordinates g.terms g.scalars).size 1) := by
  have hserves := (serves_current hg).2
  have hsupports : g.current.supportsHessian = true := by
    rw [hserves.supportsHessian, Bound.any_hasReparam_eq_false hplain]
    rfl
  have hcoordinates : g.current.coordinates = some (Bound.coordinates g.terms g.scalars) := by
    rw [hserves.coordinates, if_pos henabled]
  have hrequire (condition : Bool) (fault : Fault) (h : Graph α) (hcondition : condition = true) :
      (Action.require condition fault h : Outcome (Graph α) α Unit).result = .ok () := by
    rw [Action.result_require, if_pos hcondition]
  rw [pattern, Action.result_bind_of_ok (Action.result_get g),
    Action.result_bind_of_ok (hrequire _ _ _ henabled), Action.state_get, Action.state_require,
    Action.result_bind_of_ok (result_refreshed g), state_refreshed,
    Action.result_bind_of_ok (hrequire _ _ _ hsupports), hcoordinates]
  rfl

/-- A sparse Hessian has the rows and columns of the pattern, whatever its entries are. The columns
of a row ascend strictly. The pattern counts at each place how many blocks of terms cover it, and
counts every triplet once; and a dense Hessian is zero outside of the pattern. -/
theorem pattern_of_hessians {g : Graph α} (hg : g.Reachable) (henabled : g.hessianEnabled = true)
    (hplain : ∀ b ∈ g.terms, ∀ v ∈ b.vars, v.reparam = none) (m : Multipliers α) {x : List α}
    (hx : x.length = g.scalars)
    (hload : (Registry.load (.ofVector x) g.registry).result = .ok ())
    {buffer : Option (Tensor α)}
    (hbuffer : ∀ b, buffer = some b → b.shape = [g.scalars] ∧ b.kind.refusingSums? = none)
    {value : Bound α → α} {slopes : Bound α → Rows α} {blocks : Bound α → Grid α}
    (hterms : ∀ b ∈ g.terms, (b.summand.resolve m).hessian (b.vars.map (·.part x)) b.zeroRows
      (Bound.zeroBlocks b.vars) = ((slopes b, blocks b), .ok (value b))) :
    ∃ (pattern rows : CompressedRows α) (matrix : Block α) (d e : Derivatives α),
      (Graph.pattern g).result = .ok pattern ∧
      (Graph.derivatives m (.ofVector x) (some .sparse) (g, buffer)).result = .ok d ∧
      d.hessian = some (.sparse rows) ∧
      (Graph.derivatives m (.ofVector x) (some .dense) (g, buffer)).result = .ok e ∧
      e.hessian = some (.dense matrix) ∧
      rows.shape = pattern.shape ∧ rows.starts = pattern.starts ∧
      rows.columns = pattern.columns ∧ pattern.shape = (g.scalars, g.scalars) ∧
      (∀ r < g.scalars, ((pattern.entriesOf r).map (·.1)).Pairwise (· < ·) ∧
        ∀ c count, (c, count) ∈ pattern.entriesOf r ↔
          0 < Bound.coverage g.terms r c ∧ count = tally (Bound.coverage g.terms r c)) ∧
      (∃ counts : List Nat, pattern.values = counts.map tally ∧
        counts.sum = (g.terms.flatMap Bound.places).length) ∧
      (ExactAddition α → sum pattern.values = tally (g.terms.flatMap Bound.places).length) ∧
      ∀ r c, (r < g.scalars → c ∉ (pattern.entriesOf r).map (·.1)) → entryAt matrix r c = 0 := by
  have hsound := hg.sound
  have hsquare : ∀ b ∈ g.terms, ∀ v ∈ b.vars, v.solverDimension = v.userDimension :=
    fun b hb v hv =>
      (hsound.registry.fits v ((hsound.terms b hb).vars v hv)).plain (hplain b hb v hv)
  have hinside : ∀ b ∈ g.terms, ∀ v ∈ b.vars, v.offset + v.userDimension ≤ g.scalars :=
    fun b hb v hv => hsquare b hb v hv ▸ hsound.registry.stop_le ((hsound.terms b hb).vars v hv)
  have hfilled := filled_of_plain m hterms
  have hsquare' : ∀ d ∈ g.terms.map (fun b => { b with blocks := blocks b }), ∀ v ∈ d.vars,
      v.solverDimension = v.userDimension := by
    intro d hd
    obtain ⟨b, hb, rfl⟩ := List.mem_map.1 hd
    exact hsquare b hb
  have hcoordinates : Bound.coordinates (g.terms.map fun b => { b with blocks := blocks b })
      g.scalars = Bound.coordinates g.terms g.scalars := by
    simp only [Bound.coordinates_eq, List.flatMap_map]
    rfl
  have hcoverage (r c : Nat) : Bound.coverage
      (g.terms.map fun b => { b with blocks := blocks b }) r c = Bound.coverage g.terms r c := by
    simp only [Bound.coverage, List.flatMap_map]
    rfl
  have hplaces := Bound.inside_coordinates hinside
  obtain ⟨pattern, hpattern⟩ := Bound.exists_pattern g.terms g.scalars
  obtain ⟨d, _, hd, hsparse, hsparse'⟩ := derivatives_of_plain hsound henabled hplain m hx hload
    hterms (Or.inr rfl) hbuffer
  obtain ⟨e, _, he, hdense, hdense'⟩ := derivatives_of_plain hsound henabled hplain m hx hload
    hterms (Or.inl rfl) hbuffer
  obtain ⟨values, rows, hrows, rfl⟩ := Bound.of_hessian_sparse hsparse'
  cases hdense'
  rw [hcoordinates] at hrows
  obtain ⟨hshape, hstarts, hcolumns⟩ := CompressedRows.same_structure hplaces hrows hpattern
  obtain ⟨counts, hcounts, hsum⟩ := Bound.values_pattern hinside hpattern
  have hentries {r : Nat} (hr : r < g.scalars) := Bound.entriesOf_pattern hinside hpattern hsquare hr
  refine ⟨pattern, rows, _, d, e, (Graph.result_pattern hsound henabled hplain).trans hpattern, hd,
    hsparse, he, hdense, hshape, hstarts, hcolumns, ?_, fun r hr => hentries hr,
    ⟨counts, hcounts, hsum⟩, fun _ => ?_, fun r c houtside => ?_⟩
  · rw [(CompressedRows.of_assemble_eq_ok hplaces hpattern).2]
    rfl
  · rw [hcounts, sum_tally, hsum]
  · refine Bound.entryAt_dense_of_uncovered hfilled hsquare' _ ?_
    rw [hcoverage]
    by_contra hcovered
    have hhit : (r, c) ∈ g.terms.flatMap Bound.places :=
      List.count_pos_iff.1 (Bound.count_places hsquare r c ▸ Nat.pos_of_ne_zero hcovered)
    have hr : r < g.scalars := (Bound.lt_of_mem_places hinside hhit).1
    exact houtside hr (List.mem_map_of_mem (f := (·.1))
      (((hentries hr).2 c _).2 ⟨Nat.pos_of_ne_zero hcovered, rfl⟩))

/-- Five blocks lie at the only place that the terms of `overlapping` touch: four of the term that
takes the variable twice, and one of the other. -/
theorem pattern_of_overlapping : ∃ (pattern rows : CompressedRows ℝ) (matrix : Block ℝ)
    (d e : Derivatives ℝ), (Graph.pattern overlapping).result = .ok pattern ∧
    (Graph.derivatives Multipliers.none (.ofVector [5, 1]) (some .sparse)
      (overlapping, none)).result = .ok d ∧ d.hessian = some (.sparse rows) ∧
    (Graph.derivatives Multipliers.none (.ofVector [5, 1]) (some .dense)
      (overlapping, none)).result = .ok e ∧ e.hessian = some (.dense matrix) ∧
    rows.starts = pattern.starts ∧ rows.columns = pattern.columns ∧
    (1, 5) ∈ pattern.entriesOf 1 ∧ sum pattern.values = 5 ∧ entryAt matrix 0 1 = 0 := by
  have hload : (Registry.load (.ofVector [5, 1]) overlapping.registry).result = .ok () := by
    rfl
  have hcoverage : Bound.coverage overlapping.terms 1 1 = 5 := by
    rw [terms_overlapping]
    rfl
  have huncovered : Bound.coverage overlapping.terms 0 1 = 0 := by
    rw [terms_overlapping]
    rfl
  have htriplets : (overlapping.terms.flatMap Bound.places).length = 5 := by
    rw [terms_overlapping]
    rfl
  obtain ⟨pattern, rows, matrix, d, e, hpattern, hd, hsparse, he, hdense, -, hstarts, hcolumns, -,
    hentries, -, hsum, hzero⟩ :=
    @pattern_of_hessians ℝ _ overlapping reachable_overlapping rfl plain_overlapping
      Multipliers.none [5, 1] rfl hload none (by simp) _ _ _ hessian_overlapping
  refine ⟨pattern, rows, matrix, d, e, hpattern, hd, hsparse, he, hdense, hstarts, hcolumns, ?_, ?_,
    hzero 0 1 fun hr hmem => ?_⟩
  · rw [(hentries 1 (by decide)).2, hcoverage, tally_real]
    norm_num
  · rw [hsum inferInstance, htriplets, tally_real]
    norm_num
  · obtain ⟨⟨c, count⟩, hmem, rfl⟩ := List.mem_map.1 hmem
    have hpos := (((hentries 0 hr).2 _ _).1 hmem).1
    rw [huncovered] at hpos
    exact Nat.lt_irrefl 0 hpos

end Separable
