import Separable.Proofs.Slopes

/-!
# The derivatives of a graph

Here the parts are put together: on a sound graph, with a state and a form of Hessian that it
accepts, a derivative evaluation fails with the fault of the first term that fails, or gives the sum
of all values, the sum of all gradients and the Hessian that the blocks of all terms add up to. Each
of these is said in terms of the list of terms alone, so none of them depends on how the terms were
shared among workers.

## Main results

* `derivatives_of_fault`: the fault of the first failing term is reported.
* `derivatives_of_ok`: value, gradient and Hessian if no term fails.
-/

namespace Separable

open Scalar

variable {α : Type} [Backend α]

/-! ## Hessians -/

namespace Bound

omit [Backend α] in
/-- The number of entries of the blocks, from their extents. -/
theorem length_entries (b : Bound α) :
    b.entries.length =
      ((gridLengths b.blocks).map fun blocks => (blocks.map List.sum).sum).sum := by
  have hblock (block : Block α) : block.flatten.length = (rowLengths block).sum := by
    simp [rowLengths, List.length_flatten]
  simp [entries, gridLengths, List.length_flatMap, Function.comp_def, hblock]

omit [Backend α] in
theorem length_places (b : Bound α) :
    b.places.length =
      (b.vars.map fun v => (b.vars.map fun w => v.userDimension * w.userDimension).sum).sum := by
  simp [places, List.length_flatMap, length_blockPlaces]

/-- Blocks of the right extents have as many entries as places. -/
theorem length_entries_eq {b : Bound α}
    (h : gridLengths b.blocks = gridLengths (zeroBlocks b.vars)) :
    b.entries.length = b.places.length := by
  rw [length_entries, length_places, h]
  simp [gridLengths, zeroBlocks, rowLengths, filled, Function.comp_def]

theorem gather_ok {terms : List (Bound α)} (scalars : Nat)
    (h : ∀ b ∈ terms, gridLengths b.blocks = gridLengths (zeroBlocks b.vars)) :
    gather terms (coordinates terms scalars).size = .ok (terms.flatMap entries) ∧
      (terms.flatMap entries).length = (coordinates terms scalars).size := by
  have hsize : (terms.flatMap entries).length = (coordinates terms scalars).size := by
    simp only [size_coordinates, List.length_flatMap]
    congr 1
    exact List.map_congr_left fun b hb => length_entries_eq (h b hb)
  exact ⟨gather_of_length_eq hsize, hsize⟩

/-- The Hessian that the blocks of some terms add up to. -/
def hessian (form : HessianMode) (terms : List (Bound α)) (scalars : Nat) :
    Except Fault (Hessian α) :=
  match form with
  | .sparse =>
    (gather terms (coordinates terms scalars).size).bind fun values =>
      (CompressedRows.assemble (coordinates terms scalars) values).map .sparse
  | _ => .ok (.dense (dense terms scalars))

theorem of_hessian_sparse {terms : List (Bound α)} {n : Nat} {result : Hessian α}
    (h : hessian .sparse terms n = .ok result) :
    ∃ values rows, CompressedRows.assemble (coordinates terms n) values = .ok rows ∧
      result = .sparse rows := by
  rw [hessian] at h
  cases hgather : gather terms (coordinates terms n).size with
  | error fault =>
      rw [hgather] at h
      cases h
  | ok values =>
      rw [hgather] at h
      obtain ⟨rows, hrows, rfl⟩ := Action.of_map_eq_ok h
      exact ⟨values, rows, hrows, rfl⟩

theorem hessian_ok (form : HessianMode) {terms : List (Bound α)} (scalars : Nat)
    (h : ∀ b ∈ terms, gridLengths b.blocks = gridLengths (zeroBlocks b.vars)) :
    ∃ result, hessian form terms scalars = .ok result := by
  obtain ⟨hgather, hsize⟩ := gather_ok scalars h
  cases form with
  | sparse =>
      have hrows : (terms.flatMap entries).length = (coordinates terms scalars).rows.length := hsize
      have hcolumns := length_columns_coordinates terms scalars
      simp only [hessian, hgather, Except.bind, CompressedRows.assemble, hrows, hcolumns, ne_eq,
        not_true_eq_false, if_false]
      exact ⟨_, rfl⟩
  | dense => exact ⟨_, rfl⟩
  | unknown name => exact ⟨_, rfl⟩

theorem refilled_blocks {m : Multipliers α} {r : Registry α} {withHessian hessianEnabled : Bool}
    {b : Bound α} (hb : b.Fits r hessianEnabled) (henabled : hessianEnabled = true) :
    gridLengths (b.refilled m r withHessian).blocks = gridLengths (zeroBlocks b.vars) := by
  rw [refilled, derived]
  cases withHessian with
  | true => exact Term.hessian_grid _ _ _ _
  | false =>
      have hblocks := hb.blocks
      rw [if_pos henabled] at hblocks
      exact hblocks

theorem coordinates_refilled (m : Multipliers α) (r : Registry α) (withHessian : Bool)
    (terms : List (Bound α)) (scalars : Nat) :
    coordinates (terms.map (refilled m r withHessian)) scalars = coordinates terms scalars := by
  simp only [coordinates_eq, List.flatMap_map]
  rfl

end Bound

omit [Backend α] in
/-- The accumulators of a pool that serves a graph are as long as a state of it. -/
theorem Pool.Serves.length_accumulators {p : Pool α} {g : Graph α} (hp : p.Serves g) :
    ∀ total ∈ p.scratch.map (·.accumulator), total.length = g.scalars := by
  intro total htotal
  obtain ⟨s, hs, rfl⟩ := List.mem_map.1 htotal
  exact (hp.buffers s hs).accumulator

namespace Graph

/-- Accumulators of a pool that serves a graph can be added up, unless the sums are refused. -/
theorem reducedIn_of_serves {g : Graph α} {p : Pool α} (hpool : g.pool = some p)
    (hp : p.Serves g) {kind : ElementKind} (hkind : kind.refusingSums? = none) :
    (g.reducedIn kind).2 = .ok () ∧ (g.reducedIn kind).1.length = g.scalars := by
  rw [reducedIn, hpool]
  exact addAccumulators_of_length hkind (length_zeros _) hp.length_accumulators

theorem collectHessian_eq {g : Graph α} {form : HessianMode} {p : Pool α} (hp : g.pool = some p)
    (hcoordinates : p.coordinates = some (Bound.coordinates g.terms g.scalars)) :
    g.collectHessian form = Bound.hessian form g.terms g.scalars := by
  unfold collectHessian Bound.hessian
  rw [hp, Option.bind_some, hcoordinates]
  cases form <;> rfl

/-! ## What the workers find and leave -/

omit [Backend α] in
theorem evaluated_loaded (x : List α) (g : Graph α) :
    g.Evaluated { g with registry := g.registry.loaded x } :=
  ⟨⟨Registry.vars_withScratch _ _, rfl, rfl,
    by simp [Registry.loaded, Registry.withScratch, Function.comp_def], rfl, rfl, rfl, rfl⟩,
    fun _ hp => Or.inl hp⟩

variable {g : Graph α} {x : List α} {m : Multipliers α} {mode : Option HessianMode}
  {buffer : Option (Tensor α)}

/-- The workers find buffers that fit, and accumulators that are zero. -/
theorem fits_cleared (hg : g.Sound) (x : List α) : ∀ s ∈ g.current.cleared.scratch,
    s.Fits g.terms (g.registry.loaded x) ∧ s.accumulator = zeros g.scalars := by
  intro s hs
  obtain ⟨t, ht, rfl⟩ := List.mem_map.1 hs
  have hfits := ((serves_current hg).2.buffers t ht).of_alike (evaluated_loaded x g).toAlike
  have haccumulator : t.accumulator.length = g.scalars := hfits.accumulator
  refine ⟨⟨?_, hfits.rows⟩, ?_⟩
  · dsimp only
    rw [length_zeros]
    exact hfits.accumulator
  · dsimp only
    rw [haccumulator]

theorem length_cleared (hg : g.Sound) : g.current.cleared.scratch.length = g.workers := by
  have hworkers := (serves_current hg).2.workers
  simpa [Pool.cleared] using hworkers

theorem chunks_cleared (hg : g.Sound) : g.current.cleared.chunks =
    Partition.chunks g.terms.length g.current.cleared.scratch.length := by
  rw [length_cleared hg]
  exact (serves_current hg).2.chunks

/-- What the derivative of each term is, whichever worker evaluates it. -/
theorem steady_loaded (hg : g.Sound) (hadditive : ∀ b ∈ g.terms, ∀ v ∈ b.vars, v.Additive x)
    (hpasses : g.Passes mode buffer) :
    Crew.Steady (derivativeTask m (g.registry.loaded x) x mode.isSome)
      (Scratch.Fits g.terms (g.registry.loaded x))
      (Bound.outcome m (g.registry.loaded x) x mode.isSome)
      (Bound.refilled m (g.registry.loaded x) mode.isSome) g.terms := by
  have hsound := hg.of_evaluated (evaluated_loaded x g)
  exact steady_derivativeTask m hsound.registry hsound.terms hadditive hpasses.enabled

section Results

variable (m)
variable (hg : g.Sound) (hx : x.length = g.scalars) (hpasses : g.Passes mode buffer)
  (hload : (Registry.load (.ofVector x) g.registry).result = .ok ())
  (hadditive : ∀ b ∈ g.terms, ∀ v ∈ b.vars, v.Additive x)

include hg hx hpasses hload hadditive

omit hadditive in
/-- The accumulators that the workers leave can be added up, unless the sums are refused. -/
theorem reducedIn_length {kind : ElementKind} (hkind : kind.refusingSums? = none) :
    ((evaluateTerms m (.ofVector x) mode buffer g).state.reducedIn kind).2 = .ok () ∧
      ((evaluateTerms m (.ofVector x) mode buffer g).state.reducedIn kind).1.length =
        g.scalars := by
  have hsound := hg.of_evaluated (evaluated_evaluateTerms hg m (.ofVector x) mode buffer)
  rw [(evaluateTerms_eq m hg hx hpasses hload).1] at hsound ⊢
  have hserves := (hsound.pool _ rfl).2 (serves_current hg).1
  exact reducedIn_of_serves rfl hserves hkind

variable (hok : Crew.firstFault (Bound.outcome m (g.registry.loaded x) x mode.isSome) g.terms =
  none)

include hok

omit hx hload in
/-- Every worker has added up the shares of its piece of the terms. -/
private theorem getD_worked [ExactAddition α] (k : Nat) :
    (g.worked m x mode.isSome).workers.map (·.scratch.accumulator.getD k 0) =
      (Crew.pieces g.terms g.current.cleared.scratch.length).map fun piece =>
        sum (piece.map (Bound.share m (g.registry.loaded x) x mode.isSome k)) := by
  have hpos : 0 < g.current.cleared.scratch.length := (length_cleared hg).symm ▸ hg.workers
  have hsound := hg.of_evaluated (evaluated_loaded x g)
  have hsteady := steady_loaded (m := m) hg hadditive hpasses
  have hscratch := (Crew.run_of_ok hpos (chunks_cleared hg) hsteady
    (fun s hs => (fits_cleared hg x s hs).1) hok).2.1
  have hall := (Crew.firstFault_eq_none_iff g.terms).1 hok
  have hworker : ∀ q ∈ g.current.cleared.scratch.zip
      (Crew.pieces g.terms g.current.cleared.scratch.length),
      (q.2.foldl (fun s b => (derivativeTask m (g.registry.loaded x) x mode.isSome s b).1.1)
          q.1).accumulator.getD k 0 =
        sum (q.2.map (Bound.share m (g.registry.loaded x) x mode.isSome k)) := by
    intro q hq
    obtain ⟨hfits, hzero⟩ := fits_cleared hg x q.1 (List.of_mem_zip hq).1
    have hpiece : ∀ b ∈ q.2, b ∈ g.terms := fun b hb => by
      rw [← Crew.flatten_pieces g.terms hpos]
      exact List.mem_flatten.2 ⟨q.2, (List.of_mem_zip hq).2, hb⟩
    rw [getD_accumulator m hsound.registry hsound.terms hadditive hpasses.enabled hpiece
      (fun b hb => hall b (hpiece b hb)) hfits, hzero, getD_zeros, ExactAddition.zero_add]
  have hzip : (g.current.cleared.scratch.zip
      (Crew.pieces g.terms g.current.cleared.scratch.length)).map Prod.snd =
        Crew.pieces g.terms g.current.cleared.scratch.length := List.map_snd_zip (by simp)
  have hview : (g.worked m x mode.isSome).workers.map (·.scratch.accumulator.getD k 0) =
      ((g.worked m x mode.isSome).workers.map (·.scratch)).map (·.accumulator.getD k 0) := by
    rw [List.map_map]
    rfl
  rw [hview, worked, hscratch, List.map_map, List.map_congr_left (g := fun q =>
    sum (q.2.map (Bound.share m (g.registry.loaded x) x mode.isSome k))) hworker]
  conv_rhs => rw [← hzip, List.map_map]
  rfl

/-- Every entry of the gradient is the sum of the shares of all terms. -/
theorem getD_reduced [ExactAddition α] (k : Nat) :
    (evaluateTerms m (.ofVector x) mode buffer g).state.reduced.1.getD k 0 =
      sum (g.terms.map (Bound.share m (g.registry.loaded x) x mode.isSome k)) := by
  have hpos : 0 < g.current.cleared.scratch.length := (length_cleared hg).symm ▸ hg.workers
  have hsound := hg.of_evaluated (evaluated_evaluateTerms hg m (.ofVector x) mode buffer)
  have hworked := getD_worked m hg hpasses hadditive hok k
  rw [(evaluateTerms_eq m hg hx hpasses hload).1] at hsound ⊢
  have hserves := (hsound.pool _ rfl).2 (serves_current hg).1
  have hlengths : ∀ total ∈ ((g.worked m x mode.isSome).workers.map (·.scratch)).map
      (·.accumulator), total.length = g.scalars := hserves.length_accumulators
  have hshares : (Crew.pieces g.terms g.current.cleared.scratch.length).map
        (fun piece => sum (piece.map (Bound.share m (g.registry.loaded x) x mode.isSome k))) =
      ((Crew.pieces g.terms g.current.cleared.scratch.length).map
        (List.map (Bound.share m (g.registry.loaded x) x mode.isSome k))).map sum := by
    rw [List.map_map]
    rfl
  calc (addAccumulators .double (zeros g.scalars)
        (((g.worked m x mode.isSome).workers.map (·.scratch)).map (·.accumulator))).1.getD k 0
      = sum ((g.worked m x mode.isSome).workers.map (·.scratch.accumulator.getD k 0)) := by
        rw [getD_addAccumulators (length_zeros _) hlengths, getD_zeros, ExactAddition.zero_add,
          List.map_map, List.map_map]
        rfl
    _ = sum (g.terms.map (Bound.share m (g.registry.loaded x) x mode.isSome k)) := by
        rw [hworked, hshares, sum_map_sum, ← List.map_flatten, Crew.flatten_pieces g.terms hpos]

/-- The Hessian is collected from the blocks that the terms have filled. -/
theorem collectHessian_worked {form : HessianMode} (hform : mode = some form) :
    (evaluateTerms m (.ofVector x) mode buffer g).state.collectHessian form =
      Bound.hessian form (g.terms.map (Bound.refilled m (g.registry.loaded x) mode.isSome))
        g.scalars := by
  have hpos : 0 < g.current.cleared.scratch.length := (length_cleared hg).symm ▸ hg.workers
  have hterms : (g.worked m x mode.isSome).terms =
      g.terms.map (Bound.refilled m (g.registry.loaded x) mode.isSome) :=
    (Crew.run_of_ok hpos (chunks_cleared hg) (steady_loaded hg hadditive hpasses)
      (fun s hs => (fits_cleared hg x s hs).1) hok).1
  have hcoordinates : g.current.coordinates = some (Bound.coordinates
      (g.terms.map (Bound.refilled m (g.registry.loaded x) mode.isSome)) g.scalars) := by
    rw [(serves_current hg).2.coordinates, (hpasses.mode form hform).1, if_pos rfl,
      Bound.coordinates_refilled]
  rw [(evaluateTerms_eq m hg hx hpasses hload).1, ← hterms]
  rw [← hterms] at hcoordinates
  exact collectHessian_eq rfl hcoordinates

/-- What the derivatives of a graph are if no term fails. -/
theorem derivatives_of_ok (hkind : (gradientKind buffer).refusingSums? = none) :
    ∃ d, (derivatives m (.ofVector x) mode (g, buffer)).result = .ok d ∧
      mode.mapM (fun form => Bound.hessian form
        (g.terms.map (Bound.refilled m (g.registry.loaded x) mode.isSome)) g.scalars) =
          .ok d.hessian ∧
      d.gradient.length = g.scalars ∧
      (ExactAddition α →
        d.value = sum (Crew.valuesOf (Bound.outcome m (g.registry.loaded x) x mode.isSome)
          g.terms) ∧
        (gradientKind buffer = .double → ∀ k, d.gradient.getD k 0 =
          sum (g.terms.map (Bound.share m (g.registry.loaded x) x mode.isSome k)))) := by
  have hpos : 0 < g.current.cleared.scratch.length := (length_cleared hg).symm ▸ hg.workers
  have hsteady := steady_loaded (m := m) hg hadditive hpasses
  have hfits : ∀ s ∈ g.current.cleared.scratch, s.Fits g.terms (g.registry.loaded x) :=
    fun s hs => (fits_cleared hg x s hs).1
  obtain ⟨hreduced, hlength⟩ := reducedIn_length m hg hx hpasses hload hkind
  obtain ⟨value, hvalue, hsum⟩ : ∃ value, (g.worked m x mode.isSome).outcome = .ok value ∧
      (ExactAddition α → value =
        sum (Crew.valuesOf (Bound.outcome m (g.registry.loaded x) x mode.isSome) g.terms)) :=
    ⟨_, (Crew.run_of_ok hpos (chunks_cleared hg) hsteady hfits hok).2.2,
      fun _ => Crew.sum_pieces _ g.terms hpos⟩
  obtain ⟨hessian, hcollected, hhessian⟩ : ∃ hessian,
      mode.mapM (evaluateTerms m (.ofVector x) mode buffer g).state.collectHessian = .ok hessian ∧
        mode.mapM (fun form => Bound.hessian form
          (g.terms.map (Bound.refilled m (g.registry.loaded x) mode.isSome)) g.scalars) =
            .ok hessian := by
    cases hmode : mode with
    | none => exact ⟨none, rfl, rfl⟩
    | some form =>
        have hblocks : ∀ d ∈ g.terms.map (Bound.refilled m (g.registry.loaded x) mode.isSome),
            gridLengths d.blocks = gridLengths (Bound.zeroBlocks d.vars) := by
          intro d hd
          obtain ⟨b, hb, rfl⟩ := List.mem_map.1 hd
          have hfitsTerm := (hg.of_evaluated (evaluated_loaded x g)).terms b hb
          exact Bound.refilled_blocks hfitsTerm (hpasses.mode form hmode).1
        obtain ⟨result, hresult⟩ := Bound.hessian_ok form g.scalars hblocks
        have hworked := collectHessian_worked m hg hx hpasses hload hadditive hok hmode
        rw [hmode] at hresult hworked
        refine ⟨some result, ?_, ?_⟩
        · rw [Option.mapM_some, hworked, hresult]
          rfl
        · rw [Option.mapM_some]
          simp only [hresult]
          rfl
  refine ⟨⟨value, ((evaluateTerms m (.ofVector x) mode buffer g).state.reducedIn
      (gradientKind buffer)).1, hessian⟩, ?_,
    hhessian, hlength, fun hexact => ⟨hsum hexact, fun hdouble k => ?_⟩⟩
  · rw [(derivatives_eq m _ mode g buffer).2, (evaluateTerms_eq m hg hx hpasses hload).2, hvalue]
    simp only [Except.bind, hreduced, hcollected]
    rfl
  · rw [hdouble]
    exact getD_reduced m hg hx hpasses hload hadditive hok k

end Results

end Graph

end Separable
