import Separable.Proofs.Assembly
import Separable.Proofs.Multiplicity

/-!
# What a derivative evaluation leaves alone

A worker writes to its accumulator at the slices of the variables of its terms and nowhere else,
whether its terms succeed or fail and whatever they add. A place of the state that belongs to no
variable of any term therefore keeps the zero with which the accumulators begin, and so does the
gradient that they add up to. Nothing is asked of the scalars for this but that zero plus zero is
zero, so it holds of rounded arithmetic, too, and where other entries are infinite or no numbers.

## Main results

* `getElem?_addSlopes`: adding gradients touches no other slices.
* `passes_of_ok`: an evaluation that gets through its terms has passed its checks.
* `derivatives_of_worked`: once all terms are evaluated nothing fails any more; the gradient is zero
  where no term looks, and the Hessian is square.
-/

namespace Separable

open Scalar

variable {α : Type} [Backend α]

/-! ## Slices that no term takes -/

section Slices

variable {v : Variable α} {k : Nat} (hk : ¬v.Covers k)

include hk

omit [Backend α] in
theorem Variable.getElem?_overwrite {part : List α} (hpart : part.length ≤ v.solverDimension)
    (total : List α) : (overwrite v.offset part total)[k]? = total[k]? := by
  have hk : ¬(v.offset ≤ k ∧ k < v.offset + v.solverDimension) := hk
  rw [Separable.getElem?_overwrite]
  split
  · next hstart =>
    have hbehind : part.length ≤ k - v.offset := by omega
    cases total[k]? <;> simp [hbehind]
  · exact Option.map_id'

theorem Variable.getElem?_addAt {g : List α} (hg : g.length ≤ v.solverDimension)
    (total : List α) : (addAt v.offset g total)[k]? = total[k]? := by
  have hk : ¬(v.offset ≤ k ∧ k < v.offset + v.solverDimension) := hk
  rw [Separable.getElem?_addAt]
  split
  · next hstart =>
    have hbehind : g[k - v.offset]? = none := List.getElem?_eq_none (by omega)
    rw [hbehind]
    exact Option.map_id'
  · exact Option.map_id'

end Slices

/-- Adding gradients touches no slices but those of their variables. -/
theorem getElem?_addSlopes {x : List α} {slopes : List (Variable α × List α)} {k : Nat}
    (hfree : ∀ slope ∈ slopes, ¬slope.1.Covers k)
    (hplain : ∀ slope ∈ slopes, slope.1.reparam = none →
      slope.2.length ≤ slope.1.solverDimension) (total : List α) :
    (addSlopes x slopes total).1[k]? = total[k]? := by
  induction slopes generalizing total with
  | nil => rfl
  | cons slope rest ih =>
      obtain ⟨v, g⟩ := slope
      obtain ⟨hk, hfreeRest⟩ := List.forall_mem_cons.1 hfree
      obtain ⟨hg, hplainRest⟩ := List.forall_mem_cons.1 hplain
      cases hc : v.reparam with
      | none =>
          simp only [addSlopes, hc]
          rw [ih hfreeRest hplainRest, Variable.getElem?_addAt hk (hg hc)]
      | some c =>
          have hpart : (c.pullBack (v.part x) g (v.part total)).1.length ≤ v.solverDimension := by
            rw [c.pullBack_length]
            exact List.length_take_le _ _
          simp only [addSlopes, hc]
          split
          · next part fault hpull =>
            rw [hpull] at hpart
            exact Variable.getElem?_overwrite hk hpart total
          · next part hpull =>
            rw [hpull] at hpart
            rw [ih hfreeRest hplainRest, Variable.getElem?_overwrite hk hpart]

/-- Whether no variable of a term covers a place of the state. -/
structure Bound.Spares (k : Nat) (b : Bound α) : Prop where
  free : ∀ v ∈ b.vars, ¬v.Covers k
  plain : ∀ v ∈ b.vars, v.reparam = none → v.solverDimension = v.userDimension

/-- The part of a worker's rows that a term gets is no longer than its variables. -/
theorem Bound.length_le_of_cleared {b : Bound α} {rows written : Rows α}
    (h : rowLengths written = rowLengths (b.clearedRows rows)) {slope : Variable α × List α}
    (hslope : slope ∈ b.vars.zip written) : slope.2.length ≤ slope.1.userDimension := by
  obtain ⟨i, hi⟩ := List.getElem?_of_mem hslope
  obtain ⟨hv, hg⟩ := List.getElem?_zip_eq_some.1 hi
  have hlength := congrArg (·[i]?) h
  simp only [Bound.clearedRows, rowLengths_mapRows] at hlength
  simp only [rowLengths, List.getElem?_map, hg, List.getElem?_zipWith, hv, Option.map_some]
    at hlength
  cases hrow : rows[i]? with
  | none =>
      rw [hrow] at hlength
      cases hlength
  | some row =>
      rw [hrow] at hlength
      rw [Option.some.inj hlength]
      exact List.length_take_le _ _

/-- A worker's evaluation of a term touches no places that the term spares. -/
theorem getElem?_derivativeTask (m : Multipliers α) (r : Registry α) (x : List α)
    (withHessian : Bool) {k : Nat} (s : Scratch α) {b : Bound α} (hb : b.Spares k) :
    (derivativeTask m r x withHessian s b).1.1.accumulator[k]? = s.accumulator[k]? ∧
      (derivativeTask m r x withHessian s b).1.2.vars = b.vars := by
  have hslopes {written : Rows α}
      (hwritten : rowLengths written = rowLengths (b.clearedRows s.rows)) (total : List α) :
      (addSlopes x (b.vars.zip written) total).1[k]? = total[k]? := by
    refine getElem?_addSlopes (fun slope hslope => hb.free _ (List.of_mem_zip hslope).1)
      (fun slope hslope hplain => ?_) total
    rw [hb.plain _ (List.of_mem_zip hslope).1 hplain]
    exact Bound.length_le_of_cleared hwritten hslope
  -- A term may write anything into its rows, but they stay as long as they are.
  have hwritten : rowLengths (if withHessian then
      (b.summand.resolve m).hessian (r.arguments b) (b.clearedRows s.rows)
        (mapGrid (fun _ _ _ _ _ => 0) b.blocks)
      else ((((b.summand.resolve m).gradient (r.arguments b) (b.clearedRows s.rows)).1, b.blocks),
        ((b.summand.resolve m).gradient (r.arguments b) (b.clearedRows s.rows)).2)).1.1 =
      rowLengths (b.clearedRows s.rows) := by
    cases withHessian with
    | false => exact (b.summand.resolve m).gradient_rows _ _
    | true => exact (b.summand.resolve m).hessian_rows _ _ _
  have hadded := hslopes hwritten s.accumulator
  unfold derivativeTask
  dsimp only at hadded ⊢
  split
  · exact ⟨rfl, rfl⟩
  · split
    · next total fault htotal =>
      rw [htotal] at hadded
      exact ⟨hadded, rfl⟩
    · next total htotal =>
      rw [htotal] at hadded
      exact ⟨hadded, rfl⟩

/-- Accumulators that are zero at a place add up to zero there. -/
theorem getElem?_addAccumulators {kind : ElementKind} (hkind : kind.refusingSums? = none)
    (hzero : kind.round ((0 : α) + 0) = 0) {k : Nat} {gradient : List α}
    {totals : List (List α)} (hgradient : gradient[k]? = some 0)
    (htotals : ∀ total ∈ totals, total.length = gradient.length ∧ total[k]? = some 0) :
    (addAccumulators kind gradient totals).1[k]? = some 0 := by
  induction totals generalizing gradient with
  | nil => exact hgradient
  | cons total rest ih =>
      obtain ⟨⟨hlength, htotal⟩, hrest⟩ := List.forall_mem_cons.1 htotals
      have hadded : (gradient.zipWith (fun a b => kind.round (a + b)) total)[k]? = some 0 := by
        simp only [List.getElem?_zipWith, hgradient, htotal, hzero]
      simp only [addAccumulators, addAccumulator, hkind, hlength, if_true]
      refine ih hadded fun other hother => ?_
      obtain ⟨hother, hentry⟩ := hrest other hother
      exact ⟨by simp [hother, hlength], hentry⟩

/-! ## Square Hessians -/

/-- Whether a Hessian has as many rows and columns as the state has entries. -/
def Hessian.IsSquare (n : Nat) : Hessian α → Prop
  | .dense matrix => rowLengths matrix = List.replicate n n
  | .sparse matrix => matrix.shape = (n, n) ∧ matrix.starts.length = n + 1

theorem Bound.isSquare_hessian {form : HessianMode} {terms : List (Bound α)} {n : Nat}
    (hinside : ∀ b ∈ terms, ∀ v ∈ b.vars, v.offset + v.userDimension ≤ n) {result : Hessian α}
    (h : hessian form terms n = .ok result) : result.IsSquare n := by
  cases form with
  | sparse =>
      obtain ⟨values, rows, hrows, rfl⟩ := of_hessian_sparse h
      obtain ⟨-, rfl⟩ := CompressedRows.of_assemble_eq_ok (inside_coordinates hinside) hrows
      exact ⟨rfl, by simp [CompressedRows.ofRows, CompressedRows.length_runningTotals, coordinates]⟩
  | dense =>
      cases h
      exact rowLengths_dense terms n
  | unknown name =>
      cases h
      exact rowLengths_dense terms n

/-! ## Evaluations that get through their terms -/

namespace Graph

variable {g : Graph α} {x : List α} {m : Multipliers α} {mode : Option HessianMode}
  {buffer : Option (Tensor α)}

omit [Backend α] in
theorem of_checkBuffer_eq_ok {done : Unit} (h : (checkBuffer buffer g).result = .ok done) :
    ∀ b, buffer = some b → b.shape = [g.scalars] := by
  rintro b rfl
  simpa using Action.of_require_eq_ok h

omit [Backend α] in
theorem of_checkMode_eq_ok {done : Unit} (h : (checkMode mode g).result = .ok done) :
    ∀ form, mode = some form → g.hessianEnabled = true ∧ (form = .dense ∨ form = .sparse) := by
  rintro form rfl
  simp only [checkMode] at h
  split at h
  · next henabled =>
    cases form with
    | dense => exact ⟨henabled, Or.inl rfl⟩
    | sparse => exact ⟨henabled, Or.inr rfl⟩
    | unknown name => cases h
  · cases h

/-- An evaluation that gets through its terms has passed its checks, and has loaded the state. -/
theorem passes_of_ok (hg : g.Sound) {value : α}
    (h : (evaluateTerms m (.ofVector x) mode buffer g).result = .ok value) :
    x.length = g.scalars ∧ g.Passes mode buffer ∧
      (Registry.load (.ofVector x) g.registry).result = .ok () := by
  obtain ⟨_, hstate, h, -⟩ := Action.of_result_bind_eq_ok h
  obtain ⟨_, hbuffer, h, -⟩ := Action.of_result_bind_eq_ok h
  rw [show (checkState (.ofVector x) g).state = g from rfl] at hbuffer h
  rw [state_checkBuffer] at h
  obtain ⟨_, hmode, h, -⟩ := Action.of_result_bind_eq_ok h
  rw [state_checkMode] at h
  obtain ⟨p, hpool, h, -⟩ := Action.of_result_bind_eq_ok h
  rw [result_refreshed] at hpool
  cases hpool
  obtain ⟨_, hsupport, h, -⟩ := Action.of_result_bind_eq_ok h
  obtain ⟨_, _, h, -⟩ := Action.of_result_bind_eq_ok h
  obtain ⟨_, hload, -, -⟩ := Action.of_result_bind_eq_ok h
  refine ⟨?_, ⟨of_checkBuffer_eq_ok hbuffer, fun form hform => ?_⟩, ?_⟩
  · simpa [checkState] using Action.of_require_eq_ok hstate
  · obtain ⟨henabled, hform'⟩ := of_checkMode_eq_ok hmode form hform
    have hplain := Action.of_require_eq_ok hsupport
    rw [(serves_current hg).2.supportsHessian, hform] at hplain
    exact ⟨henabled, hform', by simpa using hplain⟩
  · rw [Action.state_require, state_refreshed] at hload
    exact hload

variable (hg : g.Sound)

include hg

/-- The user dimension of a variable without reparameterization fits into the state. -/
theorem Sound.bounded_vars (hplain : g.terms.any Bound.hasReparam = false) :
    ∀ b ∈ g.terms, ∀ v ∈ b.vars, v.offset + v.userDimension ≤ g.scalars := by
  intro b hb v hv
  have hvars := (hg.terms b hb).vars v hv
  have hreparam : v.reparam = none := by
    have hb := List.any_eq_false.1 hplain b hb
    rw [Bound.hasReparam, Bool.not_eq_true, List.any_eq_false] at hb
    simpa using hb v hv
  rw [← (hg.registry.fits v hvars).plain hreparam]
  exact hg.registry.stop_le hvars

/-- With a pool that is up to date a Hessian can be collected, and it is square. -/
theorem collectHessian_ok (henabled : g.hessianEnabled = true)
    (hplain : g.terms.any Bound.hasReparam = false) {p : Pool α}
    (hpool : g.pool = some p) (hversion : p.version = g.version) (form : HessianMode) :
    ∃ result, g.collectHessian form = .ok result ∧ result.IsSquare g.scalars := by
  have hcoordinates := ((hg.pool p hpool).2 hversion).coordinates
  rw [henabled, if_pos rfl] at hcoordinates
  have hblocks : ∀ b ∈ g.terms, gridLengths b.blocks = gridLengths (Bound.zeroBlocks b.vars) := by
    intro b hb
    have hblocks := (hg.terms b hb).blocks
    rwa [henabled, if_pos rfl] at hblocks
  obtain ⟨result, hresult⟩ := Bound.hessian_ok form g.scalars hblocks
  exact ⟨result, (collectHessian_eq hpool hcoordinates).trans hresult,
    Bound.isSquare_hessian (hg.bounded_vars hplain) hresult⟩

/-- The accumulators that the workers leave are zero where no term looks. -/
theorem getElem?_worked {k : Nat} (hk : k < g.scalars)
    (hfree : ∀ b ∈ g.terms, ∀ v ∈ b.vars, ¬v.Covers k) (withHessian : Bool) :
    ∀ w ∈ (g.worked m x withHessian).workers, w.scratch.accumulator[k]? = some 0 := by
  have hspares : ∀ b ∈ g.terms, b.Spares k := fun b hb => ⟨hfree b hb, fun v hv =>
    (hg.registry.fits v ((hg.terms b hb).vars v hv)).plain⟩
  refine (Crew.forall_run (P := fun s => s.accumulator[k]? = some 0) (Q := Bound.Spares k)
    (fun s b hs hb => ?_) (fun w hw => ?_) hspares).1
  · obtain ⟨haccumulator, hvars⟩ :=
      getElem?_derivativeTask m (g.registry.loaded x) x withHessian s hb
    exact ⟨haccumulator.trans hs, ⟨hvars ▸ hb.free, hvars ▸ hb.plain⟩⟩
  · have hchunks : g.current.cleared.scratch.length ≤ g.current.cleared.chunks.length := by
      rw [chunks_cleared hg, Partition.length_chunks]
    have hscratch : w.scratch ∈ g.current.cleared.scratch :=
      scratch_start (p := g.current.cleared) hchunks ▸ List.mem_map_of_mem hw
    rw [(fits_cleared hg x _ hscratch).2]
    simp [zeros, hk]

variable {value : α} (h : (evaluateTerms m (.ofVector x) mode buffer g).result = .ok value)

include h

/-- The gradient is zero where no term looks. -/
theorem getElem?_reducedIn {kind : ElementKind} (hkind : kind.refusingSums? = none)
    (hzero : kind.round ((0 : α) + 0) = 0) {k : Nat} (hk : k < g.scalars)
    (hfree : ∀ b ∈ g.terms, ∀ v ∈ b.vars, ¬v.Covers k) :
    ((evaluateTerms m (.ofVector x) mode buffer g).state.reducedIn kind).1[k]? = some 0 := by
  obtain ⟨hx, hpasses, hload⟩ := passes_of_ok hg h
  have hsound := hg.of_evaluated (evaluated_evaluateTerms hg m (.ofVector x) mode buffer)
  rw [(evaluateTerms_eq m hg hx hpasses hload).1] at hsound ⊢
  have hserves := (hsound.pool _ rfl).2 (serves_current hg).1
  have hbegun : (zeros g.scalars : List α)[k]? = some 0 := by simp [zeros, hk]
  refine getElem?_addAccumulators hkind hzero hbegun fun total htotal => ?_
  obtain ⟨s, hs, rfl⟩ := List.mem_map.1 htotal
  obtain ⟨w, hw, rfl⟩ := List.mem_map.1 hs
  exact ⟨(hserves.buffers _ hs).accumulator.trans (length_zeros _).symm,
    getElem?_worked hg hk hfree _ w hw⟩

/-- The Hessian that was asked for can be collected, and it is square. -/
theorem collectHessian_of_ok : ∃ hessian,
    mode.mapM (evaluateTerms m (.ofVector x) mode buffer g).state.collectHessian = .ok hessian ∧
      hessian.isSome = mode.isSome ∧
      ∀ result, hessian = some result → result.IsSquare g.scalars := by
  obtain ⟨hx, hpasses, hload⟩ := passes_of_ok hg h
  have hevaluated := evaluated_evaluateTerms hg m (.ofVector x) mode buffer
  have hpool := congrArg Graph.pool (evaluateTerms_eq m hg hx hpasses hload).1
  cases hmode : mode with
  | none => exact ⟨none, rfl, rfl, by simp⟩
  | some form =>
      rw [hmode] at hevaluated hpool
      obtain ⟨henabled, -, hplain⟩ := hpasses.mode form hmode
      obtain ⟨result, hresult, hsquare⟩ := collectHessian_ok (hg.of_evaluated hevaluated)
        (hevaluated.hessianEnabled.trans henabled)
        ((Bound.any_hasReparam_eq_of_outline hevaluated.terms).trans hplain) hpool
        ((serves_current hg).1.trans hevaluated.version.symm) form
      have hscalars : (evaluateTerms m (.ofVector x) (some form) buffer g).state.scalars =
          g.scalars := hevaluated.scalars
      rw [hscalars] at hsquare
      refine ⟨some result, ?_, rfl, fun other hother => Option.some.inj hother ▸ hsquare⟩
      rw [Option.mapM_some, hresult]
      rfl

/-- Once all terms are evaluated nothing fails any more. The gradient is zero at every variable that
no term uses, and a Hessian that was asked for is square. -/
theorem derivatives_of_worked (hkind : (gradientKind buffer).refusingSums? = none)
    (hzero : (gradientKind buffer).round ((0 : α) + 0) = 0) :
    ∃ d, (derivatives m (.ofVector x) mode (g, buffer)).result = .ok d ∧ d.value = value ∧
      d.gradient.length = g.scalars ∧
      (∀ v ∈ g.registry.vars, (∀ b ∈ g.terms, v ∉ b.vars) →
        v.part d.gradient = zeros v.solverDimension) ∧
      d.hessian.isSome = mode.isSome ∧ ∀ result, d.hessian = some result →
        result.IsSquare g.scalars := by
  obtain ⟨hx, hpasses, hload⟩ := passes_of_ok hg h
  obtain ⟨hreduced, hlength⟩ := reducedIn_length m hg hx hpasses hload hkind
  obtain ⟨hessian, hcollected, hsome, hsquare⟩ := collectHessian_of_ok hg h
  refine ⟨⟨value, _, hessian⟩, ?_, rfl, hlength, fun v hv hunused => ?_, hsome, hsquare⟩
  · rw [(derivatives_eq m _ mode g buffer).2, h]
    simp only [Except.bind, hreduced, hcollected]
    rfl
  · refine List.ext_getElem? fun i => ?_
    have hstop := hg.registry.stop_le hv
    rw [Variable.getElem?_part]
    split
    · next hi =>
      have hk : v.offset + i < g.scalars := Nat.lt_of_lt_of_le (Nat.add_lt_add_left hi _) hstop
      rw [getElem?_reducedIn hg h hkind hzero hk fun b hb w hw hcovers => ?_]
      · simp [zeros, hi]
      · have hwr := (hg.terms b hb).vars w hw
        have hcovers : w.offset ≤ v.offset + i ∧ v.offset + i < w.stop := hcovers
        have hvstop : v.stop = v.offset + v.solverDimension := rfl
        -- Slices do not overlap, so a variable of a term that covers the place is the unused one.
        rcases hg.registry.eq_or_apart hv hwr with rfl | hbefore | hbehind
        · exact hunused b hb hw
        · omega
        · omega
    · next hi => simp [zeros, Nat.le_of_not_lt hi]

end Graph

end Separable
