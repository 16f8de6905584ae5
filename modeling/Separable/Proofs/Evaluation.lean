import Separable.Proofs.Exact
import Separable.Proofs.Graph

/-!
# What an evaluation computes

On a sound graph the buffers of a worker are large enough for every term, and a worker clears what
it hands to a term. So a term always finds zeroed buffers of its own extents, whichever worker
evaluates it and whatever was evaluated before; `Bound.derived` is what it makes of them. With the
checks and the copies that come first, an evaluation of the graph is a run of a crew at the
registry that was loaded.

## Main results

* `derivativeTask_eq`: a worker's evaluation of a term, in terms of `Bound.derived`.
* `value_eq`, `valueAtStorage_eq`, `evaluateTerms_eq`: an evaluation is a run of a crew.
* `sum_pieces`: in exact arithmetic it does not matter how the terms are shared.
* `value_of_fault`, `value_of_ok`: the value of a graph is the sum of the values of its terms, or the
  fault of the first term that fails.
-/

namespace Separable

open Scalar

variable {α : Type} [Backend α]

/-! ## Cleared buffers -/

omit [Backend α] in
theorem mapRows_const (a : α) (rows : List (List α)) :
    mapRows (fun _ _ _ => a) rows = (rowLengths rows).map (List.replicate · a) := by
  apply List.ext_getElem? fun i => ?_
  simp only [mapRows, rowLengths, List.getElem?_mapIdx, List.getElem?_map, Option.map_map]
  congr 1
  funext row
  exact List.ext_getElem? fun k => by
    by_cases hk : k < row.length
    · simp [hk]
    · simp [Nat.le_of_not_lt hk]

omit [Backend α] in
theorem mapGrid_const (a : α) (grid : Grid α) :
    mapGrid (fun _ _ _ _ _ => a) grid =
      (gridLengths grid).map fun blocks => blocks.map fun rows => rows.map (List.replicate · a) := by
  apply List.ext_getElem? fun i => ?_
  simp only [mapGrid, gridLengths, List.getElem?_mapIdx, List.getElem?_map, Option.map_map,
    mapRows_const]
  congr 1
  funext blocks
  apply List.ext_getElem? fun j => ?_
  simp [Function.comp_def]

namespace Bound

/-- Zeroed gradient buffers for the arguments of a term. -/
def zeroRows (b : Bound α) : Rows α := b.vars.map fun v => zeros v.userDimension

omit [Backend α] in
theorem rowLengths_take {rows : Rows α} {vars : List (Variable α)} {count width : Nat}
    (hrows : rowLengths rows = List.replicate count width) (hcount : vars.length ≤ count)
    (hwidth : ∀ v ∈ vars, v.userDimension ≤ width) :
    rowLengths (rows.zipWith (fun row v => row.take v.userDimension) vars) =
      vars.map (·.userDimension) := by
  induction vars generalizing rows count with
  | nil => simp [rowLengths]
  | cons v vars ih =>
      cases count with
      | zero => cases hcount
      | succ count =>
          cases rows with
          | nil => cases hrows
          | cons row rows =>
              simp only [rowLengths, List.map_cons, List.replicate_succ, List.cons.injEq,
                List.zipWith_cons_cons] at hrows ⊢
              obtain ⟨hrow, hrest⟩ := hrows
              refine ⟨?_, ih hrest (Nat.le_of_succ_le_succ hcount) fun w hw => ?_⟩
              · have hv := hwidth v (by simp)
                rw [List.length_take, hrow]
                omega
              · exact hwidth w (List.mem_cons_of_mem v hw)

theorem clearedRows_eq {b : Bound α} {rows : Rows α} {count width : Nat}
    (hrows : rowLengths rows = List.replicate count width) (hcount : b.vars.length ≤ count)
    (hwidth : ∀ v ∈ b.vars, v.userDimension ≤ width) : b.clearedRows rows = b.zeroRows := by
  rw [clearedRows, mapRows_const, rowLengths_take hrows hcount hwidth, zeroRows, List.map_map]
  rfl

theorem mapGrid_zeroBlocks (vars : List (Variable α)) :
    mapGrid (fun _ _ _ _ _ => 0) (zeroBlocks vars) = zeroBlocks vars := by
  rw [mapGrid_const]
  simp [gridLengths, zeroBlocks, rowLengths, filled, Function.comp_def]

theorem mapGrid_zero_eq {b : Bound α} (h : gridLengths b.blocks = gridLengths (zeroBlocks b.vars)) :
    mapGrid (fun _ _ _ _ _ => 0) b.blocks = zeroBlocks b.vars := by
  rw [← mapGrid_zeroBlocks, mapGrid_const, mapGrid_const, h]

/-- What a term makes of zeroed buffers: gradient buffers, Hessian blocks and a result. -/
def derived (m : Multipliers α) (r : Registry α) (withHessian : Bool) (b : Bound α) :
    (Rows α × Grid α) × Except Fault α :=
  let t := b.summand.resolve m
  if withHessian then t.hessian (r.arguments b) b.zeroRows (zeroBlocks b.vars)
  else
    let (rows, result) := t.gradient (r.arguments b) b.zeroRows
    ((rows, b.blocks), result)

/-- The gradients of a term, each with the variable that the argument is bound to. -/
def slopes (m : Multipliers α) (r : Registry α) (withHessian : Bool) (b : Bound α) :
    List (Variable α × List α) :=
  b.vars.zip (b.derived m r withHessian).1.1

theorem rowLengths_derived (m : Multipliers α) (r : Registry α) (withHessian : Bool)
    (b : Bound α) :
    rowLengths (b.derived m r withHessian).1.1 = b.vars.map (·.userDimension) := by
  have hzero : rowLengths b.zeroRows = b.vars.map (·.userDimension) := by
    simp [rowLengths, zeroRows, Function.comp_def]
  rw [← hzero, derived]
  cases withHessian with
  | false => exact (b.summand.resolve m).gradient_rows _ _
  | true => exact (b.summand.resolve m).hessian_rows _ _ _

/-- The gradient of an argument is as long as its variable. -/
theorem length_of_mem_slopes {m : Multipliers α} {r : Registry α} {withHessian : Bool}
    {b : Bound α} {v : Variable α} {g : List α} (h : (v, g) ∈ b.slopes m r withHessian) :
    g.length = v.userDimension := by
  obtain ⟨i, hi⟩ := List.getElem?_of_mem h
  rw [slopes, List.getElem?_zip_eq_some] at hi
  obtain ⟨hv, hg⟩ := hi
  have hlengths := congrArg (·[i]?) (rowLengths_derived m r withHessian b)
  simp only [rowLengths, List.getElem?_map, hv, hg, Option.map_some, Option.some_inj] at hlengths
  exact hlengths

end Bound

/-! ## Buffers that fit -/

omit [Backend α] in
theorem Pool.le_largestArity {terms : List (Bound α)} {b : Bound α} (hb : b ∈ terms) :
    b.vars.length ≤ largestArity terms :=
  le_foldl_max Bound.arity hb 1

omit [Backend α] in
theorem Registry.le_largestDimension {r : Registry α} {v : Variable α} (hv : v ∈ r.vars) :
    v.userDimension ≤ r.largestDimension := by
  have hmem : v.userDimension ∈ r.vars.map (·.userDimension) := List.mem_map_of_mem hv
  unfold largestDimension
  cases hdims : r.vars.map (·.userDimension) with
  | nil =>
      rw [hdims] at hmem
      cases hmem
  | cons d ds =>
      rw [hdims] at hmem
      have hle := le_foldl_max (fun n : Nat => n) hmem 0
      rwa [List.foldl_cons, Nat.zero_max] at hle

section Task

variable {terms : List (Bound α)} {r : Registry α} {b : Bound α} {s : Scratch α}
  {hessianEnabled : Bool}

theorem clearedRows_of_fits (hs : s.Fits terms r) (hb : b ∈ terms)
    (hfits : b.Fits r hessianEnabled) : b.clearedRows s.rows = b.zeroRows :=
  Bound.clearedRows_eq hs.rows (Pool.le_largestArity hb) fun v hv =>
    Registry.le_largestDimension (hfits.vars v hv)

/-- The buffers of a worker still fit after a term was evaluated. -/
theorem Scratch.Fits.derivativeTask (hs : s.Fits terms r) (m : Multipliers α) (q : Registry α)
    (x : List α) (withHessian : Bool) (b : Bound α) :
    (derivativeTask m q x withHessian s b).1.1.Fits terms r := by
  have hkeeps := (Graph.keeps_derivativeTask m q x withHessian s b).1
  simp only [Prod.mk.injEq] at hkeeps
  exact ⟨hkeeps.1.trans hs.accumulator, hkeeps.2.trans hs.rows⟩

/-- A worker's evaluation of a term with buffers that fit. -/
theorem derivativeTask_eq (m : Multipliers α) (x : List α) {withHessian : Bool}
    (hs : s.Fits terms r) (hb : b ∈ terms) (hfits : b.Fits r hessianEnabled)
    (henabled : withHessian = true → hessianEnabled = true) :
    derivativeTask m r x withHessian s b =
      match (b.derived m r withHessian).2 with
      | .error fault =>
        ((⟨s.accumulator, restoredRows (b.derived m r withHessian).1.1 s.rows⟩,
          { b with blocks := (b.derived m r withHessian).1.2 }), .error fault)
      | .ok value =>
        ((⟨(addSlopes x (b.slopes m r withHessian) s.accumulator).1,
            restoredRows (b.derived m r withHessian).1.1 s.rows⟩,
          { b with blocks := (b.derived m r withHessian).1.2 }),
          (addSlopes x (b.slopes m r withHessian) s.accumulator).2.map fun () => value) := by
  have hrows := clearedRows_of_fits hs hb hfits
  have hderived : b.derived m r withHessian =
      if withHessian then
        (b.summand.resolve m).hessian (r.arguments b) (b.clearedRows s.rows)
          (mapGrid (fun _ _ _ _ _ => 0) b.blocks)
      else
        let (written, result) :=
          (b.summand.resolve m).gradient (r.arguments b) (b.clearedRows s.rows)
        ((written, b.blocks), result) := by
    rw [hrows, Bound.derived]
    cases withHessian with
    | false => rfl
    | true =>
        have hblocks := hfits.blocks
        rw [henabled rfl, if_pos rfl] at hblocks
        rw [Bound.mapGrid_zero_eq hblocks]
  unfold derivativeTask Bound.slopes
  dsimp only
  rw [← hderived]
  rcases b.derived m r withHessian with ⟨⟨written, blocks⟩, fault | value⟩
  · rfl
  · dsimp only
    rcases addSlopes x (b.vars.zip written) s.accumulator with ⟨total, fault | done⟩ <;> rfl

end Task

/-! ## Sums of values -/

namespace Crew

omit [Backend α] in
theorem valuesOf_of_ok {result : Bound α → Except Fault α} {value : Bound α → α}
    {terms : List (Bound α)} (h : ∀ b ∈ terms, result b = .ok (value b)) :
    valuesOf result terms = terms.map value := by
  rw [valuesOf, ← List.filterMap_eq_map]
  refine List.filterMap_congr fun b hb => ?_
  rw [h b hb]
  rfl

/-- In exact arithmetic it does not matter how the terms are shared among the workers. -/
theorem sum_pieces [ExactAddition α] (result : Bound α → Except Fault α)
    (terms : List (Bound α)) {workers : Nat} (h : 0 < workers) :
    sum ((pieces terms workers).map fun piece => sum (valuesOf result piece)) =
      sum (valuesOf result terms) := by
  have hpieces : (pieces terms workers).map (fun piece => sum (valuesOf result piece)) =
      ((pieces terms workers).map (valuesOf result)).map sum := by
    rw [List.map_map]
    rfl
  have hflatten : ((pieces terms workers).map (valuesOf result)).flatten =
      valuesOf result terms := by
    conv_rhs => rw [← flatten_pieces terms h]
    exact List.filterMap_flatten.symm
  rw [hpieces, sum_map_sum, hflatten]

end Crew

/-! ## Evaluations of a graph -/

/-- The registry after the state `x` was copied into the scratch vectors. -/
def Registry.loaded (x : List α) (r : Registry α) : Registry α :=
  r.withScratch fun s => (s.load (.ofVector x)).1.scratch

theorem steady_valueTask (m : Multipliers α) (r : Registry α) (terms : List (Bound α)) :
    Crew.Steady (valueTask m r) (fun _ => True)
      (fun b => (b.summand.resolve m).value (r.arguments b)) id terms :=
  ⟨fun _ _ _ _ => rfl, fun _ _ _ _ => rfl, fun _ _ _ _ => trivial⟩

namespace Graph

theorem valueAtStorage_eq (m : Multipliers α) (memory : Memory α) (g : Graph α) :
    (valueAtStorage m memory g).state =
        { g with
          registry := g.registry.loadStorage memory
          pool := some g.current
          valueCount := g.valueCount + 1 } ∧
      (valueAtStorage m memory g).result =
        ((Crew.start g.terms g.current).run
          (valueTask m (g.registry.loadStorage memory))).outcome := by
  have hpool := result_refreshed g
  rw [valueAtStorage, Action.state_bind_of_ok hpool, Action.result_bind_of_ok hpool,
    state_refreshed]
  exact ⟨rfl, rfl⟩

theorem value_eq (m : Multipliers α) {x : List α} {g : Graph α} (hx : x.length = g.scalars)
    (hload : (Registry.load (.ofVector x) g.registry).result = .ok ()) :
    (value m (.ofVector x) g).result =
      ((Crew.start g.terms g.current).run (valueTask m (g.registry.loaded x))).outcome := by
  have hshape : (checkState (.ofVector x) g).result = .ok () := by
    simp [checkState, hx]
  have hstate : (checkState (.ofVector x) g).state = g := rfl
  rw [value, Tensor.converted_ofVector, Action.result_bind_of_ok hshape, hstate,
    Action.result_bind_of_ok (result_refreshed g), state_refreshed]
  have hloaded : onRegistry (Registry.load (.ofVector x)) { g with pool := some g.current } =
      ⟨{ g with registry := g.registry.loaded x, pool := some g.current }, [], .ok ()⟩ := by
    rw [onRegistry, Action.within, Registry.load_of_ok hload]
    rfl
  rw [Action.bind_ok hloaded]
  rfl

/-- What a caller has to hand in so that a derivative evaluation passes the checks: a gradient
buffer of the right shape if any, and a form of Hessian that the graph supports if any. -/
structure Passes (g : Graph α) (mode : Option HessianMode) (buffer : Option (Tensor α)) :
    Prop where
  buffer : ∀ b, buffer = some b → b.shape = [g.scalars]
  mode : ∀ form, mode = some form → g.hessianEnabled = true ∧ (form = .dense ∨ form = .sparse) ∧
    g.terms.any Bound.hasReparam = false

omit [Backend α] in
theorem Passes.enabled {g : Graph α} {mode : Option HessianMode} {buffer : Option (Tensor α)}
    (h : g.Passes mode buffer) (hsome : mode.isSome = true) : g.hessianEnabled = true := by
  obtain ⟨form, hform⟩ := Option.isSome_iff_exists.1 hsome
  exact (h.mode form hform).1

/-- What a caller has to hand in so that a derivative evaluation passes the checks and its gradient
is added up in double precision. -/
structure Accepts (g : Graph α) (asked : Option HessianMode) (handed : Option (Tensor α)) : Prop
    extends g.Passes asked handed where
  kind : ∀ b, handed = some b → b.kind = .double

omit [Backend α] in
theorem gradientKind_of {P : ElementKind → Prop} {buffer : Option (Tensor α)}
    (h : ∀ b, buffer = some b → P b.kind) (hdouble : P .double) : P (gradientKind buffer) := by
  cases buffer with
  | none => exact hdouble
  | some b => exact h b rfl

omit [Backend α] in
theorem Accepts.gradientKind_eq {g : Graph α} {mode : Option HessianMode}
    {buffer : Option (Tensor α)} (h : g.Accepts mode buffer) : gradientKind buffer = .double :=
  gradientKind_of (P := (· = .double)) h.kind rfl

omit [Backend α] in
theorem Accepts.sums_ok {g : Graph α} {mode : Option HessianMode} {buffer : Option (Tensor α)}
    (h : g.Accepts mode buffer) : (gradientKind buffer).refusingSums? = none := by
  rw [h.gradientKind_eq]
  rfl

/-- The graph after the workers are done with the derivatives. -/
def worked (m : Multipliers α) (x : List α) (withHessian : Bool) (g : Graph α) : Crew α :=
  (Crew.start g.terms g.current.cleared).run
    (derivativeTask m (g.registry.loaded x) x withHessian)

theorem evaluateTerms_eq (m : Multipliers α) {x : List α} {mode : Option HessianMode}
    {buffer : Option (Tensor α)} {g : Graph α} (hg : g.Sound) (hx : x.length = g.scalars)
    (hpasses : g.Passes mode buffer)
    (hload : (Registry.load (.ofVector x) g.registry).result = .ok ()) :
    (evaluateTerms m (.ofVector x) mode buffer g).state =
        { g with
          registry := g.registry.loaded x
          terms := (g.worked m x mode.isSome).terms
          pool := some { g.current with
            scratch := (g.worked m x mode.isSome).workers.map (·.scratch) }
          derivativeCount := g.derivativeCount + 1 } ∧
      (evaluateTerms m (.ofVector x) mode buffer g).result =
        (g.worked m x mode.isSome).outcome := by
  have hshape : (checkState (.ofVector x) g).result = .ok () := by
    simp [checkState, hx]
  have hstate : (checkState (.ofVector x) g).state = g := rfl
  have hbuffer : (checkBuffer buffer g).result = .ok () := by
    cases buffer with
    | none => rfl
    | some b => simp [checkBuffer, hpasses.buffer b rfl]
  have hmode : (checkMode mode g).result = .ok () := by
    cases mode with
    | none => rfl
    | some form =>
        obtain ⟨henabled, rfl | rfl, _⟩ := hpasses.mode form rfl <;>
          simp only [checkMode, henabled, if_true] <;> rfl
  have hsupport : (mode.isNone || g.current.supportsHessian) = true := by
    cases mode with
    | none => rfl
    | some form =>
        rw [(serves_current hg).2.supportsHessian, (hpasses.mode form rfl).2.2]
        rfl
  have hrequire (h : Graph α) : (Action.require (mode.isNone || g.current.supportsHessian)
      .hessianReparameterized h : Outcome (Graph α) α Unit).result = .ok () := by
    rw [Action.result_require, if_pos hsupport]
  have hcount (f : Graph α → Graph α) (h : Graph α) :
      (Action.modify f h : Outcome (Graph α) α Unit).result = .ok () := rfl
  have hloaded : onRegistry (Registry.load (.ofVector x))
      { g with pool := some g.current, derivativeCount := g.derivativeCount + 1 } =
      ⟨{ g with
          registry := g.registry.loaded x
          pool := some g.current
          derivativeCount := g.derivativeCount + 1 }, [], .ok ()⟩ := by
    rw [onRegistry, Action.within, Registry.load_of_ok hload]
    rfl
  rw [evaluateTerms, Tensor.converted_ofVector, Action.state_bind_of_ok hshape,
    Action.result_bind_of_ok hshape, hstate,
    Action.state_bind_of_ok hbuffer, Action.result_bind_of_ok hbuffer, state_checkBuffer,
    Action.state_bind_of_ok hmode, Action.result_bind_of_ok hmode, state_checkMode,
    Action.state_bind_of_ok (result_refreshed g), Action.result_bind_of_ok (result_refreshed g),
    state_refreshed, Action.state_bind_of_ok (hrequire _), Action.result_bind_of_ok (hrequire _),
    Action.state_require, Action.state_bind_of_ok (hcount _ _),
    Action.result_bind_of_ok (hcount _ _), Action.state_modify, Action.bind_ok hloaded]
  exact ⟨rfl, rfl⟩

section Value

variable {g : Graph α} {x : List α} (m : Multipliers α) (hg : g.Sound)

include hg

/-- If no term fails, then a run for the values adds them up. -/
private theorem outcome_of_ok (r : Registry α)
    (hok : Crew.firstFault (fun b => (b.summand.resolve m).value (r.arguments b)) g.terms = none) :
    ∃ total, ((Crew.start g.terms g.current).run (valueTask m r)).outcome = .ok total ∧
      (ExactAddition α → total =
        sum (Crew.valuesOf (fun b => (b.summand.resolve m).value (r.arguments b)) g.terms)) := by
  have hpos := pos_current hg
  exact ⟨_, (Crew.run_of_ok hpos (chunks_current hg) (steady_valueTask m r g.terms)
    (fun _ _ => trivial) hok).2.2, fun _ => Crew.sum_pieces _ g.terms hpos⟩

/-- If no term fails, then the value of the graph is the sum of the values of its terms. -/
theorem value_of_ok (hx : x.length = g.scalars)
    (hload : (Registry.load (.ofVector x) g.registry).result = .ok ())
    (hok : Crew.firstFault (fun b =>
      (b.summand.resolve m).value ((g.registry.loaded x).arguments b)) g.terms = none) :
    ∃ total, (value m (.ofVector x) g).result = .ok total ∧
      (ExactAddition α → total = sum (Crew.valuesOf (fun b =>
        (b.summand.resolve m).value ((g.registry.loaded x).arguments b)) g.terms)) := by
  rw [value_eq m hx hload]
  exact outcome_of_ok m hg _ hok

/-- The same for the value at the caller's storage. -/
theorem valueAtStorage_of_ok (memory : Memory α)
    (hok : Crew.firstFault (fun b =>
      (b.summand.resolve m).value ((g.registry.loadStorage memory).arguments b)) g.terms = none) :
    ∃ total, (valueAtStorage m memory g).result = .ok total ∧
      (ExactAddition α → total = sum (Crew.valuesOf (fun b =>
        (b.summand.resolve m).value ((g.registry.loadStorage memory).arguments b)) g.terms)) := by
  rw [(valueAtStorage_eq m memory g).2]
  exact outcome_of_ok m hg _ hok

end Value

end Graph

end Separable
