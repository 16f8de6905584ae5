import Separable.Proofs.Points
import Separable.Proofs.Problem
import Separable.Proofs.Refusal

/-!
# Evaluations that agree

A graph can be asked for its value alone, or for its derivatives without a Hessian, or with one in
either form. The terms are called in three ways for this, and workers clear different buffers
before. Still nothing is added up in a different order. If every term has one value and one
gradient, in whichever way it is called, then so has the graph, and the results are the same to the
last bit.

This is said by naming the sums. Each worker adds up the values of its share of the terms from the
first to the last, and the sums of the workers are added in their order: `Graph.groupedValue`. The
gradients go the same way, through one accumulator per worker: `Graph.groupedGradient`. All of this
depends on the terms with their variables and on the number of workers only, not on what was
evaluated before.

## Main results

* `Crew.of_outcome_eq_ok`: what a crew that succeeds has added up, and where it has left it.
* `Graph.value_of_calls`, `Graph.derivatives_of_calls`: the results are the sums that are named.
* `Graph.derivatives_return`: a derivative evaluation fails for no other reason than its calls.
* `Graph.evaluations_agree`: all evaluations of a graph at a state, one beside the other.
* `Graph.evaluations_apart`: a buffer of single precision gets another gradient.
-/

namespace Separable

open Scalar

variable {α : Type} [Backend α]

/-! ## Crews that succeed -/

section Crew

variable {β : Type} {task : Task α} {fits : Scratch α → Prop} {view : Scratch α → β}
  {value : Bound α → α} {step : β → Bound α → β} {terms : List (Bound α)}

/-- Whether a task that succeeds on buffers that fit has the value of the term for its result, and
moves what is viewed of the buffers by a step that depends on the term alone. -/
structure Task.Follows (task : Task α) (fits : Scratch α → Prop) (view : Scratch α → β)
    (value : Bound α → α) (step : β → Bound α → β) (terms : List (Bound α)) : Prop where
  fits_after : ∀ s, fits s → ∀ b ∈ terms, fits (task s b).1.1
  of_ok : ∀ s, fits s → ∀ b ∈ terms, ∀ result, (task s b).2 = .ok result →
    result = value b ∧ view (task s b).1.1 = step (view s) b

omit [Backend α] in
theorem Task.Follows.mono {part : List (Bound α)} (h : task.Follows fits view value step terms)
    (hsub : ∀ b ∈ part, b ∈ terms) : task.Follows fits view value step part :=
  ⟨fun s hs b hb => h.fits_after s hs b (hsub b hb), fun s hs b hb => h.of_ok s hs b (hsub b hb)⟩

/-- What a worker without a fault has added up behind its chunk. -/
theorem Worker.of_through {chunk : List (Bound α)} (h : task.Follows fits view value step chunk)
    {w : Worker α} (hw : fits w.scratch) (hnone : (w.through task chunk).1.fault = none) :
    (w.through task chunk).1.value = (chunk.map value).foldl (· + ·) w.value ∧
      view (w.through task chunk).1.scratch = chunk.foldl step (view w.scratch) := by
  induction chunk generalizing w with
  | nil => exact ⟨rfl, rfl⟩
  | cons b rest ih =>
      have hfits := h.fits_after _ hw b (by simp)
      have hfollows := h.of_ok _ hw b (by simp)
      rcases htask : task w.scratch b with ⟨⟨scratch, b'⟩, fault | result⟩
      · simp [through, htask, record] at hnone
      · rw [htask] at hfits hfollows
        obtain ⟨rfl, hview⟩ := hfollows result rfl
        simp only [through, htask] at hnone ⊢
        obtain ⟨hvalue, hscratch⟩ :=
          ih (h.mono fun _ hd => List.mem_cons_of_mem b hd) (w := w.record scratch (.ok (value b)))
            hfits hnone
        refine ⟨hvalue, ?_⟩
        rw [hscratch, List.foldl_cons, ← hview, Worker.scratch_record]

/-- What a crew that succeeds has added up, piece by piece of the terms. -/
theorem Crew.of_outcome_eq_ok {p : Pool α} (hpos : 0 < p.scratch.length)
    (hchunks : p.chunks = Partition.chunks terms.length p.scratch.length)
    (h : task.Follows fits view value step terms) {first : β}
    (hfits : ∀ s ∈ p.scratch, fits s ∧ view s = first) {total : α}
    (hok : ((start terms p).run task).outcome = .ok total) :
    total = sum ((pieces terms p.scratch.length).map fun piece => sum (piece.map value)) ∧
      ((start terms p).run task).workers.map (fun w => view w.scratch) =
        (pieces terms p.scratch.length).map fun piece => piece.foldl step first := by
  obtain ⟨hnone, rfl⟩ := outcome_eq_ok_iff.1 hok
  rw [run_start task hpos hchunks] at hnone ⊢
  have hway : ∀ q ∈ lineup terms p.scratch,
      (q.1.through task q.2).1.value = sum (q.2.map value) ∧
        view (q.1.through task q.2).1.scratch = q.2.foldl step first := by
    intro q hq
    obtain ⟨hsub, hscratch, _, hzero⟩ := of_mem_lineup hpos hq
    obtain ⟨hfit, hfirst⟩ := hfits _ hscratch
    have hthrough := Worker.of_through (h.mono hsub) hfit (hnone _ (List.mem_map_of_mem hq))
    rwa [hzero, hfirst] at hthrough
  rw [← map_snd_lineup, List.map_map, List.map_map, List.map_map, List.map_map]
  exact ⟨congrArg sum (List.map_congr_left fun q hq => (hway q hq).1),
    List.map_congr_left fun q hq => (hway q hq).2⟩

end Crew

/-! ## The sums -/

namespace Graph

omit [Backend α] in
/-- The terms of each worker. -/
def shares (g : Graph α) : List (List (Summand α × List (Variable α))) :=
  (Partition.assignments (g.terms.map Bound.binding) g.workers).map (·.2)

/-- The sum of some values: in every share from the first to the last, and then over the shares. -/
def groupedValue (value : Summand α × List (Variable α) → α) (g : Graph α) : α :=
  sum (g.shares.map fun share => sum (share.map value))

/-- The sum of some gradients, with one accumulator per share. -/
def groupedGradient (x : List α) (rows : Summand α × List (Variable α) → Rows α) (g : Graph α) :
    List α :=
  (addAccumulators .double (zeros g.scalars) (g.shares.map fun share =>
    share.foldl (fun total b => (addSlopes x (b.2.zip (rows b)) total).1) (zeros g.scalars))).1

omit [Backend α] in
theorem map_binding_pieces (g : Graph α) :
    (Crew.pieces g.terms g.workers).map (List.map Bound.binding) = g.shares := by
  simp [Crew.pieces, shares, Partition.assignments, Partition.piece, Function.comp_def]

theorem groupedValue_eq_pieces (value : Summand α × List (Variable α) → α) (g : Graph α) :
    sum ((Crew.pieces g.terms g.workers).map fun piece =>
        sum (piece.map fun b => value b.binding)) =
      g.groupedValue value := by
  rw [groupedValue, ← map_binding_pieces, List.map_map]
  simp [Function.comp_def]

theorem groupedGradient_eq_pieces (x : List α) (rows : Summand α × List (Variable α) → Rows α)
    (g : Graph α) :
    (addAccumulators .double (zeros g.scalars) ((Crew.pieces g.terms g.workers).map fun piece =>
      piece.foldl (fun total b => (addSlopes x (b.vars.zip (rows b.binding)) total).1)
        (zeros g.scalars))).1 = g.groupedGradient x rows := by
  rw [groupedGradient, ← map_binding_pieces, List.map_map]
  simp [Function.comp_def, List.foldl_map, Bound.binding]

omit [Backend α] in
theorem Evaluated.shares_eq {g h : Graph α} (hgh : g.Evaluated h) : h.shares = g.shares := by
  rw [shares, shares, hgh.workers, Bound.map_binding_eq_of_outline hgh.terms]

theorem Evaluated.groupedValue_eq {g h : Graph α} (hgh : g.Evaluated h)
    (value : Summand α × List (Variable α) → α) : h.groupedValue value = g.groupedValue value := by
  rw [groupedValue, groupedValue, hgh.shares_eq]

theorem Evaluated.groupedGradient_eq {g h : Graph α} (hgh : g.Evaluated h) (x : List α)
    (rows : Summand α × List (Variable α) → Rows α) :
    h.groupedGradient x rows = g.groupedGradient x rows := by
  have hscalars : h.scalars = g.scalars := hgh.scalars
  rw [groupedGradient, groupedGradient, hgh.shares_eq, hscalars]

end Graph

/-! ## The calls -/

/-- What the terms of a graph give at some points if they are called for a value, and if they are
called for a gradient with zeroed buffers: values that are the same, and gradients. -/
structure Graph.Calls (m : Multipliers α) (point : Variable α → List α)
    (value : Summand α × List (Variable α) → α) (rows : Summand α × List (Variable α) → Rows α)
    (g : Graph α) : Prop where
  values : ∀ b ∈ g.terms, (b.summand.resolve m).value (b.vars.map point) = .ok (value b.binding)
  gradients : ∀ b ∈ g.terms, (b.summand.resolve m).gradient (b.vars.map point) b.zeroRows =
    (rows b.binding, .ok (value b.binding))

/-- Whether terms that are called for a Hessian give these values and gradients, too. -/
def Graph.CallsHessians (m : Multipliers α) (point : Variable α → List α)
    (value : Summand α × List (Variable α) → α) (rows : Summand α × List (Variable α) → Rows α)
    (g : Graph α) : Prop :=
  ∀ b ∈ g.terms, ∃ blocks,
    (b.summand.resolve m).hessian (b.vars.map point) b.zeroRows (Bound.zeroBlocks b.vars) =
      ((rows b.binding, blocks), .ok (value b.binding))

/-- Whether a gradient of the variable can be pulled back, whatever it is added to. -/
def Variable.Pulls (x u : List α) (v : Variable α) : Prop :=
  ∀ c, v.reparam = some c → ∀ total : List α, total.length = v.solverDimension →
    (c.pullBack (v.part x) u total).2 = .ok ()

/-- Gradients that can be pulled back are added without a fault. -/
theorem addSlopes_ok {r : Registry α} (hr : r.Sound) {x : List α}
    {slopes : List (Variable α × List α)} (hvars : ∀ slope ∈ slopes, slope.1 ∈ r.vars)
    (hpulls : ∀ slope ∈ slopes, slope.1.Pulls x slope.2) {total : List α}
    (htotal : total.length = r.scalars) : (addSlopes x slopes total).2 = .ok () := by
  induction slopes generalizing total with
  | nil => rfl
  | cons slope rest ih =>
      obtain ⟨v, u⟩ := slope
      obtain ⟨hv, hrest⟩ := List.forall_mem_cons.1 hvars
      obtain ⟨hpull, hpulls⟩ := List.forall_mem_cons.1 hpulls
      cases hc : v.reparam with
      | none =>
          simp only [addSlopes, hc]
          exact ih hrest hpulls (by simpa using htotal)
      | some c =>
          have hok := hpull c hc (v.part total) (Variable.length_part (htotal ▸ hr.stop_le hv))
          rcases hpulled : c.pullBack (v.part x) u (v.part total) with ⟨part, outcome⟩
          rw [hpulled] at hok
          dsimp only at hok
          subst hok
          simp only [addSlopes, hc, hpulled]
          exact ih hrest hpulls (by simpa using htotal)

namespace Graph

variable {m : Multipliers α} {point : Variable α → List α}
  {value : Summand α × List (Variable α) → α} {rows : Summand α × List (Variable α) → Rows α}

omit [Backend α] in
/-- The terms of a graph are the same after evaluations, but for their blocks. -/
theorem Evaluated.exists_binding {g h : Graph α} (hgh : g.Evaluated h) {d : Bound α}
    (hd : d ∈ h.terms) : ∃ b ∈ g.terms, b.summand = d.summand ∧ b.vars = d.vars := by
  have hmem := List.mem_map_of_mem (f := Bound.binding) hd
  rw [Bound.map_binding_eq_of_outline hgh.terms] at hmem
  obtain ⟨b, hb, hbinding⟩ := List.mem_map.1 hmem
  simp only [Bound.binding, Prod.mk.injEq] at hbinding
  exact ⟨b, hb, hbinding⟩

theorem Calls.of_evaluated {g h : Graph α} (hg : g.Calls m point value rows)
    (hgh : g.Evaluated h) : h.Calls m point value rows := by
  refine ⟨fun d hd => ?_, fun d hd => ?_⟩
  · obtain ⟨b, hb, hsummand, hvars⟩ := hgh.exists_binding hd
    have hvalue := hg.values b hb
    rwa [Bound.binding, hsummand, hvars] at hvalue
  · obtain ⟨b, hb, hsummand, hvars⟩ := hgh.exists_binding hd
    have hgradient := hg.gradients b hb
    rwa [Bound.binding, Bound.zeroRows, hsummand, hvars] at hgradient

theorem CallsHessians.of_evaluated {g h : Graph α} (hg : g.CallsHessians m point value rows)
    (hgh : g.Evaluated h) : h.CallsHessians m point value rows := by
  intro d hd
  obtain ⟨b, hb, hsummand, hvars⟩ := hgh.exists_binding hd
  have hhessian := hg b hb
  rwa [Bound.binding, Bound.zeroRows, hsummand, hvars] at hhessian

section Results

variable {g : Graph α} (hg : g.Sound) {x : List α}
  (hpoint : ∀ v ∈ g.registry.vars, v.StandsFor x (point v))
  (hcalls : g.Calls m point value rows)

include hg hpoint

theorem arguments_loaded {b : Bound α} (hb : b ∈ g.terms) :
    (g.registry.loaded x).arguments b = b.vars.map point :=
  arguments_of_points hg.registry (hg.terms b hb) fun v hv =>
    hpoint v ((hg.terms b hb).vars v hv)

include hcalls

/-- The value of a graph is the sum of the values of its terms, share by share. -/
theorem value_of_calls (hx : x.length = g.scalars) :
    (Graph.value m (.ofVector x) g).result = .ok (g.groupedValue value) := by
  have hresult : ∀ b ∈ g.terms,
      (b.summand.resolve m).value ((g.registry.loaded x).arguments b) = .ok (value b.binding) := by
    intro b hb
    rw [arguments_loaded hg hpoint hb]
    exact hcalls.values b hb
  have hok := (Crew.firstFault_eq_none_iff g.terms).2 fun b hb => ⟨_, hresult b hb⟩
  have hpos := pos_current hg
  rw [value_eq m hx (load_of_points hg.registry hpoint),
    (Crew.run_of_ok hpos (chunks_current hg) (steady_valueTask m _ g.terms)
      (fun _ _ => trivial) hok).2.2, ← groupedValue_eq_pieces, (serves_current hg).2.workers]
  refine congrArg (fun values => Except.ok (sum values))
    (List.map_congr_left fun piece hpiece => ?_)
  rw [Crew.valuesOf_of_ok fun b hb => hresult b ?_]
  rw [← Crew.flatten_pieces g.terms hg.workers]
  exact List.mem_flatten.2 ⟨piece, hpiece, hb⟩

/-- What a term makes of zeroed buffers, with a Hessian or without. -/
theorem derived_of_calls {withHessian : Bool}
    (hhessians : withHessian = true → g.CallsHessians m point value rows) {b : Bound α}
    (hb : b ∈ g.terms) :
    (b.derived m (g.registry.loaded x) withHessian).1.1 = rows b.binding ∧
      (b.derived m (g.registry.loaded x) withHessian).2 = .ok (value b.binding) := by
  rw [Bound.derived, arguments_loaded hg hpoint hb]
  cases withHessian with
  | false => simp [hcalls.gradients b hb]
  | true =>
      obtain ⟨blocks, hhessian⟩ := hhessians rfl b hb
      simp [hhessian]

/-- A worker that succeeds at a term adds its value and its gradient. -/
theorem follows_derivativeTask {withHessian : Bool}
    (henabled : withHessian = true → g.hessianEnabled = true)
    (hhessians : withHessian = true → g.CallsHessians m point value rows) :
    Task.Follows (derivativeTask m (g.registry.loaded x) x withHessian)
      (Scratch.Fits g.terms (g.registry.loaded x)) (·.accumulator) (fun b => value b.binding)
      (fun total b => (addSlopes x (b.vars.zip (rows b.binding)) total).1) g.terms := by
  have hsound := hg.of_evaluated (evaluated_loaded x g)
  refine ⟨fun s hs b _ => hs.derivativeTask m _ x withHessian b, fun s hs b hb result hok => ?_⟩
  obtain ⟨hrows, hvalue⟩ := derived_of_calls hg hpoint hcalls hhessians hb
  rw [derivativeTask_eq m x hs hb (hsound.terms b hb) henabled, Bound.slopes, hvalue,
    hrows] at hok ⊢
  dsimp only at hok ⊢
  obtain ⟨_, _, hresult⟩ := Action.of_map_eq_ok hok
  exact ⟨hresult.symm, rfl⟩

variable {mode : Option HessianMode} {buffer : Option (Tensor α)} (hx : x.length = g.scalars)
  (hhessians : mode.isSome = true → g.CallsHessians m point value rows)

include hx hhessians

/-- What the workers leave if they succeed are the sums over the terms, share by share. -/
theorem evaluateTerms_of_calls {total : α}
    (hok : (evaluateTerms m (.ofVector x) mode buffer g).result = .ok total) :
    total = g.groupedValue value ∧
      (evaluateTerms m (.ofVector x) mode buffer g).state.reduced.1 =
        g.groupedGradient x rows := by
  obtain ⟨_, hpasses, hload⟩ := passes_of_ok hg hok
  obtain ⟨hstate, hresult⟩ := evaluateTerms_eq m hg hx hpasses hload
  have hworkers := length_cleared hg
  obtain ⟨hvalue, haccumulators⟩ := Crew.of_outcome_eq_ok (hworkers.symm ▸ hg.workers)
    (chunks_cleared hg) (follows_derivativeTask hg hpoint hcalls hpasses.enabled hhessians)
    (fits_cleared hg x) (hresult.symm.trans hok)
  rw [hworkers] at hvalue haccumulators
  refine ⟨hvalue.trans (groupedValue_eq_pieces value g), ?_⟩
  rw [hstate, ← groupedGradient_eq_pieces, ← haccumulators, reduced, reducedIn]
  simp only [worked, List.map_map]
  rfl

/-- The derivatives of a graph, if it has any, are the sums over its terms, share by share. -/
theorem derivatives_of_calls (hkind : gradientKind buffer = .double) {d : Derivatives α}
    (hd : (derivatives m (.ofVector x) mode (g, buffer)).result = .ok d) :
    d.value = g.groupedValue value ∧ d.gradient = g.groupedGradient x rows ∧
      (derivatives m (.ofVector x) mode (g, buffer)).state.2 =
        buffer.map fun b => { b with entries := g.groupedGradient x rows } := by
  have hbuffer := buffer_derivatives m (.ofVector x) mode g buffer
  have hresult := hd
  rw [(derivatives_eq m _ mode g buffer).2, hkind] at hresult
  rw [hkind] at hbuffer
  cases hterms : (evaluateTerms m (.ofVector x) mode buffer g).result with
  | error fault =>
      rw [hterms] at hresult
      cases hresult
  | ok total =>
      obtain ⟨rfl, hgradient⟩ := evaluateTerms_of_calls hg hpoint hcalls hx hhessians hterms
      have hconcluded := concluded_of_ok hg hterms
      obtain ⟨hessian, hcollected, _⟩ := hconcluded.collected
      rw [hterms] at hresult hbuffer
      rw [reduced] at hgradient
      simp only [Except.bind, (hconcluded.reduced .double rfl).1, hcollected, Except.map, hgradient,
        Except.ok.injEq] at hresult hbuffer
      subst hresult
      exact ⟨rfl, rfl, hbuffer⟩

/-- A graph has derivatives if all gradients can be pulled back. -/
theorem derivatives_return (haccepts : g.Accepts mode buffer)
    (hpulls : ∀ b ∈ g.terms, ∀ slope ∈ b.vars.zip (rows b.binding), slope.1.Pulls x slope.2) :
    ∃ d, (derivatives m (.ofVector x) mode (g, buffer)).result = .ok d := by
  have hsound := hg.of_evaluated (evaluated_loaded x g)
  have hsteady : Crew.Steady (derivativeTask m (g.registry.loaded x) x mode.isSome)
      (Scratch.Fits g.terms (g.registry.loaded x)) (fun b => .ok (value b.binding))
      (Bound.refilled m (g.registry.loaded x) mode.isSome) g.terms := by
    refine ⟨fun s hs b hb => ?_, fun s hs b hb => ?_,
      fun s hs b _ => hs.derivativeTask m _ x mode.isSome b⟩
    · obtain ⟨hrows, hvalue⟩ := derived_of_calls hg hpoint hcalls hhessians hb
      have hadded : (addSlopes x (b.vars.zip (rows b.binding)) s.accumulator).2 = .ok () :=
        addSlopes_ok hsound.registry
          (fun slope hslope => (hsound.terms b hb).vars _ (List.of_mem_zip hslope).1)
          (hpulls b hb) hs.accumulator
      rw [derivativeTask_eq m x hs hb (hsound.terms b hb) haccepts.enabled, Bound.slopes, hvalue,
        hrows]
      simp only [hadded, Except.map]
    · rw [derivativeTask_eq m x hs hb (hsound.terms b hb) haccepts.enabled]
      cases (b.derived m (g.registry.loaded x) mode.isSome).2 <;> rfl
  have hrun := (Crew.run_of_ok ((length_cleared hg).symm ▸ hg.workers) (chunks_cleared hg) hsteady
    (fun s hs => (fits_cleared hg x s hs).1)
    ((Crew.firstFault_eq_none_iff g.terms).2 fun b _ => ⟨_, rfl⟩)).2.2
  have hload := load_of_points hg.registry hpoint
  have hterms := (evaluateTerms_eq m hg hx haccepts.toPasses hload).2.trans hrun
  obtain ⟨d, hd, _⟩ := derivatives_of_concluded hterms (concluded_of_ok hg hterms)
    haccepts.sums_ok
  exact ⟨d, hd⟩

end Results

omit [Backend α] in
/-- Evaluations do not change what a graph accepts. -/
theorem Accepts.of_evaluated {g h : Graph α} {mode : Option HessianMode}
    {buffer : Option (Tensor α)} (hg : g.Accepts mode buffer) (hgh : g.Evaluated h) :
    h.Accepts mode buffer := by
  have hscalars : h.scalars = g.scalars := hgh.scalars
  refine ⟨⟨fun b hb => hscalars ▸ hg.buffer b hb, fun form hform => ?_⟩, hg.kind⟩
  rw [hgh.hessianEnabled, Bound.any_hasReparam_eq_of_outline hgh.terms]
  exact hg.mode form hform

/-- All evaluations of a graph at a state agree if the calls of its terms do, to the last bit,
whatever was evaluated before and whatever a buffer of double precision for the gradient holds. Each
of them returns, unless a form of Hessian is refused or a gradient cannot be pulled back. -/
theorem evaluations_agree {g : Graph α} (hg : g.Reachable) {m : Multipliers α} {x : List α}
    (hx : x.length = g.scalars) {point : Variable α → List α}
    (hpoint : ∀ v ∈ g.registry.vars, v.StandsFor x (point v))
    {value : Summand α × List (Variable α) → α} {rows : Summand α × List (Variable α) → Rows α}
    (hcalls : g.Calls m point value rows) {h : Graph α} (hgh : g.Evaluated h) :
    (Graph.value m (.ofVector x) h).result = .ok (g.groupedValue value) ∧
    ∀ mode buffer, gradientKind buffer = .double →
      (mode.isSome = true → g.CallsHessians m point value rows) →
      (∀ d, (derivatives m (.ofVector x) mode (h, buffer)).result = .ok d →
        d.value = g.groupedValue value ∧ d.gradient = g.groupedGradient x rows ∧
        (derivatives m (.ofVector x) mode (h, buffer)).state.2 =
          buffer.map fun b => { b with entries := g.groupedGradient x rows }) ∧
      (g.Accepts mode buffer →
        (∀ b ∈ g.terms, ∀ slope ∈ b.vars.zip (rows b.binding), slope.1.Pulls x slope.2) →
        ∃ d, (derivatives m (.ofVector x) mode (h, buffer)).result = .ok d) := by
  have hsound := hg.sound.of_evaluated hgh
  have hscalars : x.length = h.scalars := hx.trans hgh.scalars.symm
  have hpoints : ∀ v ∈ h.registry.vars, v.StandsFor x (point v) := hgh.vars ▸ hpoint
  have hcalled := hcalls.of_evaluated hgh
  rw [← hgh.groupedValue_eq, ← hgh.groupedGradient_eq]
  refine ⟨value_of_calls hsound hpoints hcalled hscalars, fun mode buffer hkind hhessians => ?_⟩
  have hhessian : mode.isSome = true → h.CallsHessians m point value rows :=
    fun hsome => (hhessians hsome).of_evaluated hgh
  refine ⟨fun d hd => derivatives_of_calls hsound hpoints hcalled hscalars hhessian hkind hd,
    fun haccepts hpulls => derivatives_return hsound hpoints hcalled hscalars hhessian
      (haccepts.of_evaluated hgh) fun d hd => ?_⟩
  obtain ⟨b, hb, hsummand, hvars⟩ := hgh.exists_binding hd
  have hpulled := hpulls b hb
  rwa [Bound.binding, hsummand, hvars] at hpulled

/-! ### Three terms -/

/-- Two workers for three terms of two variables. -/
def threefold : Graph Float :=
  (addTerm (.plain (.quarticDifference 1)) [.handle 0, .handle 1]
    (addTerm (.plain (.squaredDistance [0.3] 1)) [.handle 1]
      (addTerm (.plain (.product 1)) [.handle 0, .handle 1]
        (addVariable ⟨"b", 1, true, [1], .double⟩ none none
          (addVariable ⟨"a", 0, true, [1], .double⟩ none none
            (.empty true 2)).state).state).state).state).state

theorem reachable_threefold : threefold.Reachable :=
  .addTerm (.addTerm (.addTerm (.addVariable (.addVariable
    (.new (show Graph.new true 2 = .ok (.empty true 2) from rfl)) _ _ _) _ _ _) _ _) _ _) _ _

theorem vars_threefold : threefold.registry.vars =
    [⟨0, ⟨"a", 0, true, [1], .double⟩, 1, 1, 0, none⟩,
      ⟨1, ⟨"b", 1, true, [1], .double⟩, 1, 1, 1, none⟩] := rfl

/-- The value of a term at the points that `[0.1, 0.7]` stands for. -/
def valueOfCall (b : Summand Float × List (Variable Float)) : Float :=
  ((b.1.resolve Multipliers.none).value (b.2.map (·.part [0.1, 0.7]))).toOption.getD 0

/-- Its gradient there. -/
def rowsOfCall (b : Summand Float × List (Variable Float)) : Rows Float :=
  ((b.1.resolve Multipliers.none).gradient (b.2.map (·.part [0.1, 0.7]))
    (b.2.map fun v => zeros v.userDimension)).1

theorem calls_threefold :
    threefold.Calls Multipliers.none (·.part [0.1, 0.7]) valueOfCall rowsOfCall :=
  ⟨by decide +kernel, by decide +kernel⟩

theorem callsHessians_threefold :
    threefold.CallsHessians Multipliers.none (·.part [0.1, 0.7]) valueOfCall rowsOfCall := by
  have hsecond : ∀ b ∈ threefold.terms,
      ((b.summand.resolve Multipliers.none).hessian (b.vars.map (·.part [0.1, 0.7])) b.zeroRows
          (Bound.zeroBlocks b.vars)).1.1 = rowsOfCall b.binding ∧
        ((b.summand.resolve Multipliers.none).hessian (b.vars.map (·.part [0.1, 0.7])) b.zeroRows
          (Bound.zeroBlocks b.vars)).2 = .ok (valueOfCall b.binding) := by decide +kernel
  exact fun b hb => ⟨_, Prod.ext (Prod.ext (hsecond b hb).1 rfl) (hsecond b hb).2⟩

/-- After an evaluation elsewhere, all evaluations at `[0.1, 0.7]` have one value and one
gradient. -/
theorem evaluations_agree_threefold : ∃ total gradient,
    (Graph.value Multipliers.none (.ofVector [0.1, 0.7])
      (Graph.value Multipliers.none (.ofVector [5, 7]) threefold).state).result = .ok total ∧
    ∀ mode ∈ [none, some .dense, some .sparse], ∃ d,
      (derivatives Multipliers.none (.ofVector [0.1, 0.7]) mode
        ((Graph.value Multipliers.none (.ofVector [5, 7]) threefold).state,
          some (.ofVector [8, 9]))).result = .ok d ∧ d.value = total ∧ d.gradient = gradient ∧
      (derivatives Multipliers.none (.ofVector [0.1, 0.7]) mode
        ((Graph.value Multipliers.none (.ofVector [5, 7]) threefold).state,
          some (.ofVector [8, 9]))).state.2 = some ⟨[2], gradient, .double⟩ := by
  have hplain : ∀ v ∈ threefold.registry.vars, v.reparam = none := by simp [vars_threefold]
  have hpoint : ∀ v ∈ threefold.registry.vars, v.StandsFor [0.1, 0.7] (v.part [0.1, 0.7]) :=
    fun v hv => reachable_threefold.sound.registry.standsFor_part rfl hv (hplain v hv)
  obtain ⟨hvalue, hderivatives⟩ := evaluations_agree reachable_threefold rfl hpoint calls_threefold
    (evaluated_value reachable_threefold.sound Multipliers.none (.ofVector [5, 7]))
  refine ⟨_, threefold.groupedGradient [0.1, 0.7] rowsOfCall, hvalue, fun mode hmode => ?_⟩
  obtain ⟨hagree, hreturn⟩ := hderivatives mode (some (.ofVector [8, 9])) rfl fun _ =>
    callsHessians_threefold
  have haccepts : threefold.Accepts mode (some (.ofVector [8, 9])) := by
    refine ⟨⟨fun b hb => ?_, fun form hform => ⟨rfl, ?_, rfl⟩⟩, fun b hb => ?_⟩
    · rw [← Option.some.inj hb]
      rfl
    · simpa [hform] using hmode
    · rw [← Option.some.inj hb]
      rfl
  obtain ⟨d, hd⟩ := hreturn haccepts fun b hb slope hslope c hc => by
    have hv := (reachable_threefold.sound.terms b hb).vars _ (List.of_mem_zip hslope).1
    rw [hplain _ hv] at hc
    cases hc
  obtain ⟨htotal, hgradient, hbuffer⟩ := hagree d hd
  exact ⟨d, hd, htotal, hgradient, hbuffer⟩

/-- A buffer of single precision gets another gradient, although all calls of the terms agree. And a
graph without Hessians has a value, but gives no derivatives with a Hessian. -/
theorem evaluations_apart :
    threefold.Reachable ∧
    threefold.Calls Multipliers.none (·.part [0.1, 0.7]) valueOfCall rowsOfCall ∧
    (∃ d e,
      (derivatives Multipliers.none (.ofVector [0.1, 0.7]) none (threefold, none)).result = .ok d ∧
      (derivatives Multipliers.none (.ofVector [0.1, 0.7]) none
        (threefold, some ⟨[2], [8, 9], .narrow .single⟩)).result = .ok e ∧
      d.value = e.value ∧ d.gradient ≠ e.gradient) ∧
    distances.Reachable ∧
    (Graph.value Multipliers.none (.ofVector [2, 3]) distances).result = .ok 8 ∧
    (derivatives Multipliers.none (.ofVector [2, 3]) (some .dense) (distances, none)).result =
      .error .hessianDisabled := by
  have hdouble : (derivatives Multipliers.none (.ofVector [0.1, 0.7]) none
      (threefold, none)).result.toOption.isSome = true := by decide +kernel
  have hsingle : (derivatives Multipliers.none (.ofVector [0.1, 0.7]) none
      (threefold, some ⟨[2], [8, 9], .narrow .single⟩)).result.toOption.isSome = true := by
    decide +kernel
  obtain ⟨d, hd⟩ := Option.isSome_iff_exists.1 hdouble
  obtain ⟨e, he⟩ := Option.isSome_iff_exists.1 hsingle
  have hdiffer : ∀ a ∈ (derivatives Multipliers.none (.ofVector [0.1, 0.7]) none
        (threefold, none)).result.toOption,
      ∀ b ∈ (derivatives Multipliers.none (.ofVector [0.1, 0.7]) none
        (threefold, some ⟨[2], [8, 9], .narrow .single⟩)).result.toOption,
      a.value = b.value ∧ a.gradient ≠ b.gradient := by decide +kernel
  refine ⟨reachable_threefold, calls_threefold, ⟨d, e, Action.of_toOption_eq_some hd,
    Action.of_toOption_eq_some he, hdiffer d hd e he⟩, reachable_distances,
    Action.of_toOption_eq_some (by decide +kernel), rfl⟩

end Graph

end Separable
