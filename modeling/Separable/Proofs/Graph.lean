import Mathlib.Data.List.Forall2
import Separable.Evaluation
import Separable.Proofs.Action
import Separable.Proofs.Crew
import Separable.Proofs.Registry

/-!
# Sound graphs

A graph is built by adding variables and terms, and in between it may be evaluated in any way and
given any number of workers. All graphs that arise so are sound: the registry is sound, every term
is bound to registered variables of the dimensions that it wants, and an evaluation storage that
counts as up to date has the shape that one built afresh would have.

The last point is what a cache needs. Additions are covered by the version, which moves with each
of them. Evaluations are covered by `Evaluated`: they change what buffers hold, but never the
structure of the graph or the shape of a buffer, whether they succeed or fail. `EvaluatedWith` says
this of any property of pools in the place of the shape.

## Main results

* `serves_current`: the pool that an evaluation works with has the shape that the graph wants.
* `evaluatedWith_value`, `evaluatedWith_valueAtStorage`, `evaluatedWith_evaluateTerms`,
  `evaluatedWith_pattern`: what evaluations leave alone if the pool that they work with stays as it
  should be.
* `evaluated_value`, `evaluated_valueAtStorage`, `evaluated_derivatives`, `evaluated_pattern`: what
  evaluations leave alone.
* `of_addVariable`: what adding a variable does.
* `Reachable.sound`: every graph that can arise is sound.
-/

namespace Separable

variable {α : Type}

/-! ## The shape of terms and pools -/

namespace Bound

/-- A bound term without the entries of its blocks. -/
def outline (b : Bound α) : Summand α × List (Variable α) × List (List (List Nat)) :=
  (b.summand, b.vars, gridLengths b.blocks)

/-- What can be read off the outlines of some terms is equal if the outlines are. -/
theorem map_eq_of_outline {β : Type} {f : Bound α → β} {terms others : List (Bound α)}
    (h : others.map outline = terms.map outline)
    (hf : ∀ b d, b.outline = d.outline → f b = f d) : others.map f = terms.map f := by
  induction others generalizing terms with
  | nil =>
      rw [List.map_nil, eq_comm, List.map_eq_nil_iff] at h
      rw [h]
  | cons b rest ih =>
      cases terms with
      | nil => cases h
      | cons d terms =>
          simp only [List.map_cons, List.cons.injEq] at h ⊢
          exact ⟨hf b d h.1, ih h.2⟩

variable [Backend α]

/-- Whether a term is bound to registered variables of the right dimensions, with blocks of the
right extents. -/
structure Fits (r : Registry α) (hessianEnabled : Bool) (b : Bound α) : Prop where
  vars : ∀ v ∈ b.vars, v ∈ r.vars
  dimensions : b.summand.dimensions = b.vars.map fun v => (v.userDimension : Int)
  blocks : gridLengths b.blocks = if hessianEnabled then gridLengths (zeroBlocks b.vars) else []

theorem Fits.of_outline {r q : Registry α} {hessianEnabled : Bool} {b d : Bound α}
    (h : b.Fits r hessianEnabled) (hvars : ∀ v ∈ r.vars, v ∈ q.vars)
    (houtline : d.outline = b.outline) : d.Fits q hessianEnabled := by
  simp only [outline, Prod.mk.injEq] at houtline
  obtain ⟨hsummand, hbound, hblocks⟩ := houtline
  refine ⟨?_, ?_, ?_⟩
  · intro v hv
    rw [hbound] at hv
    exact hvars v (h.vars v hv)
  · rw [hsummand, hbound]
    exact h.dimensions
  · rw [hblocks, hbound]
    exact h.blocks

end Bound

/-- Whether the buffers of a worker have the extents that these terms and variables want. -/
structure Scratch.Fits (terms : List (Bound α)) (r : Registry α) (s : Scratch α) : Prop where
  accumulator : s.accumulator.length = r.scalars
  rows : rowLengths s.rows = List.replicate (Pool.largestArity terms) r.largestDimension

/-- Whether a pool is what the structure of a graph wants. -/
structure Pool.Serves (p : Pool α) (g : Graph α) : Prop where
  workers : p.scratch.length = g.workers
  chunks : p.chunks = Partition.chunks g.terms.length g.workers
  coordinates : p.coordinates =
    if g.hessianEnabled then some (Bound.coordinates g.terms g.scalars) else none
  supportsHessian : p.supportsHessian = !g.terms.any Bound.hasReparam
  buffers : ∀ s ∈ p.scratch, s.Fits g.terms g.registry

namespace Graph

/-- Whether two graphs have the same structure, and buffers of the same extents. -/
structure Alike (g h : Graph α) : Prop where
  vars : h.registry.vars = g.registry.vars
  index : h.registry.index = g.registry.index
  scalars : h.registry.scalars = g.registry.scalars
  scratch : h.registry.slots.map (·.scratch.length) = g.registry.slots.map (·.scratch.length)
  terms : h.terms.map Bound.outline = g.terms.map Bound.outline
  version : h.version = g.version
  hessianEnabled : h.hessianEnabled = g.hessianEnabled
  workers : h.workers = g.workers

/-- Whether `h` can be the graph `g` after some evaluations. -/
structure Evaluated (g h : Graph α) : Prop extends Alike g h where
  pool : ∀ p, h.pool = some p → g.pool = some p ∨ p.version = g.version ∧ p.Serves g

/-- What every graph is that can arise. -/
structure Sound [Backend α] (g : Graph α) : Prop where
  registry : g.registry.Sound
  terms : ∀ b ∈ g.terms, b.Fits g.registry g.hessianEnabled
  workers : 0 < g.workers
  pool : ∀ p, g.pool = some p → p.version ≤ g.version ∧ (p.version = g.version → p.Serves g)

end Graph

/-! ## Evaluations keep the shape -/

section Outline

variable {terms others : List (Bound α)}

theorem Bound.length_eq_of_outline (h : others.map Bound.outline = terms.map Bound.outline) :
    others.length = terms.length := by
  simpa using congrArg List.length h

theorem Bound.coordinates_eq_of_outline
    (h : others.map Bound.outline = terms.map Bound.outline) (scalars : Nat) :
    Bound.coordinates others scalars = Bound.coordinates terms scalars := by
  have hplaces : others.map Bound.places = terms.map Bound.places := by
    refine Bound.map_eq_of_outline h fun b d hbd => ?_
    simp only [Bound.outline, Prod.mk.injEq] at hbd
    rw [Bound.places, Bound.places, hbd.2.1]
  simp only [Bound.coordinates_eq, List.flatMap_def, hplaces]

theorem Bound.any_hasReparam_eq_of_outline
    (h : others.map Bound.outline = terms.map Bound.outline) :
    others.any Bound.hasReparam = terms.any Bound.hasReparam := by
  have hreparam : others.map Bound.hasReparam = terms.map Bound.hasReparam := by
    refine Bound.map_eq_of_outline h fun b d hbd => ?_
    simp only [Bound.outline, Prod.mk.injEq] at hbd
    rw [Bound.hasReparam, Bound.hasReparam, hbd.2.1]
  have hany (xs : List (Bound α)) : xs.any Bound.hasReparam = (xs.map Bound.hasReparam).any id := by
    simp
  rw [hany, hany, hreparam]

theorem Bound.any_hasReparam_eq_false
    (hplain : ∀ b ∈ terms, ∀ v ∈ b.vars, v.reparam = none) :
    terms.any Bound.hasReparam = false := by
  refine List.any_eq_false.2 fun b hb => ?_
  rw [Bound.hasReparam, Bool.not_eq_true, List.any_eq_false]
  intro v hv
  simp [hplain b hb v hv]

theorem Pool.largestArity_eq_of_outline
    (h : others.map Bound.outline = terms.map Bound.outline) :
    Pool.largestArity others = Pool.largestArity terms := by
  have harity : others.map Bound.arity = terms.map Bound.arity := by
    refine Bound.map_eq_of_outline h fun b d hbd => ?_
    simp only [Bound.outline, Prod.mk.injEq] at hbd
    rw [Bound.arity, Bound.arity, hbd.2.1]
  have hfold (xs : List (Bound α)) : Pool.largestArity xs = (xs.map Bound.arity).foldl max 1 := by
    rw [Pool.largestArity, List.foldl_map]
  rw [hfold, hfold, harity]

end Outline

theorem Scratch.Fits.of_alike {g h : Graph α} (hgh : g.Alike h) {s : Scratch α}
    (hs : s.Fits g.terms g.registry) : s.Fits h.terms h.registry := by
  have hlargest : h.registry.largestDimension = g.registry.largestDimension := by
    simp only [Registry.largestDimension, hgh.vars]
  refine ⟨?_, ?_⟩
  · rw [hgh.scalars]
    exact hs.accumulator
  · rw [Pool.largestArity_eq_of_outline hgh.terms, hlargest]
    exact hs.rows

theorem Pool.Serves.of_alike {g h : Graph α} (hgh : g.Alike h) {p : Pool α}
    (hp : p.Serves g) : p.Serves h where
  workers := by
    rw [hgh.workers]
    exact hp.workers
  chunks := by
    rw [hgh.workers, Bound.length_eq_of_outline hgh.terms]
    exact hp.chunks
  coordinates := by
    have hscalars : h.scalars = g.scalars := hgh.scalars
    rw [hgh.hessianEnabled, Bound.coordinates_eq_of_outline hgh.terms, hscalars]
    exact hp.coordinates
  supportsHessian := by
    rw [Bound.any_hasReparam_eq_of_outline hgh.terms]
    exact hp.supportsHessian
  buffers := fun s hs => (hp.buffers s hs).of_alike hgh

namespace Graph

theorem Alike.refl (g : Graph α) : g.Alike g := ⟨rfl, rfl, rfl, rfl, rfl, rfl, rfl, rfl⟩

theorem Alike.symm {g h : Graph α} (hgh : g.Alike h) : h.Alike g :=
  ⟨hgh.vars.symm, hgh.index.symm, hgh.scalars.symm, hgh.scratch.symm, hgh.terms.symm,
    hgh.version.symm, hgh.hessianEnabled.symm, hgh.workers.symm⟩

theorem Alike.trans {g h k : Graph α} (hgh : g.Alike h) (hhk : h.Alike k) : g.Alike k :=
  ⟨hhk.vars.trans hgh.vars, hhk.index.trans hgh.index, hhk.scalars.trans hgh.scalars,
    hhk.scratch.trans hgh.scratch, hhk.terms.trans hgh.terms, hhk.version.trans hgh.version,
    hhk.hessianEnabled.trans hgh.hessianEnabled, hhk.workers.trans hgh.workers⟩

theorem Evaluated.refl (g : Graph α) : g.Evaluated g :=
  ⟨Alike.refl g, fun _ hp => Or.inl hp⟩

theorem Evaluated.trans {g h k : Graph α} (hgh : g.Evaluated h) (hhk : h.Evaluated k) :
    g.Evaluated k := by
  refine ⟨hgh.toAlike.trans hhk.toAlike, fun p hp => ?_⟩
  rcases hhk.pool p hp with hold | ⟨hversion, hserves⟩
  · exact hgh.pool p hold
  · exact Or.inr ⟨hversion.trans hgh.version, hserves.of_alike hgh.toAlike.symm⟩

variable [Backend α]

/-- Terms that fit a graph fit one of the same structure. -/
theorem Alike.fits {g h : Graph α} (hgh : g.Alike h)
    (hterms : ∀ b ∈ g.terms, b.Fits g.registry g.hessianEnabled) :
    ∀ d ∈ h.terms, d.Fits h.registry h.hessianEnabled := by
  intro d hd
  have hmem : d.outline ∈ g.terms.map Bound.outline := by
    rw [← hgh.terms]
    exact List.mem_map_of_mem hd
  obtain ⟨b, hb, houtline⟩ := List.mem_map.1 hmem
  rw [hgh.hessianEnabled]
  exact (hterms b hb).of_outline (fun v hv => hgh.vars ▸ hv) houtline.symm

/-- A sound graph is sound after evaluations. -/
theorem Sound.of_evaluated {g h : Graph α} (hg : g.Sound) (hgh : g.Evaluated h) : h.Sound where
  registry := hg.registry.of_eq hgh.vars hgh.index hgh.scalars hgh.scratch
  terms := hgh.fits hg.terms
  workers := by
    rw [hgh.workers]
    exact hg.workers
  pool := by
    intro p hp
    rw [hgh.version]
    rcases hgh.pool p hp with hold | ⟨hversion, hserves⟩
    · obtain ⟨hle, hserves⟩ := hg.pool p hold
      exact ⟨hle, fun hversion => (hserves hversion).of_alike hgh.toAlike⟩
    · exact ⟨Nat.le_of_eq hversion, fun _ => hserves.of_alike hgh.toAlike⟩

/-! ## The pool in force -/

/-- The pool that an evaluation works with. -/
def current (g : Graph α) : Pool α :=
  let fresh := Pool.build g.version g.workers g.hessianEnabled g.terms g.registry
  match g.pool with
  | none => fresh
  | some p => if p.version = g.version then p else fresh

@[simp] theorem result_refreshed (g : Graph α) : (refreshed g).result = .ok g.current := by
  unfold refreshed current
  cases g.pool with
  | none => rfl
  | some p =>
      dsimp only
      split <;> rfl

@[simp] theorem state_refreshed (g : Graph α) :
    (refreshed g).state = { g with pool := some g.current } := by
  unfold refreshed current
  rcases hpool : g.pool with _ | p
  · rfl
  · dsimp only
    split
    · rw [← hpool]
    · rfl

theorem refreshed_eq (g : Graph α) :
    refreshed g = ⟨{ g with pool := some g.current }, (refreshed g).log, .ok g.current⟩ := by
  rw [← state_refreshed, ← result_refreshed]

theorem version_current (g : Graph α) : g.current.version = g.version := by
  unfold current
  cases g.pool with
  | none => rfl
  | some p =>
      dsimp only
      split
      · next hversion => exact hversion
      · rfl

theorem serves_build (g : Graph α) :
    (Pool.build g.version g.workers g.hessianEnabled g.terms g.registry).Serves g where
  workers := by simp [Pool.build]
  chunks := rfl
  coordinates := rfl
  supportsHessian := rfl
  buffers := by
    intro s hs
    rw [List.eq_of_mem_replicate hs]
    exact ⟨by simp [Pool.freshScratch], by simp [Pool.freshScratch, rowLengths, filled]⟩

theorem serves_current {g : Graph α} (hg : g.Sound) :
    g.current.version = g.version ∧ g.current.Serves g := by
  refine ⟨version_current g, ?_⟩
  unfold current
  rcases hpool : g.pool with _ | p
  · exact serves_build g
  · dsimp only
    split
    · next hversion => exact (hg.pool p hpool).2 hversion
    · exact serves_build g

theorem pos_current {g : Graph α} (hg : g.Sound) : 0 < g.current.scratch.length :=
  (serves_current hg).2.workers.symm ▸ hg.workers

theorem chunks_current {g : Graph α} (hg : g.Sound) :
    g.current.chunks = Partition.chunks g.terms.length g.current.scratch.length := by
  have hserves := (serves_current hg).2
  exact hserves.workers.symm ▸ hserves.chunks

/-! ## The steps of an evaluation -/

/-- Whether `h` can be the graph `g` after some evaluations with a pool of which `Q` is true. -/
structure EvaluatedWith (Q : Pool α → Prop) (g h : Graph α) : Prop extends Alike g h where
  pool : ∀ p, h.pool = some p → g.pool = some p ∨ p.version = g.version ∧ Q p

section Steps

variable {Q : Pool α → Prop}

omit [Backend α] in
theorem EvaluatedWith.of_pool_eq {g h : Graph α} (hgh : g.Alike h) (hpool : h.pool = g.pool) :
    g.EvaluatedWith Q h :=
  ⟨hgh, fun _ hp => Or.inl (hpool ▸ hp)⟩

omit [Backend α] in
theorem EvaluatedWith.refl (g : Graph α) : g.EvaluatedWith Q g := .of_pool_eq (Alike.refl g) rfl

omit [Backend α] in
theorem EvaluatedWith.trans {g h k : Graph α} (hgh : g.EvaluatedWith Q h)
    (hhk : h.EvaluatedWith Q k) : g.EvaluatedWith Q k := by
  refine ⟨hgh.toAlike.trans hhk.toAlike, fun p hp => ?_⟩
  rcases hhk.pool p hp with hold | ⟨hversion, hQ⟩
  · exact hgh.pool p hold
  · exact Or.inr ⟨hversion.trans hgh.version, hQ⟩

omit [Backend α] in
theorem EvaluatedWith.bind {β γ : Type} {x : Action (Graph α) α β} {f : β → Action (Graph α) α γ}
    {g : Graph α} (hx : g.EvaluatedWith Q (x g).state)
    (hf : ∀ b, (x g).result = .ok b → (x g).state.EvaluatedWith Q (f b (x g).state).state) :
    g.EvaluatedWith Q ((x >>= f) g).state :=
  Action.state_bind (fun _ _ => hx) fun b hb => hx.trans (hf b hb)

theorem evaluatedWith_refreshed {g : Graph α} (hQ : Q g.current) :
    g.EvaluatedWith Q (refreshed g).state := by
  rw [state_refreshed]
  refine ⟨⟨rfl, rfl, rfl, rfl, rfl, rfl, rfl, rfl⟩, fun p hp => ?_⟩
  cases hp
  exact Or.inr ⟨version_current g, hQ⟩

theorem evaluatedWith_load (x : Tensor α) (g : Graph α) :
    g.EvaluatedWith Q (onRegistry (Registry.load x) g).state :=
  .of_pool_eq ⟨Registry.vars_load x g.registry, rfl, rfl, Registry.map_length_load x g.registry,
    rfl, rfl, rfl, rfl⟩ rfl

omit [Backend α] in
theorem evaluatedWith_loadStorage (memory : Memory α) (g : Graph α) :
    g.EvaluatedWith Q (onRegistry (Action.modify (Registry.loadStorage memory)) g).state :=
  .of_pool_eq ⟨Registry.vars_loadStorage memory g.registry, rfl, rfl,
    by simp [onRegistry, Registry.loadStorage, Function.comp_def], rfl, rfl, rfl, rfl⟩ rfl

omit [Backend α] in
theorem evaluatedWith_count (g : Graph α) :
    g.EvaluatedWith Q { g with derivativeCount := g.derivativeCount + 1 } :=
  .of_pool_eq ⟨rfl, rfl, rfl, rfl, rfl, rfl, rfl, rfl⟩ rfl

theorem evaluatedWith_sumValues (m : Multipliers α) (p : Pool α) (g : Graph α) :
    g.EvaluatedWith Q (sumValues m p g).state :=
  .of_pool_eq ⟨rfl, rfl, rfl, rfl, rfl, rfl, rfl, rfl⟩ rfl

end Steps

theorem length_addSlopes (x : List α) (slopes : List (Variable α × List α))
    (total : List α) : (addSlopes x slopes total).1.length = total.length := by
  induction slopes generalizing total with
  | nil => rfl
  | cons slope rest ih =>
      obtain ⟨v, g⟩ := slope
      simp only [addSlopes]
      split
      · rw [ih, length_addAt]
      · split
        · exact length_overwrite _ _ _
        · rw [ih, length_overwrite]

/-- A derivative evaluation of a term keeps the extents of all buffers. -/
theorem keeps_derivativeTask (m : Multipliers α) (r : Registry α) (x : List α)
    (withHessian : Bool) :
    Crew.Keeps (derivativeTask m r x withHessian)
      (fun s => (s.accumulator.length, rowLengths s.rows)) Bound.outline := by
  intro s b
  have hrows (written : Rows α) : rowLengths (restoredRows written s.rows) = rowLengths s.rows := by
    apply List.ext_getElem? fun i => ?_
    simp [rowLengths, restoredRows, Function.comp_def]
  have hgrid : gridLengths (if withHessian then
      (b.summand.resolve m).hessian (r.arguments b) (b.clearedRows s.rows)
        (mapGrid (fun _ _ _ _ _ => 0) b.blocks)
      else ((((b.summand.resolve m).gradient (r.arguments b) (b.clearedRows s.rows)).1, b.blocks),
        ((b.summand.resolve m).gradient (r.arguments b) (b.clearedRows s.rows)).2)).1.2 =
      gridLengths b.blocks := by
    cases withHessian with
    | false => rfl
    | true =>
        rw [if_pos rfl, Term.hessian_grid, gridLengths_mapGrid]
  unfold derivativeTask
  dsimp only at hgrid ⊢
  split
  · exact ⟨by rw [hrows], by rw [Bound.outline, hgrid]; rfl⟩
  · next value hvalue =>
    have hlength := length_addSlopes x
    split
    · next total fault htotal =>
      refine ⟨?_, by rw [Bound.outline, hgrid]; rfl⟩
      rw [hrows, ← hlength _ s.accumulator, htotal]
    · next total htotal =>
      refine ⟨?_, by rw [Bound.outline, hgrid]; rfl⟩
      rw [hrows, ← hlength _ s.accumulator, htotal]

theorem scratch_start {terms : List (Bound α)} {p : Pool α}
    (h : p.scratch.length ≤ p.chunks.length) :
    (Crew.start terms p).workers.map (·.scratch) = p.scratch := by
  have hzip : (p.scratch.zip p.chunks).map Prod.fst = p.scratch := List.map_fst_zip h
  rw [Crew.start, List.map_zipWith]
  rw [List.map_zip_eq_zipWith] at hzip
  exact hzip

/-- A pool that serves a graph still does so after the workers are done with the derivatives. -/
theorem serves_worked (m : Multipliers α) (r : Registry α) (x : List α) (withHessian : Bool)
    {p : Pool α} {g : Graph α} (hp : p.Serves g) :
    Pool.Serves { p with
      scratch := ((Crew.start g.terms p.cleared).run
        (derivativeTask m r x withHessian)).workers.map (·.scratch) } g := by
  obtain ⟨hscratch, _⟩ := Crew.alike_run (keeps_derivativeTask m r x withHessian)
    (Crew.start g.terms p.cleared)
  have hstart : (Crew.start g.terms p.cleared).workers.map (·.scratch) = p.cleared.scratch := by
    refine scratch_start ?_
    simp only [Pool.cleared, List.length_map, hp.chunks, hp.workers, Partition.length_chunks]
    exact Nat.le_refl _
  have hcleared : ∀ s ∈ p.cleared.scratch, s.Fits g.terms g.registry := by
    intro s hs
    obtain ⟨t, ht, rfl⟩ := List.mem_map.1 hs
    obtain ⟨haccumulator, hrows⟩ := hp.buffers t ht
    exact ⟨by simpa using haccumulator, hrows⟩
  refine ⟨?_, hp.chunks, hp.coordinates, hp.supportsHessian, ?_⟩
  · have hlength := congrArg List.length hscratch
    simp only [List.length_map] at hlength ⊢
    rw [hlength, ← List.length_map, hstart]
    simpa [Pool.cleared] using hp.workers
  · intro s hs
    have hmem : (s.accumulator.length, rowLengths s.rows) ∈
        (Crew.start g.terms p.cleared).workers.map
          fun w => (w.scratch.accumulator.length, rowLengths w.scratch.rows) := by
      rw [← hscratch]
      obtain ⟨w, hw, rfl⟩ := List.mem_map.1 hs
      exact List.mem_map.2 ⟨w, hw, rfl⟩
    obtain ⟨w, hw, heq⟩ := List.mem_map.1 hmem
    have hfits : w.scratch.Fits g.terms g.registry := by
      refine hcleared w.scratch ?_
      rw [← hstart]
      exact List.mem_map_of_mem hw
    simp only [Prod.mk.injEq] at heq
    refine ⟨?_, ?_⟩
    · rw [← heq.1]
      exact hfits.accumulator
    · rw [← heq.2]
      exact hfits.rows

theorem evaluatedWith_sumDerivatives {Q : Pool α → Prop} (m : Multipliers α) (x : List α)
    (withHessian : Bool) {p : Pool α} {g : Graph α} (hversion : p.version = g.version)
    (hQ : Q { p with
      scratch := ((Crew.start g.terms p.cleared).run
        (derivativeTask m g.registry x withHessian)).workers.map (·.scratch) }) :
    g.EvaluatedWith Q (sumDerivatives m x withHessian p g).state := by
  obtain ⟨_, hterms⟩ := Crew.alike_run (keeps_derivativeTask m g.registry x withHessian)
    (Crew.start g.terms p.cleared)
  refine ⟨⟨rfl, rfl, rfl, rfl, hterms, rfl, rfl, rfl⟩, fun q hq => Or.inr ?_⟩
  cases hq
  exact ⟨hversion, hQ⟩

/-! ## Evaluations -/

section Evaluations

variable {Q : Pool α → Prop} {g : Graph α}

theorem evaluatedWith_value (hQ : Q g.current) (m : Multipliers α) (x : Tensor α) :
    g.EvaluatedWith Q (value m x g).state := by
  refine .bind (.refl g) fun _ _ => ?_
  refine .bind (evaluatedWith_refreshed hQ) fun p _ => ?_
  refine .bind (evaluatedWith_load x.converted _) fun _ _ => ?_
  exact evaluatedWith_sumValues m p _

theorem evaluatedWith_valueAtStorage (hQ : Q g.current) (m : Multipliers α) (memory : Memory α) :
    g.EvaluatedWith Q (valueAtStorage m memory g).state := by
  refine .bind (evaluatedWith_refreshed hQ) fun p _ => ?_
  refine .bind (evaluatedWith_loadStorage memory _) fun _ _ => ?_
  exact evaluatedWith_sumValues m p _

omit [Backend α] in
theorem state_checkBuffer (buffer : Option (Tensor α)) (g : Graph α) :
    (checkBuffer buffer g).state = g := by
  cases buffer <;> rfl

omit [Backend α] in
theorem state_checkMode (mode : Option HessianMode) (g : Graph α) :
    (checkMode mode g).state = g := by
  unfold checkMode
  cases mode with
  | none => rfl
  | some mode =>
      dsimp only
      split
      · cases mode <;> rfl
      · rfl

theorem evaluatedWith_evaluateTerms (hQ : Q g.current) (m : Multipliers α) (x : Tensor α)
    (mode : Option HessianMode)
    (hworked : ∀ r : Registry α, Q { g.current with
      scratch := ((Crew.start g.terms g.current.cleared).run
        (derivativeTask m r x.entries mode.isSome)).workers.map (·.scratch) })
    (buffer : Option (Tensor α)) : g.EvaluatedWith Q (evaluateTerms m x mode buffer g).state := by
  have hbuffer : g.EvaluatedWith Q (checkBuffer buffer g).state := by
    rw [state_checkBuffer]
    exact .refl g
  have hmode : g.EvaluatedWith Q (checkMode mode g).state := by
    rw [state_checkMode]
    exact .refl g
  refine .bind (.refl g) fun _ _ => ?_
  refine .bind hbuffer fun _ _ => ?_
  rw [state_checkBuffer]
  refine .bind hmode fun _ _ => ?_
  rw [state_checkMode]
  refine .bind (evaluatedWith_refreshed hQ) fun p hp => ?_
  rw [result_refreshed] at hp
  cases hp
  refine .bind (.refl _) fun _ _ => ?_
  refine .bind (evaluatedWith_count _) fun _ _ => ?_
  refine .bind (evaluatedWith_load x.converted _) fun _ _ => ?_
  refine evaluatedWith_sumDerivatives m x.entries mode.isSome ?_ ?_
  · rw [state_refreshed]
    exact version_current g
  · rw [state_refreshed]
    exact hworked _

/-- A derivative evaluation is the evaluation of the terms, and then a look at what they left. -/
theorem derivatives_eq (m : Multipliers α) (x : Tensor α) (mode : Option HessianMode) (g : Graph α)
    (buffer : Option (Tensor α)) :
    (derivatives m x mode (g, buffer)).state.1 = (evaluateTerms m x mode buffer g).state ∧
      (derivatives m x mode (g, buffer)).result =
        (evaluateTerms m x mode buffer g).result.bind fun value =>
          let h := (evaluateTerms m x mode buffer g).state
          let kind := gradientKind buffer
          (h.reducedIn kind).2.bind fun () =>
            (mode.mapM h.collectHessian).map fun hessian =>
              ⟨value, (h.reducedIn kind).1, hessian⟩ := by
  show (Action.bind _ _ (g, buffer)).state.1 = _ ∧ (Action.bind _ _ (g, buffer)).result = _
  simp only [Action.bind, Action.get, Action.within, Bind.bind, Action.run, Action.ofExcept,
    Pure.pure, Action.pure]
  rcases evaluateTerms m x mode buffer g with ⟨h, log, fault | value⟩
  · exact ⟨rfl, rfl⟩
  · dsimp only
    rcases hreduced : h.reducedIn (gradientKind buffer) with ⟨gradient, fault | done⟩
    · exact ⟨rfl, rfl⟩
    · dsimp only [Except.map, Except.bind]
      rcases mode.mapM h.collectHessian with fault | hessian
      · exact ⟨rfl, rfl⟩
      · exact ⟨rfl, rfl⟩

theorem evaluatedWith_pattern (hQ : Q g.current) : g.EvaluatedWith Q (pattern g).state := by
  refine .bind (.refl g) fun _ _ => ?_
  refine .bind (.refl g) fun _ _ => ?_
  refine .bind (evaluatedWith_refreshed hQ) fun p _ => ?_
  refine .bind (.refl _) fun _ _ => ?_
  cases p.coordinates <;> exact .refl _

omit [Backend α] in
theorem EvaluatedWith.evaluated {h : Graph α} (hgh : g.EvaluatedWith (·.Serves g) h) :
    g.Evaluated h :=
  ⟨hgh.toAlike, hgh.pool⟩

variable (hg : g.Sound)

include hg

theorem evaluated_value (m : Multipliers α) (x : Tensor α) : g.Evaluated (value m x g).state :=
  (evaluatedWith_value (serves_current hg).2 m x).evaluated

theorem evaluated_valueAtStorage (m : Multipliers α) (memory : Memory α) :
    g.Evaluated (valueAtStorage m memory g).state :=
  (evaluatedWith_valueAtStorage (serves_current hg).2 m memory).evaluated

theorem evaluated_evaluateTerms (m : Multipliers α) (x : Tensor α) (mode : Option HessianMode)
    (buffer : Option (Tensor α)) : g.Evaluated (evaluateTerms m x mode buffer g).state := by
  have hserves := (serves_current hg).2
  exact (evaluatedWith_evaluateTerms hserves m x mode
    (fun r => serves_worked m r x.entries mode.isSome hserves) buffer).evaluated

theorem evaluated_derivatives (m : Multipliers α) (x : Tensor α) (mode : Option HessianMode)
    (buffer : Option (Tensor α)) : g.Evaluated (derivatives m x mode (g, buffer)).state.1 := by
  rw [(derivatives_eq m x mode g buffer).1]
  exact evaluated_evaluateTerms hg m x mode buffer

theorem evaluated_pattern : g.Evaluated (pattern g).state :=
  (evaluatedWith_pattern (serves_current hg).2).evaluated

end Evaluations

/-! ## Additions -/

omit [Backend α] in
theorem forall₂_of_mapM {β γ : Type} {f : β → Except Fault γ} {bs : List β} {cs : List γ}
    (h : bs.mapM f = .ok cs) : List.Forall₂ (fun b c => f b = .ok c) bs cs := by
  induction bs generalizing cs with
  | nil =>
      cases h
      exact List.Forall₂.nil
  | cons b rest ih =>
      rw [List.mapM_cons] at h
      cases hb : f b with
      | error fault =>
          rw [hb] at h
          cases h
      | ok c =>
          rw [hb] at h
          cases hrest : rest.mapM f with
          | error fault =>
              rw [hrest] at h
              cases h
          | ok more =>
              rw [hrest] at h
              cases h
              exact List.Forall₂.cons hb (ih hrest)

omit [Backend α] in
theorem dimensions_of_firstMismatch {position : Nat} {dimensions : List Int}
    {vars : List (Variable α)} (hlength : dimensions.length = vars.length)
    (h : firstMismatch position dimensions vars = none) :
    dimensions = vars.map fun v => (v.userDimension : Int) := by
  induction dimensions generalizing position vars with
  | nil =>
      cases vars with
      | nil => rfl
      | cons v vars => cases hlength
  | cons expected dimensions ih =>
      cases vars with
      | nil => cases hlength
      | cons v vars =>
          simp only [firstMismatch] at h
          split at h
          · next hv =>
            rw [List.map_cons, hv, ← ih (Nat.succ.inj hlength) h]
          · cases h

omit [Backend α] in
/-- The variables that a summand is bound to are registered and have the dimensions that it
wants. -/
theorem of_bind_eq_ok {g : Graph α} {s : Summand α} {arguments : List Ref}
    {vars : List (Variable α)} (h : g.bind s arguments = .ok vars) :
    List.Forall₂ (fun ref v => g.registry.resolve ref = .ok v) arguments vars ∧
      s.dimensions = vars.map fun v => (v.userDimension : Int) := by
  unfold bind at h
  split at h
  · next harity =>
    split at h
    · cases h
    · next resolved hresolved =>
      split at h
      · next hmatch =>
        cases h
        have hall := forall₂_of_mapM hresolved
        exact ⟨hall, dimensions_of_firstMismatch (harity.symm.trans hall.length_eq) hmatch⟩
      · cases h
  · cases h

omit [Backend α] in
theorem forall_mem_of_forall₂ {r : Registry α} {arguments : List Ref} {vars : List (Variable α)}
    (h : List.Forall₂ (fun ref v => r.resolve ref = .ok v) arguments vars) :
    ∀ v ∈ vars, v ∈ r.vars := by
  induction h with
  | nil => simp
  | cons hv _ ih => exact List.forall_mem_cons.2 ⟨Registry.mem_of_resolve hv, ih⟩

/-- An addition puts every pool of before out of date. -/
theorem Sound.pool_lt {g : Graph α} (hg : g.Sound) {h : Graph α} (hpool : h.pool = g.pool)
    (hversion : h.version = g.version + 1) :
    ∀ p, h.pool = some p → p.version ≤ h.version ∧ (p.version = h.version → p.Serves h) := by
  intro p hp
  obtain ⟨hle, _⟩ := hg.pool p (hpool ▸ hp)
  exact ⟨by omega, fun heq => by omega⟩

/-- What adding a variable does: nothing if it is refused, and else the version moves, whether the
variable is known already or is registered. -/
theorem of_addVariable (s : Storage) (dimension : Option Int) (reparam : Option (Reparam α))
    (g : Graph α) :
    (∃ fault, addVariable s dimension reparam g = ⟨g, [], .error fault⟩) ∨
      (∃ id, addVariable s dimension reparam g = ⟨{ g with version := g.version + 1 }, [], .ok id⟩) ∨
      (g.registry.check s dimension reparam = .ok none ∧
        ∃ id, addVariable s dimension reparam g =
          ⟨{ g with registry := g.registry.push s reparam, version := g.version + 1 }, [],
            .ok id⟩) := by
  cases hcheck : g.registry.check s dimension reparam with
  | error fault => exact .inl ⟨fault, addVariable_of_error (Registry.add_of_check_error hcheck)⟩
  | ok known =>
      cases known with
      | some id =>
          exact .inr (.inl ⟨id, addVariable_of_ok (Registry.add_of_check_some hcheck)⟩)
      | none =>
          exact .inr (.inr ⟨rfl, _, addVariable_of_ok (Registry.add_of_check_none hcheck)⟩)

theorem sound_addVariable {g : Graph α} (hg : g.Sound) (s : Storage) (dimension : Option Int)
    (reparam : Option (Reparam α)) : (addVariable s dimension reparam g).state.Sound := by
  rcases of_addVariable s dimension reparam g with ⟨_, h⟩ | ⟨_, h⟩ | ⟨hcheck, _, h⟩
  · rw [h]
    exact hg
  · rw [h]
    exact ⟨hg.registry, hg.terms, hg.workers, hg.pool_lt rfl rfl⟩
  · rw [h]
    refine ⟨Registry.sound_push hg.registry hcheck, fun b hb => ?_, hg.workers,
      hg.pool_lt rfl rfl⟩
    refine (hg.terms b hb).of_outline (fun v hv => ?_) rfl
    rw [Registry.vars_push]
    exact List.mem_append_left _ hv

/-- If the terms of a graph fit it, then so do those after another one was bound. -/
theorem fits_push {g : Graph α} (hterms : ∀ b ∈ g.terms, b.Fits g.registry g.hessianEnabled)
    {s : Summand α} {arguments : List Ref} {vars : List (Variable α)}
    (hbind : g.bind s arguments = .ok vars) :
    ∀ b ∈ (g.push s vars).1.terms, b.Fits g.registry g.hessianEnabled := by
  obtain ⟨hresolved, hdimensions⟩ := of_bind_eq_ok hbind
  intro b hb
  rcases List.mem_append.1 hb with hb | hb
  · exact hterms b hb
  · rw [List.mem_singleton.1 hb]
    refine ⟨forall_mem_of_forall₂ hresolved, hdimensions, ?_⟩
    show gridLengths (if g.hessianEnabled then Bound.zeroBlocks vars else []) =
      if g.hessianEnabled then gridLengths (Bound.zeroBlocks vars) else []
    by_cases henabled : g.hessianEnabled
    · rw [if_pos henabled, if_pos henabled]
    · rw [if_neg henabled, if_neg henabled]
      rfl

theorem sound_addTerm {g : Graph α} (hg : g.Sound) (s : Summand α) (arguments : List Ref) :
    (addTerm s arguments g).state.Sound := by
  rw [addTerm, Action.state_run]
  cases hbind : g.bind s arguments with
  | error fault => exact hg
  | ok vars => exact ⟨hg.registry, fits_push hg.terms hbind, hg.workers, hg.pool_lt rfl rfl⟩

theorem sound_empty (hessianEnabled : Bool) {workers : Nat} (h : 0 < workers) :
    (empty hessianEnabled workers : Graph α).Sound :=
  ⟨Registry.sound_empty, by simp [empty], h, by simp [empty]⟩

omit [Backend α] in
theorem checkedWorkers_pos {count : Int} {workers : Nat}
    (h : checkedWorkers count = .ok workers) : 0 < workers := by
  unfold checkedWorkers at h
  split at h
  · cases h
  · cases h
    omega

theorem sound_setWorkers {g : Graph α} (hg : g.Sound) (count : Int) :
    (setWorkers count g).state.Sound := by
  rw [setWorkers, Action.state_run]
  cases hcount : checkedWorkers count with
  | error fault => exact hg
  | ok workers => exact ⟨hg.registry, hg.terms, checkedWorkers_pos hcount, by simp⟩

/-! ## Reachable graphs -/

/-- The graphs that arise from an empty one by adding variables and terms, by changing the number
of workers, and by evaluations. What fails on the way counts, too. -/
inductive Reachable : Graph α → Prop
  | new {hessianEnabled : Bool} {count : Int} {g : Graph α}
      (h : Graph.new hessianEnabled count = .ok g) : Reachable g
  | addVariable {g : Graph α} (hg : Reachable g) (s : Storage) (dimension : Option Int)
      (reparam : Option (Reparam α)) : Reachable (addVariable s dimension reparam g).state
  | addTerm {g : Graph α} (hg : Reachable g) (s : Summand α) (arguments : List Ref) :
      Reachable (addTerm s arguments g).state
  | setWorkers {g : Graph α} (hg : Reachable g) (count : Int) :
      Reachable (setWorkers count g).state
  | value {g : Graph α} (hg : Reachable g) (m : Multipliers α) (x : Tensor α) :
      Reachable (value m x g).state
  | valueAtStorage {g : Graph α} (hg : Reachable g) (m : Multipliers α) (memory : Memory α) :
      Reachable (valueAtStorage m memory g).state
  | derivatives {g : Graph α} (hg : Reachable g) (m : Multipliers α) (x : Tensor α)
      (mode : Option HessianMode) (buffer : Option (Tensor α)) :
      Reachable (derivatives m x mode (g, buffer)).state.1
  | pattern {g : Graph α} (hg : Reachable g) : Reachable (pattern g).state

/-- Every graph that can arise is sound. -/
theorem Reachable.sound {g : Graph α} (hg : Reachable g) : g.Sound := by
  induction hg with
  | @new hessianEnabled count g h =>
      rw [Graph.new] at h
      cases hcount : checkedWorkers count with
      | error fault =>
          rw [hcount] at h
          cases h
      | ok workers =>
          rw [hcount] at h
          cases h
          exact sound_empty hessianEnabled (checkedWorkers_pos hcount)
  | addVariable _ s dimension reparam ih => exact sound_addVariable ih s dimension reparam
  | addTerm _ s arguments ih => exact sound_addTerm ih s arguments
  | setWorkers _ count ih => exact sound_setWorkers ih count
  | value _ m x ih => exact ih.of_evaluated (evaluated_value ih m x)
  | valueAtStorage _ m memory ih => exact ih.of_evaluated (evaluated_valueAtStorage ih m memory)
  | derivatives _ m x mode buffer ih =>
      exact ih.of_evaluated (evaluated_derivatives ih m x mode buffer)
  | pattern _ ih => exact ih.of_evaluated (evaluated_pattern ih)

end Graph

end Separable
