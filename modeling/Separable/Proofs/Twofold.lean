import Separable.Proofs.Coupling
import Separable.Proofs.Problem
import Separable.Proofs.Untouched

/-!
# Graphs of one structure

Two graphs can have the same structure and number of workers, and still hold different things: what
earlier evaluations left in the scratch vectors, in the blocks of the terms and in the pool, how
often they were evaluated, and how often they were changed. None of this comes out. Whatever is
evaluated, both graphs give the same result.

The reason is the order of things in an evaluation. The pool is a function of the structure but for
the entries of its buffers. Loading makes the scratch vectors equal, or fails in the same way: a
plain variable is copied as a whole, and a reparameterization is asked to write all of its output
(`Reparam.Whole`), which it need not do where it fails. Then the workers go through equal terms, with
accumulators that were set to zero and rows and blocks that are cleared before a term sees them.

## Main results

* `Registry.coupled_load`, `Registry.loadStorage_congr`: the scratch vectors after loading.
* `Reparam.whole_square`: a reparameterization that writes all its output.
* `coupled_derivativeTask`: a worker's evaluation of a term.
* `Graph.Coupled.value_congr`, `Graph.Coupled.valueAtStorage_congr`,
  `Graph.Coupled.derivatives_congr`, `Graph.Coupled.pattern_congr`: the results of evaluations.
-/

namespace Separable

open Scalar

variable {α : Type}

/-! ## Loading -/

/-- Whether the way to user space reads nothing of the vector that it writes, and writes all of it
unless it fails. -/
def Reparam.Whole (c : Reparam α) : Prop :=
  ∀ t user other, user.length = other.length →
    (c.toUser t user).2 = (c.toUser t other).2 ∧
      ((c.toUser t user).2 = .ok () → (c.toUser t user).1 = (c.toUser t other).1)

/-- Whether all that is written to a variable's scratch vector is written as a whole. -/
def Variable.Whole (v : Variable α) : Prop := ∀ c, v.reparam = some c → c.Whole

namespace Reparam

variable [Backend α]

theorem whole_square (dimension : Int) (broken : Option Direction) :
    (square dimension broken : Reparam α).Whole := by
  intro t user other hlength
  simp only [square_toUser]
  split
  · exact ⟨rfl, fun hok => by cases hok⟩
  · refine ⟨by rw [hlength], fun hok => ?_⟩
    have hpoint : user.length ≤ t.length := by
      dsimp only at hok
      split at hok
      · cases hok
      · omega
    apply List.ext_getElem? fun i => ?_
    rw [getElem?_overwrite, getElem?_overwrite]
    by_cases hi : i < user.length
    · have hpoint : i < t.length := by omega
      simp [List.getElem?_eq_getElem hi, List.getElem?_eq_getElem (hlength ▸ hi : i < other.length),
        hpoint]
    · have hnone : user[i]? = none := List.getElem?_eq_none (by omega)
      have hnone' : other[i]? = none := List.getElem?_eq_none (by omega)
      rw [hnone, hnone']

end Reparam

/-- What a user vector becomes does not depend on what it holds. -/
theorem Variable.values_congr {v : Variable α} (hv : v.Whole) (part : List α)
    {old other : List α} (hlength : old.length = other.length) :
    (v.values part old).2 = (v.values part other).2 ∧
      ((v.values part old).2 = .ok () → (v.values part old).1 = (v.values part other).1) := by
  cases hc : v.reparam with
  | some c =>
      simp only [values_some hc]
      exact hv c hc part old other hlength
  | none =>
      simp only [values_none hc]
      rw [← hlength]
      cases copied part old.length with
      | error fault => exact ⟨rfl, fun hok => by cases hok⟩
      | ok new => exact ⟨rfl, fun _ => rfl⟩

theorem Slot.load_congr {s t : Slot α} (hvar : s.toVariable = t.toVariable)
    (hlength : s.scratch.length = t.scratch.length) (hwhole : s.toVariable.Whole) {x : Tensor α}
    {n : Nat} (hx : x.shape = [n]) :
    (s.load x.converted).2 = (t.load x.converted).2 ∧
      ((s.load x.converted).2 = .ok () → (s.load x.converted).1 = (t.load x.converted).1) := by
  obtain ⟨v, scratch⟩ := s
  obtain ⟨w, scratch'⟩ := t
  dsimp only at hvar hlength hwhole
  subst hvar
  obtain ⟨hresult, hvalues⟩ := Variable.values_congr hwhole (v.part x.entries) hlength
  have hload (old : List α) : v.valuesFrom x.converted old = v.values (v.part x.entries) old := by
    rw [Variable.valuesFrom, Tensor.shape_converted, hx]
    rfl
  simp only [Slot.load, hload]
  exact ⟨hresult, fun hok => by rw [hvalues hok]⟩

namespace Registry

private theorem loadSlots_congr [Backend α] {x : Tensor α} {n : Nat} (hx : x.shape = [n])
    {slots others : List (Slot α)}
    (hvars : slots.map Slot.toVariable = others.map Slot.toVariable)
    (hslots : ∀ s ∈ slots, s.scratch.length = s.userDimension)
    (hothers : ∀ s ∈ others, s.scratch.length = s.userDimension)
    (hwhole : ∀ s ∈ slots, s.toVariable.Whole) :
    (loadSlots x.converted slots).2 = (loadSlots x.converted others).2 ∧
      ((loadSlots x.converted slots).2 = .ok () →
        (loadSlots x.converted slots).1 = (loadSlots x.converted others).1) := by
  induction slots generalizing others with
  | nil =>
      rw [List.map_nil, eq_comm, List.map_eq_nil_iff] at hvars
      rw [hvars]
      exact ⟨rfl, fun _ => rfl⟩
  | cons s rest ih =>
      cases others with
      | nil => cases hvars
      | cons t others =>
          simp only [List.map_cons, List.cons.injEq] at hvars
          obtain ⟨hs, hslots⟩ := List.forall_mem_cons.1 hslots
          obtain ⟨ht, hothers⟩ := List.forall_mem_cons.1 hothers
          obtain ⟨hhead, hwhole⟩ := List.forall_mem_cons.1 hwhole
          have hdimension : s.userDimension = t.userDimension :=
            congrArg Variable.userDimension hvars.1
          obtain ⟨hresult, hload⟩ :=
            Slot.load_congr hvars.1 (hs.trans (hdimension.trans ht.symm)) hhead hx
          obtain ⟨hrest, hloadRest⟩ := ih hvars.2 hslots hothers hwhole
          rcases hsload : s.load x.converted with ⟨s', result⟩
          rcases htload : t.load x.converted with ⟨t', result'⟩
          rw [hsload, htload] at hresult hload
          dsimp only at hresult hload
          subst hresult
          simp only [loadSlots, hsload, htload]
          cases result with
          | error fault => exact ⟨rfl, fun hok => by cases hok⟩
          | ok done =>
              cases done
              exact ⟨hrest, fun hok => by rw [hload rfl, hloadRest hok]⟩

variable {r q : Registry α}

/-- A state is loaded into two registries with the same variables with the same outcome, and if this
is a success, then the registries are the same afterwards. -/
theorem coupled_load [Backend α] (hr : r.Sound) (hq : q.Sound) (hvars : r.vars = q.vars)
    (hwhole : ∀ v ∈ r.vars, v.Whole) {x : Tensor α} {n : Nat} (hx : x.shape = [n]) :
    Outcome.Coupled (fun _ r _ q => r = q) (load x.converted r) (load x.converted q) := by
  obtain ⟨hresult, hslots⟩ := loadSlots_congr hx hvars (fun s hs => hr.length_slot hs)
    (fun s hs => hq.length_slot hs) fun s hs => hwhole s.toVariable (List.mem_map_of_mem hs)
  refine .of_result_eq hresult fun done hok => ?_
  simp only [load, Action.run, hslots hok, hr.scalars_eq hq hvars, hr.index_eq hq hvars]

/-- What the storages hold is loaded as a whole. -/
theorem loadStorage_eq (hr : r.Sound) {memory : Memory α}
    (hheld : ∀ v ∈ r.vars, (memory.read v.storage).length = v.userDimension) :
    r.loadStorage memory =
      { r with slots := r.vars.map fun v => ⟨v, memory.read v.storage⟩ } := by
  rw [loadStorage, vars, List.map_map]
  congr 1
  refine List.map_congr_left fun s hs => ?_
  have hlength := hheld s.toVariable (List.mem_map_of_mem hs)
  rw [Slot.loadStorage, overwrite_zero_of_length_eq (hlength.trans (hr.length_slot hs).symm)]
  rfl

/-- What the storages hold is loaded into two registries with the same variables as a whole, and so
the registries are the same afterwards. -/
theorem loadStorage_congr (hr : r.Sound) (hq : q.Sound) (hvars : r.vars = q.vars)
    {memory : Memory α}
    (hheld : ∀ v ∈ r.vars, (memory.read v.storage).length = v.userDimension) :
    r.loadStorage memory = q.loadStorage memory := by
  rw [loadStorage_eq hr hheld, loadStorage_eq hq (hvars ▸ hheld), hvars, hr.scalars_eq hq hvars,
    hr.index_eq hq hvars]

end Registry

variable [Backend α]

/-! ## One term -/

namespace Bound

variable {b d : Bound α}

/-- What a term makes of zeroed buffers depends on its binding. -/
theorem derived_congr (h : b.binding = d.binding) (m : Multipliers α) (r : Registry α)
    (withHessian : Bool) :
    (b.derived m r withHessian).2 = (d.derived m r withHessian).2 ∧
      (b.derived m r withHessian).1.1 = (d.derived m r withHessian).1.1 ∧
      (withHessian = true →
        (b.derived m r withHessian).1.2 = (d.derived m r withHessian).1.2) := by
  obtain ⟨summand, vars, blocks⟩ := b
  obtain ⟨summand', vars', blocks'⟩ := d
  simp only [binding, Prod.mk.injEq] at h
  obtain ⟨rfl, rfl⟩ := h
  cases withHessian with
  | false => exact ⟨rfl, rfl, fun hfalse => by cases hfalse⟩
  | true => exact ⟨rfl, rfl, fun _ => rfl⟩

/-- Whether two terms have the same binding, and if asked for the same blocks. -/
def Alike (withBlocks : Bool) (b d : Bound α) : Prop :=
  b.binding = d.binding ∧ (withBlocks = true → b.blocks = d.blocks)

omit [Backend α] in
theorem Alike.eq (h : b.Alike true d) : b = d := by
  obtain ⟨hbinding, hblocks⟩ := h
  obtain ⟨summand, vars, blocks⟩ := b
  simp only [binding, Prod.mk.injEq] at hbinding
  obtain ⟨rfl, rfl⟩ := hbinding
  rw [show blocks = d.blocks from hblocks rfl]

end Bound

/-- The value of a term depends on its binding. -/
theorem coupled_valueTask (m : Multipliers α) (r : Registry α) :
    Task.Coupled (fun _ _ => True) (fun b d => b.binding = d.binding) (fun _ _ => True)
      (valueTask m r) (valueTask m r) := by
  intro s t b d _ hbd
  simp only [Bound.binding, Prod.mk.injEq] at hbd
  refine ⟨?_, trivial, fun _ _ => trivial⟩
  simp only [valueTask, Registry.arguments, hbd.1, hbd.2]

section Derivative

variable {terms others : List (Bound α)} {r : Registry α} {hessianEnabled withHessian : Bool}

/-- Whether two workers have the same accumulator, and buffers that fit these terms. -/
def Scratch.Coupled (terms others : List (Bound α)) (r : Registry α) (s t : Scratch α) : Prop :=
  s.accumulator = t.accumulator ∧ s.Fits terms r ∧ t.Fits others r

/-- The derivatives of a term depend on its binding and on the accumulator that they are added to,
and on nothing else in buffers that fit. -/
theorem coupled_derivativeTask (m : Multipliers α) (x : List α)
    (hterms : ∀ b ∈ terms, b.Fits r hessianEnabled) (hothers : ∀ d ∈ others, d.Fits r hessianEnabled)
    (henabled : withHessian = true → hessianEnabled = true) :
    Task.Coupled (Scratch.Coupled terms others r)
      (fun b d => b ∈ terms ∧ d ∈ others ∧ b.binding = d.binding)
      (Bound.Alike withHessian) (derivativeTask m r x withHessian)
      (derivativeTask m r x withHessian) := by
  rintro s t b d ⟨haccumulator, hs, ht⟩ ⟨hb, hd, hbinding⟩
  have hfits := hs.derivativeTask m r x withHessian b
  have hfits' := ht.derivativeTask m r x withHessian d
  obtain ⟨hresult, hrows, hblocks⟩ := Bound.derived_congr hbinding m r withHessian
  have hslopes : b.slopes m r withHessian = d.slopes m r withHessian := by
    simp only [Bound.binding, Prod.mk.injEq] at hbinding
    rw [Bound.slopes, Bound.slopes, hbinding.2, hrows]
  rw [derivativeTask_eq m x hs hb (hterms b hb) henabled] at hfits ⊢
  rw [derivativeTask_eq m x ht hd (hothers d hd) henabled] at hfits' ⊢
  rw [← hresult, ← hslopes, ← haccumulator] at hfits' ⊢
  cases hderived : (b.derived m r withHessian).2 with
  | error fault =>
      rw [hderived] at hfits hfits'
      dsimp only at hfits hfits' ⊢
      exact ⟨rfl, ⟨rfl, hfits, hfits'⟩, fun _ hok => by cases hok⟩
  | ok value =>
      rw [hderived] at hfits hfits'
      dsimp only at hfits hfits' ⊢
      exact ⟨rfl, ⟨rfl, hfits, hfits'⟩, fun _ _ => ⟨hbinding, hblocks⟩⟩

end Derivative

namespace Graph

/-! ## Graphs that are looked at together -/

/-- A graph without what evaluations leave in it, and without its history: its variables, the
bindings of its terms, whether it keeps Hessians, and the number of workers. -/
def outline (g : Graph α) :
    List (Variable α) × List (Summand α × List (Variable α)) × Bool × Nat :=
  (g.registry.vars, g.terms.map Bound.binding, g.hessianEnabled, g.workers)

omit [Backend α] in
/-- Evaluations leave the outline alone. -/
theorem Alike.outline_eq {g h : Graph α} (hgh : g.Alike h) : h.outline = g.outline := by
  rw [outline, outline, hgh.vars, Bound.map_binding_eq_of_outline hgh.terms, hgh.hessianEnabled,
    hgh.workers]

/-- Whether two graphs can be evaluated side by side. -/
structure Coupled (g h : Graph α) : Prop where
  left : g.Sound
  right : h.Sound
  same : h.outline = g.outline
  whole : ∀ v ∈ g.registry.vars, v.Whole

/-- The outlines of terms that fit are determined by their bindings. -/
private theorem map_outline_eq {terms : List (Bound α)} {r : Registry α} {hessianEnabled : Bool}
    (hterms : ∀ b ∈ terms, b.Fits r hessianEnabled) :
    terms.map Bound.outline = (terms.map Bound.binding).map fun (s, vars) =>
      (s, vars, if hessianEnabled then gridLengths (Bound.zeroBlocks vars) else []) := by
  rw [List.map_map]
  refine List.map_congr_left fun b hb => ?_
  rw [Bound.outline, (hterms b hb).blocks]
  rfl

namespace Coupled

variable {g h : Graph α} (hgh : g.Coupled h)

include hgh

theorem vars_eq : h.registry.vars = g.registry.vars := congrArg (·.1) hgh.same

theorem bindings_eq : h.terms.map Bound.binding = g.terms.map Bound.binding :=
  congrArg (·.2.1) hgh.same

theorem hessianEnabled_eq : h.hessianEnabled = g.hessianEnabled := congrArg (·.2.2.1) hgh.same

theorem workers_eq : h.workers = g.workers := congrArg (·.2.2.2) hgh.same

theorem scalars_eq : h.scalars = g.scalars :=
  hgh.right.registry.scalars_eq hgh.left.registry hgh.vars_eq

/-- But for their versions, the graphs have buffers of the same extents. -/
theorem alike : g.Alike { h with version := g.version } where
  vars := hgh.vars_eq
  index := hgh.right.registry.index_eq hgh.left.registry hgh.vars_eq
  scalars := hgh.scalars_eq
  scratch := by
    rw [hgh.left.registry.scratch, ← hgh.vars_eq]
    exact hgh.right.registry.scratch
  terms := by
    rw [map_outline_eq hgh.left.terms, map_outline_eq hgh.right.terms, hgh.bindings_eq,
      hgh.hessianEnabled_eq]
  version := rfl
  hessianEnabled := hgh.hessianEnabled_eq
  workers := hgh.workers_eq

omit hgh in
/-- Two graphs can still be evaluated side by side after evaluations. -/
theorem of_evaluated {g' h' : Graph α} (hgh : g.Coupled h) (hg : g.Evaluated g')
    (hh : h.Evaluated h') : g'.Coupled h' where
  left := hgh.left.of_evaluated hg
  right := hgh.right.of_evaluated hh
  same := hh.toAlike.outline_eq.trans (hgh.same.trans hg.toAlike.outline_eq.symm)
  whole := hg.vars.symm ▸ hgh.whole

/-- Pools that serve the graphs are the same but for what their buffers hold. -/
theorem pools_eq {p q : Pool α} (hp : p.Serves g) (hq : q.Serves h) :
    q.scratch.length = p.scratch.length ∧ q.coordinates = p.coordinates ∧
      q.supportsHessian = p.supportsHessian := by
  -- No part of what a pool must be refers to the version.
  have hq' : q.Serves { h with version := g.version } :=
    ⟨hq.workers, hq.chunks, hq.coordinates, hq.supportsHessian, hq.buffers⟩
  have hserves := hq'.of_alike hgh.alike.symm
  exact ⟨hserves.workers.trans hp.workers.symm, hserves.coordinates.trans hp.coordinates.symm,
    hserves.supportsHessian.trans hp.supportsHessian.symm⟩

/-- The terms of the graphs are the same but for their blocks. -/
theorem forall₂_terms : List.Forall₂
    (fun b d => b ∈ g.terms ∧ d ∈ h.terms ∧ b.binding = d.binding) g.terms h.terms := by
  have hbindings : List.Forall₂ (fun b d : Bound α => b.binding = d.binding) g.terms h.terms :=
    forall₂_map_eq_iff.2 hgh.bindings_eq.symm
  obtain ⟨hlength, hzip⟩ := List.forall₂_iff_zip.1 hbindings
  refine List.forall₂_iff_zip.2 ⟨hlength, fun {b d} hmem => ?_⟩
  exact ⟨(List.of_mem_zip hmem).1, (List.of_mem_zip hmem).2, hzip hmem⟩

/-! ## The steps of an evaluation -/

theorem checkState (x : Tensor α) :
    Outcome.Coupled (fun _ s _ t => s = g ∧ t = h ∧ x.shape = [g.scalars])
      (Graph.checkState x g) (Graph.checkState x h) := by
  refine .of_result_eq ?_ fun _ hok => ⟨rfl, rfl, by simpa using Action.of_require_eq_ok hok⟩
  simp only [Graph.checkState, Action.result_require, hgh.scalars_eq]

theorem checkBuffer (buffer : Option (Tensor α)) :
    Outcome.Coupled (fun _ s _ t => s = g ∧ t = h) (Graph.checkBuffer buffer g)
      (Graph.checkBuffer buffer h) := by
  refine .of_result_eq ?_ fun _ _ => ⟨state_checkBuffer buffer g, state_checkBuffer buffer h⟩
  cases buffer with
  | none => rfl
  | some b => simp only [Graph.checkBuffer, Action.result_require, hgh.scalars_eq]

theorem checkMode (mode : Option HessianMode) :
    Outcome.Coupled
      (fun _ s _ t => s = g ∧ t = h ∧ (mode.isSome = true → g.hessianEnabled = true))
      (Graph.checkMode mode g) (Graph.checkMode mode h) := by
  refine .of_result_eq ?_ fun _ hok => ⟨state_checkMode mode g, state_checkMode mode h,
    fun hsome => ?_⟩
  · cases mode with
    | none => rfl
    | some form =>
        simp only [Graph.checkMode, hgh.hessianEnabled_eq]
        split
        · cases form <;> rfl
        · rfl
  · obtain ⟨form, hform⟩ := Option.isSome_iff_exists.1 hsome
    exact (of_checkMode_eq_ok hok form hform).1

/-- Both graphs get a pool that serves them. -/
theorem refreshed :
    Outcome.Coupled
      (fun p s q t => s.Coupled t ∧ g.Alike s ∧ h.Alike t ∧ p.Serves s ∧ q.Serves t)
      (Graph.refreshed g) (Graph.refreshed h) := by
  have hevaluated {k : Graph α} (hk : k.Sound) : k.Evaluated (Graph.refreshed k).state :=
    (evaluatedWith_refreshed (serves_current hk).2).evaluated
  have hserves {k : Graph α} (hk : k.Sound) : k.current.Serves (Graph.refreshed k).state :=
    (serves_current hk).2.of_alike (hevaluated hk).toAlike
  exact .inr ⟨g.current, h.current, result_refreshed g, result_refreshed h,
    hgh.of_evaluated (hevaluated hgh.left) (hevaluated hgh.right), (hevaluated hgh.left).toAlike,
    (hevaluated hgh.right).toAlike, hserves hgh.left, hserves hgh.right⟩

/-- After a state was loaded, the graphs have one registry. -/
theorem load {x : Tensor α} {n : Nat} (hx : x.shape = [n]) :
    Outcome.Coupled (fun _ s _ t => s.Coupled t ∧ s.registry = t.registry ∧ g.Alike s ∧ h.Alike t)
      (onRegistry (Registry.load x.converted) g) (onRegistry (Registry.load x.converted) h) := by
  have hevaluated (k : Graph α) : k.Evaluated (onRegistry (Registry.load x.converted) k).state :=
    (evaluatedWith_load x.converted k).evaluated
  have hboth := hgh.of_evaluated (hevaluated g) (hevaluated h)
  rcases Registry.coupled_load hgh.left.registry hgh.right.registry hgh.vars_eq.symm hgh.whole
    hx with ⟨fault, hg, hh⟩ | ⟨b, c, hg, hh, heq⟩
  · exact .inl ⟨fault, hg, hh⟩
  · exact .inr ⟨b, c, hg, hh, hboth, heq, (hevaluated g).toAlike, (hevaluated h).toAlike⟩

/-- With one registry, the values add up to the same. -/
theorem sumValues (hregistry : g.registry = h.registry) {p q : Pool α} (hp : p.Serves g)
    (hq : q.Serves h) (m : Multipliers α) :
    (Graph.sumValues m p g).result = (Graph.sumValues m q h).result := by
  have hpos : 0 < p.scratch.length := hp.workers.symm ▸ hgh.left.workers
  have hscratch : List.Forall₂ (fun _ _ : Scratch α => True) p.scratch q.scratch :=
    List.forall₂_iff_zip.2 ⟨(hgh.pools_eq hp hq).1.symm, fun _ => trivial⟩
  have hrun : Crew.Coupled (fun _ _ => True) (fun _ _ => True)
      ((Crew.start g.terms p).run (valueTask m g.registry))
      ((Crew.start h.terms q).run (valueTask m h.registry)) := by
    rw [← hregistry]
    exact Crew.coupled_run (coupled_valueTask m g.registry) hpos (hp.workers.symm ▸ hp.chunks)
      (hq.workers.symm ▸ hq.chunks) (hgh.forall₂_terms.imp fun _ _ hbd => hbd.2.2) hscratch
  exact hrun.outcome_eq

/-- Before a derivative evaluation the accumulators are set to zero, and are then the same. -/
theorem cleared (hregistry : g.registry = h.registry) {p q : Pool α} (hp : p.Serves g)
    (hq : q.Serves h) :
    List.Forall₂ (Scratch.Coupled g.terms h.terms g.registry) p.cleared.scratch
      q.cleared.scratch := by
  refine List.forall₂_map_left_iff.2 (List.forall₂_map_right_iff.2 ?_)
  refine List.forall₂_iff_zip.2 ⟨(hgh.pools_eq hp hq).1.symm, fun {s t} hmem => ?_⟩
  obtain ⟨haccumulator, hrows⟩ := hp.buffers s (List.of_mem_zip hmem).1
  obtain ⟨haccumulator', hrows'⟩ := hq.buffers t (List.of_mem_zip hmem).2
  rw [← hregistry] at haccumulator' hrows'
  refine ⟨?_, ⟨?_, hrows⟩, ⟨?_, hrows'⟩⟩
  · rw [haccumulator, haccumulator']
  · simpa using haccumulator
  · simpa using haccumulator'

/-- With one registry, the workers leave the same accumulators, and the same blocks if these were
asked for, and they report the same. -/
theorem sumDerivatives (hregistry : g.registry = h.registry) {p q : Pool α} (hp : p.Serves g)
    (hq : q.Serves h) (m : Multipliers α) (x : List α) {withHessian : Bool}
    (henabled : withHessian = true → g.hessianEnabled = true) :
    Outcome.Coupled (fun a s b t => a = b ∧ (∀ kind, s.reducedIn kind = t.reducedIn kind) ∧
        (withHessian = true → ∀ form, s.collectHessian form = t.collectHessian form))
      (Graph.sumDerivatives m x withHessian p g) (Graph.sumDerivatives m x withHessian q h) := by
  have hpos : 0 < p.cleared.scratch.length := by
    simpa [Pool.cleared, hp.workers] using hgh.left.workers
  have hothers : ∀ d ∈ h.terms, d.Fits g.registry g.hessianEnabled := by
    rw [hregistry, ← hgh.hessianEnabled_eq]
    exact hgh.right.terms
  have hrun : Crew.Coupled (Scratch.Coupled g.terms h.terms g.registry) (Bound.Alike withHessian)
      ((Crew.start g.terms p.cleared).run (derivativeTask m g.registry x withHessian))
      ((Crew.start h.terms q.cleared).run (derivativeTask m h.registry x withHessian)) := by
    rw [← hregistry]
    exact Crew.coupled_run (coupled_derivativeTask m x hgh.left.terms hothers henabled) hpos
      (by simpa [Pool.cleared, hp.workers] using hp.chunks)
      (by simpa [Pool.cleared, hq.workers] using hq.chunks) hgh.forall₂_terms
      (hgh.cleared hregistry hp hq)
  refine .of_result_eq hrun.outcome_eq fun total hok =>
    ⟨rfl, fun kind => ?_, fun hhessian form => ?_⟩
  · have haccumulators := forall₂_map_eq_iff.1 (hrun.workers.imp fun v w hvw =>
      (hvw.scratch.1 : v.scratch.accumulator = w.scratch.accumulator))
    simp only [Graph.sumDerivatives, Action.state_run, reducedIn, Graph.scalars, List.map_map,
      Function.comp_def]
    rw [haccumulators, hregistry]
  · -- Blocks that were not asked for are left over from earlier evaluations, and may differ.
    subst hhessian
    have hterms : List.Forall₂ (· = ·) _ _ :=
      (hrun.terms_of_ok hok).imp fun _ _ halike => halike.eq
    rw [List.forall₂_eq_eq_eq] at hterms
    simp only [Graph.sumDerivatives, Action.state_run, collectHessian, Graph.scalars,
      Option.bind_some]
    rw [hterms, (hgh.pools_eq hp hq).2.1, hregistry]

end Coupled

/-! ## Evaluations -/

variable {g h : Graph α} (hgh : g.Coupled h)

include hgh

theorem Coupled.value_congr (m : Multipliers α) (x : Tensor α) :
    (value m x g).result = (value m x h).result := by
  have hcoupled : Outcome.Coupled (fun a _ b _ => a = b) (value m x g) (value m x h) := by
    refine .bind (hgh.checkState x) ?_
    rintro _ _ ⟨hs, ht, hx⟩
    rw [hs, ht]
    refine .bind hgh.refreshed ?_
    rintro p q ⟨hst, -, -, hp, hq⟩
    refine .bind (hst.load hx) ?_
    rintro _ _ ⟨hst, hregistry, hs, ht⟩
    exact .of_result_eq (hst.sumValues hregistry (hp.of_alike hs) (hq.of_alike ht) m)
      fun _ _ => rfl
  exact hcoupled.result_eq fun _ _ _ _ hab => hab

theorem Coupled.valueAtStorage_congr {memory : Memory α}
    (hheld : ∀ v ∈ g.registry.vars, (memory.read v.storage).length = v.userDimension)
    (m : Multipliers α) :
    (valueAtStorage m memory g).result = (valueAtStorage m memory h).result := by
  have hcoupled : Outcome.Coupled (fun a _ b _ => a = b) (valueAtStorage m memory g)
      (valueAtStorage m memory h) := by
    refine .bind hgh.refreshed ?_
    rintro p q ⟨hst, hs, ht, hp, hq⟩
    have hevaluated (k : Graph α) :
        k.Evaluated (onRegistry (Action.modify (Registry.loadStorage memory)) k).state :=
      (evaluatedWith_loadStorage memory k).evaluated
    have hloaded := hst.of_evaluated (hevaluated _) (hevaluated _)
    have hregistry := Registry.loadStorage_congr hst.left.registry hst.right.registry
      hst.vars_eq.symm (hs.vars ▸ hheld)
    refine .bind_of_result_eq rfl fun _ _ => ?_
    exact .of_result_eq (hloaded.sumValues hregistry (hp.of_alike (hevaluated _).toAlike)
      (hq.of_alike (hevaluated _).toAlike) m) fun _ _ => rfl
  exact hcoupled.result_eq fun _ _ _ _ hab => hab

/-- What the terms leave after a success is the same as far as anything is read off it. -/
theorem Coupled.evaluateTerms (m : Multipliers α) (x : Tensor α) (mode : Option HessianMode)
    (buffer : Option (Tensor α)) :
    Outcome.Coupled (fun a s b t => a = b ∧ (∀ kind, s.reducedIn kind = t.reducedIn kind) ∧
        mode.mapM s.collectHessian = mode.mapM t.collectHessian)
      (evaluateTerms m x mode buffer g) (evaluateTerms m x mode buffer h) := by
  refine .bind (hgh.checkState x) ?_
  rintro _ _ ⟨hs, ht, hx⟩
  rw [hs, ht]
  refine .bind (hgh.checkBuffer buffer) ?_
  rintro _ _ ⟨hs, ht⟩
  rw [hs, ht]
  refine .bind (hgh.checkMode mode) ?_
  rintro _ _ ⟨hs, ht, henabled⟩
  rw [hs, ht]
  refine .bind hgh.refreshed ?_
  rintro p q ⟨hst, hs, -, hp, hq⟩
  obtain ⟨_, _, hsupports⟩ := hst.pools_eq hp hq
  have hcounted (k : Graph α) :
      k.Evaluated { k with derivativeCount := k.derivativeCount + 1 } :=
    (evaluatedWith_count k).evaluated
  -- First the requirement that the form of Hessian is supported, then the counter.
  refine .bind_of_result_eq (by rw [hsupports]; rfl) fun _ _ => ?_
  refine .bind_of_result_eq rfl fun _ _ => ?_
  have hst := hst.of_evaluated (hcounted _) (hcounted _)
  refine .bind (hst.load hx) ?_
  rintro _ _ ⟨hst, hregistry, hs', ht'⟩
  refine (hst.sumDerivatives hregistry ?_ ?_ m x.entries fun hmode => ?_).mono ?_
  · exact (hp.of_alike (hcounted _).toAlike).of_alike hs'
  · exact (hq.of_alike (hcounted _).toAlike).of_alike ht'
  · rw [hs'.hessianEnabled]
    exact hs.hessianEnabled.trans (henabled hmode)
  · rintro a s b t ⟨hab, hreduced, hhessian⟩
    refine ⟨hab, hreduced, ?_⟩
    cases mode with
    | none => rfl
    | some form => rw [Option.mapM_some, Option.mapM_some, hhessian rfl form]

theorem Coupled.derivatives_congr (m : Multipliers α) (x : Tensor α) (mode : Option HessianMode)
    (buffer : Option (Tensor α)) :
    (derivatives m x mode (g, buffer)).result = (derivatives m x mode (h, buffer)).result := by
  rw [(derivatives_eq m x mode g buffer).2, (derivatives_eq m x mode h buffer).2]
  rcases hgh.evaluateTerms m x mode buffer with
    ⟨fault, hg, hh⟩ | ⟨a, b, hg, hh, rfl, hreduced, hhessian⟩
  · rw [hg, hh]
    rfl
  · rw [hg, hh]
    simp only [Except.bind, hreduced, hhessian]

theorem Coupled.pattern_congr : (pattern g).result = (pattern h).result := by
  have hcoupled : Outcome.Coupled (fun a _ b _ => a = b) (pattern g) (pattern h) := by
    refine .bind (R := fun a _ b _ => a = g ∧ b = h) (.inr ⟨g, h, rfl, rfl, rfl, rfl⟩) ?_
    rintro _ _ ⟨rfl, rfl⟩
    refine .bind_of_result_eq (by rw [hgh.hessianEnabled_eq]; rfl) fun _ _ => ?_
    refine .bind hgh.refreshed ?_
    rintro p q ⟨hst, -, -, hp, hq⟩
    obtain ⟨_, hcoordinates, hsupports⟩ := hst.pools_eq hp hq
    refine .bind_of_result_eq (by rw [hsupports]; rfl) fun _ _ => ?_
    rw [hcoordinates]
    exact .of_result_eq (by cases p.coordinates <;> rfl) fun _ _ => rfl
  exact hcoupled.result_eq fun _ _ _ _ hab => hab

end Graph

end Separable
