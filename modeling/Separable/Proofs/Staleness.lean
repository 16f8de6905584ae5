import Separable.Proofs.Hessian
import Separable.Proofs.Problem
import Separable.Proofs.Untouched

/-!
# Pools and a registry in other hands

The registry of a graph is also at hand for whoever holds the graph, and a variable that is added
there directly does not move the version of the graph. A pool that is in force then stays in force,
although it was built for fewer variables. `Shared` is about all graphs that arise when variables
are added in both ways; its index is the number of variables that the pool in force was built for,
and if no pool is in force, then it is the number of all variables.

Whatever is done to a graph, the pool that an evaluation works with has the extents of one that is
built for the current terms and workers and for the first `known` variables. These include all
variables of the terms, so the rows are large enough for every term. But they are all variables only
if none was added to the registry under a pool in force. Then a derivative evaluation gives a zero
gradient at the variables that no term uses; else it may add up accumulators of the wrong length.

## Main results

* `informed_of_change`, `Shared.informed`: what every change keeps, and what all graphs have.
* `pool_of_shared`: the pool is the one for the known variables, and what an evaluation makes of it
  if all are known.
* `gradient_stale`: a variable that was added under a pool in force.
-/

namespace Separable

open Scalar

variable {α : Type}

/-! ## The registry as it was -/

namespace Registry

/-- The registry as it was when it had `n` variables. -/
def first (n : Nat) (r : Registry α) : Registry α :=
  ⟨r.slots.take n, r.index.take n, ((r.vars.take n).map (·.solverDimension)).sum⟩

theorem vars_first (n : Nat) (r : Registry α) : (r.first n).vars = r.vars.take n :=
  List.map_take

theorem Laid.take {vars : List (Variable α)} {start stop : Nat} (h : Laid start vars stop)
    (n : Nat) :
    Laid start (vars.take n) (start + ((vars.take n).map (·.solverDimension)).sum) := by
  induction vars generalizing start n with
  | nil =>
      rw [List.take_nil]
      exact rfl
  | cons v rest ih =>
      cases n with
      | zero => exact rfl
      | succ n =>
          obtain ⟨rfl, hrest⟩ := h
          have hstop := ih hrest n
          rw [Variable.stop, Nat.add_assoc] at hstop
          exact ⟨rfl, hstop⟩

theorem Sound.first {r : Registry α} (hr : r.Sound) (n : Nat) : (r.first n).Sound where
  ids := by
    rw [vars_first, List.map_take, hr.ids, List.take_range, List.length_take]
  slices := by
    have hlaid := hr.slices.take n
    rw [Nat.zero_add] at hlaid
    rw [vars_first]
    exact hlaid
  fits := by
    rw [vars_first]
    exact fun v hv => hr.fits v (List.mem_of_mem_take hv)
  keys := by
    rw [vars_first, List.map_take]
    exact hr.keys.sublist (List.take_sublist _ _)
  index := by
    rw [vars_first, List.map_take, ← hr.index]
    rfl
  scratch := by
    rw [vars_first, List.map_take, ← hr.scratch, ← List.map_take]
    rfl

theorem Sound.first_all {r : Registry α} (hr : r.Sound) : r.first r.slots.length = r := by
  have hvars : (r.first r.slots.length).vars = r.vars := by
    rw [vars_first, ← length_vars, List.take_length]
  have hscalars := (hr.first r.slots.length).scalars_eq hr hvars
  have hindex := (hr.first r.slots.length).index_eq hr hvars
  have hslots : (r.first r.slots.length).slots = r.slots := List.take_length
  cases r
  rw [Registry.mk.injEq]
  exact ⟨hslots, hindex, hscalars⟩

theorem first_add [Backend α] {r : Registry α} (hr : r.Sound) {n : Nat} (hn : n ≤ r.slots.length)
    (s : Storage) (dimension : Option Int) (reparam : Option (Reparam α)) :
    (add s dimension reparam r).state.first n = r.first n := by
  cases hcheck : r.check s dimension reparam with
  | error fault => rw [add_of_check_error hcheck]
  | ok known =>
      cases known with
      | some id => rw [add_of_check_some hcheck]
      | none =>
          rw [add_of_check_none hcheck]
          have hvars : n ≤ r.vars.length := (length_vars r).symm ▸ hn
          have hindex : n ≤ r.index.length := by simpa [hr.index] using hvars
          rw [first, first, vars_push, hr.index_push hcheck, List.take_append_of_le_length hvars,
            List.take_append_of_le_length hindex]
          congr 1
          exact List.take_append_of_le_length hn

end Registry

/-! ## Pools up to what their buffers hold -/

section Extents

variable [Backend α]

/-- A pool without the entries of its buffers. -/
def Pool.extents (p : Pool α) :
    Nat × List (Nat × List Nat) × List (Nat × Nat) × Option Coordinates × Bool :=
  (p.version, p.scratch.map fun s => (s.accumulator.length, rowLengths s.rows), p.chunks,
    p.coordinates, p.supportsHessian)

/-- A pool that serves a graph has the extents of one that is built for it. -/
theorem Pool.Serves.extents_eq {p : Pool α} {g : Graph α} (hp : p.Serves g)
    (hversion : p.version = g.version) :
    p.extents =
      (Pool.build g.version g.workers g.hessianEnabled g.terms g.registry).extents := by
  have hbuilt := Graph.serves_build g
  have hscratch {q : Pool α} (hq : q.Serves g) :
      q.scratch.map (fun s => (s.accumulator.length, rowLengths s.rows)) =
        List.replicate g.workers (g.registry.scalars,
          List.replicate (Pool.largestArity g.terms) g.registry.largestDimension) := by
    refine List.eq_replicate_iff.2 ⟨by rw [List.length_map, hq.workers], fun extents hmem => ?_⟩
    obtain ⟨s, hs, rfl⟩ := List.mem_map.1 hmem
    rw [(hq.buffers s hs).accumulator, (hq.buffers s hs).rows]
  simp only [Pool.extents, hscratch hp, hscratch hbuilt, hversion, hp.chunks, hp.coordinates,
    hp.supportsHessian]
  rfl

end Extents

namespace Graph

/-! ## Changes -/

/-- Whether a pool is at hand that counts as up to date. -/
def inForce (g : Graph α) : Bool := g.pool.any fun p => p.version = g.version

/-- The graph as it was when it had `n` variables. -/
def knowing (n : Nat) (g : Graph α) : Graph α := { g with registry := g.registry.first n }

/-- The number of variables that the pool in force was built for, after a change that led to `g`;
the number before it was `known`. -/
def knownAfter (known : Nat) (g : Graph α) : Nat :=
  if g.inForce then known else g.registry.slots.length

section Changes

variable [Backend α]

/-- What can be done to a graph: variables and terms are added, variables also behind its back, the
number of workers is changed, and the graph is evaluated. What fails leads to the graph that it
leaves. -/
inductive Change (g : Graph α) : Graph α → Prop
  | addVariable (s : Storage) (dimension : Option Int) (reparam : Option (Reparam α)) :
      Change g (addVariable s dimension reparam g).state
  | register (s : Storage) (dimension : Option Int) (reparam : Option (Reparam α)) :
      Change g (onRegistry (Registry.add s dimension reparam) g).state
  | addTerm (s : Summand α) (arguments : List Ref) : Change g (addTerm s arguments g).state
  | setWorkers (count : Int) : Change g (setWorkers count g).state
  | value (m : Multipliers α) (x : Tensor α) : Change g (value m x g).state
  | valueAtStorage (m : Multipliers α) (memory : Memory α) :
      Change g (valueAtStorage m memory g).state
  | derivatives (m : Multipliers α) (x : Tensor α) (mode : Option HessianMode)
      (buffer : Option (Tensor α)) : Change g (derivatives m x mode (g, buffer)).state.1
  | pattern : Change g (pattern g).state

/-- The graphs that arise from an empty one by changes, each with the number of variables that the
pool in force was built for. -/
inductive Shared : (known : Nat) → Graph α → Prop
  | new {hessianEnabled : Bool} {count : Int} {g : Graph α}
      (h : Graph.new hessianEnabled count = .ok g) : Shared 0 g
  | change {known : Nat} {g h : Graph α} (hg : Shared known g) (hgh : g.Change h) :
      Shared (h.knownAfter known) h

end Changes

/-- What is true of a graph with a pool for its first `known` variables. -/
structure Informed [Backend α] (known : Nat) (g : Graph α) : Prop where
  registry : g.registry.Sound
  workers : 0 < g.workers
  le : known ≤ g.registry.slots.length
  terms : ∀ b ∈ g.terms, b.Fits (g.registry.first known) g.hessianEnabled
  versions : ∀ p, g.pool = some p → p.version ≤ g.version
  serves : ∀ p, g.pool = some p → p.version = g.version → p.Serves (g.knowing known)
  idle : g.inForce = false → known = g.registry.slots.length

theorem Alike.knowing {g h : Graph α} (hgh : g.Alike h) (n : Nat) :
    (g.knowing n).Alike (h.knowing n) where
  vars := by
    show (h.registry.first n).vars = (g.registry.first n).vars
    rw [Registry.vars_first, Registry.vars_first, hgh.vars]
  index := by
    show (h.registry.first n).index = (g.registry.first n).index
    rw [Registry.first, Registry.first, hgh.index]
  scalars := by
    show (h.registry.first n).scalars = (g.registry.first n).scalars
    rw [Registry.first, Registry.first, hgh.vars]
  scratch := by
    show (h.registry.slots.take n).map _ = (g.registry.slots.take n).map _
    rw [List.map_take, List.map_take, hgh.scratch]
  terms := hgh.terms
  version := hgh.version
  hessianEnabled := hgh.hessianEnabled
  workers := hgh.workers

variable [Backend α] {known : Nat} {g h : Graph α}

omit [Backend α] in
/-- A pool that is not in force is older than the graph. -/
theorem version_lt_of_idle (hidle : g.inForce = false)
    (hversions : ∀ p, g.pool = some p → p.version ≤ g.version) :
    ∀ p, g.pool = some p → p.version < g.version := by
  intro p hp
  have hne : p.version ≠ g.version := by simpa [inForce, hp] using hidle
  exact Nat.lt_of_le_of_ne (hversions p hp) hne

/-- Without a pool in force, what is known is what is registered. -/
theorem informed_of_idle (hregistry : g.registry.Sound) (hworkers : 0 < g.workers)
    (hterms : ∀ b ∈ g.terms, b.Fits g.registry g.hessianEnabled)
    (hversions : ∀ p, g.pool = some p → p.version < g.version) :
    Informed (g.knownAfter known) g := by
  have hidle : g.inForce = false := by
    rw [inForce]
    cases hpool : g.pool with
    | none => rfl
    | some p => simpa using Nat.ne_of_lt (hversions p hpool)
  have hknown : g.knownAfter known = g.registry.slots.length := by simp [knownAfter, hidle]
  rw [hknown]
  refine ⟨hregistry, hworkers, Nat.le_refl _, ?_, fun p hp => Nat.le_of_lt (hversions p hp),
    fun p hp hversion => ?_, fun _ => rfl⟩
  · rw [hregistry.first_all]
    exact hterms
  · have hlt := hversions p hp
    omega

namespace Informed

variable (hg : Informed known g)

include hg

theorem fits : ∀ b ∈ g.terms, b.Fits g.registry g.hessianEnabled := by
  intro b hb
  refine (hg.terms b hb).of_outline (fun v hv => ?_) rfl
  rw [Registry.vars_first] at hv
  exact List.mem_of_mem_take hv

theorem knownAfter_self : g.knownAfter known = known := by
  unfold knownAfter
  split
  · rfl
  · next hidle => exact (hg.idle (Bool.eq_false_iff.2 hidle)).symm

/-- The pool that an evaluation works with is one for the known variables. -/
theorem serves_current : g.current.Serves (g.knowing known) := by
  have hbuilt (hidle : g.inForce = false) :
      (Pool.build g.version g.workers g.hessianEnabled g.terms g.registry).Serves
        (g.knowing known) := by
    rw [knowing, hg.idle hidle, hg.registry.first_all]
    exact serves_build g
  unfold current
  rcases hpool : g.pool with _ | p
  · exact hbuilt (by simp [inForce, hpool])
  · dsimp only
    split
    · next hversion => exact hg.serves p hpool hversion
    · next hversion => exact hbuilt (by simp [inForce, hpool, hversion])

omit hg in
theorem of_eq (h : Informed known g) : Informed (g.knownAfter known) g := by
  rw [h.knownAfter_self]
  exact h

/-- The terms of before fit what registration makes of the registry. -/
theorem fits_add (s : Storage) (dimension : Option Int) (reparam : Option (Reparam α)) :
    ∀ b ∈ g.terms, b.Fits (Registry.add s dimension reparam g.registry).state
      g.hessianEnabled := by
  obtain ⟨more, hmore⟩ := Registry.exists_vars_add g.registry s dimension reparam
  intro b hb
  refine (hg.fits b hb).of_outline (fun v hv => ?_) rfl
  rw [hmore]
  exact List.mem_append_left _ hv

theorem addVariable (s : Storage) (dimension : Option Int) (reparam : Option (Reparam α)) :
    Informed ((Graph.addVariable s dimension reparam g).state.knownAfter known)
      (Graph.addVariable s dimension reparam g).state := by
  have hregistry := Registry.sound_add hg.registry s dimension reparam
  have hfits := hg.fits_add s dimension reparam
  have hversions (p : Pool α) (hp : g.pool = some p) : p.version < g.version + 1 :=
    Nat.lt_succ_of_le (hg.versions p hp)
  have hadded {r : Registry α} {id : Nat}
      (hadd : Registry.add s dimension reparam g.registry = ⟨r, [], .ok id⟩) :
      Informed ((Graph.addVariable s dimension reparam g).state.knownAfter known)
        (Graph.addVariable s dimension reparam g).state := by
    rw [hadd] at hregistry hfits
    rw [addVariable_of_ok hadd]
    exact informed_of_idle hregistry hg.workers hfits hversions
  cases hcheck : g.registry.check s dimension reparam with
  | error fault =>
      rw [addVariable_of_error (Registry.add_of_check_error hcheck)]
      exact hg.of_eq
  | ok id? =>
      cases id? with
      | some id => exact hadded (Registry.add_of_check_some hcheck)
      | none => exact hadded (Registry.add_of_check_none hcheck)

theorem register (s : Storage) (dimension : Option Int) (reparam : Option (Reparam α)) :
    Informed ((onRegistry (Registry.add s dimension reparam) g).state.knownAfter known)
      (onRegistry (Registry.add s dimension reparam) g).state := by
  have hregistry := Registry.sound_add hg.registry s dimension reparam
  have hforce : (onRegistry (Registry.add s dimension reparam) g).state.inForce = g.inForce := rfl
  cases hidle : g.inForce with
  | false =>
      exact informed_of_idle hregistry hg.workers (hg.fits_add s dimension reparam)
        (version_lt_of_idle hidle hg.versions)
  | true =>
      -- The version stands still, so the pool stays in force, and the new variable is not known.
      have hfirst := Registry.first_add hg.registry hg.le s dimension reparam
      obtain ⟨more, hmore⟩ := Registry.exists_vars_add g.registry s dimension reparam
      have hlength := congrArg List.length hmore
      rw [List.length_append, Registry.length_vars, Registry.length_vars] at hlength
      have hle : known ≤ (Registry.add s dimension reparam g.registry).state.slots.length := by
        have hle := hg.le
        omega
      rw [knownAfter, hforce, hidle, if_pos rfl]
      refine ⟨hregistry, hg.workers, hle, ?_, hg.versions, ?_, fun h => ?_⟩
      · intro b hb
        show b.Fits ((Registry.add s dimension reparam g.registry).state.first known) _
        rw [hfirst]
        exact hg.terms b hb
      · intro p hp hversion
        have hsame : (onRegistry (Registry.add s dimension reparam) g).state.knowing known =
            g.knowing known := congrArg (fun r => { g with registry := r }) hfirst
        rw [hsame]
        exact hg.serves p hp hversion
      · rw [hforce, hidle] at h
        cases h

theorem addTerm (s : Summand α) (arguments : List Ref) :
    Informed ((Graph.addTerm s arguments g).state.knownAfter known)
      (Graph.addTerm s arguments g).state := by
  rw [Graph.addTerm, Action.state_run]
  cases hbind : g.bind s arguments with
  | error fault => exact hg.of_eq
  | ok vars =>
      exact informed_of_idle hg.registry hg.workers (fits_push hg.fits hbind) fun p hp =>
        Nat.lt_succ_of_le (hg.versions p hp)

theorem setWorkers (count : Int) :
    Informed ((Graph.setWorkers count g).state.knownAfter known)
      (Graph.setWorkers count g).state := by
  rw [Graph.setWorkers, Action.state_run]
  cases hcount : checkedWorkers count with
  | error fault => exact hg.of_eq
  | ok workers =>
      exact informed_of_idle hg.registry (checkedWorkers_pos hcount) hg.fits (by simp)

/-- Evaluations with pools for the known variables leave such pools. -/
theorem of_evaluatedWith (hgh : g.EvaluatedWith (·.Serves (g.knowing known)) h) :
    Informed (h.knownAfter known) h := by
  have hregistry := hg.registry.of_eq hgh.vars hgh.index hgh.scalars hgh.scratch
  have hworkers : 0 < h.workers := hgh.workers.symm ▸ hg.workers
  have hversions : ∀ p, h.pool = some p → p.version ≤ h.version := by
    intro p hp
    rw [hgh.version]
    rcases hgh.pool p hp with hold | ⟨hversion, _⟩
    · exact hg.versions p hold
    · exact Nat.le_of_eq hversion
  cases hidle : h.inForce with
  | false =>
      exact informed_of_idle hregistry hworkers (hgh.toAlike.fits hg.fits)
        (version_lt_of_idle hidle hversions)
  | true =>
      have hknowing := hgh.toAlike.knowing known
      have hlength : h.registry.slots.length = g.registry.slots.length := by
        rw [← Registry.length_vars, hgh.vars, Registry.length_vars]
      rw [knownAfter, hidle, if_pos rfl]
      refine ⟨hregistry, hworkers, hlength.symm ▸ hg.le, hknowing.fits hg.terms, hversions, ?_,
        fun h => ?_⟩
      · intro p hp hversion
        rcases hgh.pool p hp with hold | ⟨_, hserves⟩
        · exact (hg.serves p hold (hversion.trans hgh.version)).of_alike hknowing
        · exact hserves.of_alike hknowing
      · rw [hidle] at h
        cases h

end Informed

/-- Every change of a graph keeps the pool in force one for the known variables. -/
theorem informed_of_change (hg : Informed known g) (hgh : g.Change h) :
    Informed (h.knownAfter known) h := by
  have hserves := hg.serves_current
  cases hgh with
  | addVariable s dimension reparam => exact hg.addVariable s dimension reparam
  | register s dimension reparam => exact hg.register s dimension reparam
  | addTerm s arguments => exact hg.addTerm s arguments
  | setWorkers count => exact hg.setWorkers count
  | value m x => exact hg.of_evaluatedWith (evaluatedWith_value hserves m x)
  | valueAtStorage m memory =>
      exact hg.of_evaluatedWith (evaluatedWith_valueAtStorage hserves m memory)
  | derivatives m x mode buffer =>
      rw [(derivatives_eq m x mode g buffer).1]
      exact hg.of_evaluatedWith (evaluatedWith_evaluateTerms hserves m x mode
        (fun r => serves_worked m r x.entries mode.isSome hserves) buffer)
  | pattern => exact hg.of_evaluatedWith (evaluatedWith_pattern hserves)

theorem informed_empty (hessianEnabled : Bool) {workers : Nat} (h : 0 < workers) :
    Informed 0 (empty hessianEnabled workers : Graph α) :=
  ⟨Registry.sound_empty, h, Nat.le_refl 0, by simp [empty], by simp [empty], by simp [empty],
    fun _ => rfl⟩

/-- Every graph that arises by changes has its pool for the known variables. -/
theorem Shared.informed (hg : Shared known g) : Informed known g := by
  induction hg with
  | @new hessianEnabled count g h =>
      rw [Graph.new] at h
      obtain ⟨workers, hcount, rfl⟩ := Action.of_map_eq_ok h
      exact informed_empty hessianEnabled (checkedWorkers_pos hcount)
  | change _ hgh ih => exact informed_of_change ih hgh

/-- A graph of which all variables are known is sound. -/
theorem Informed.sound (hg : Informed known g) (hall : known = g.registry.slots.length) :
    g.Sound := by
  subst hall
  have hserves := hg.serves
  rw [knowing, hg.registry.first_all] at hserves
  exact ⟨hg.registry, hg.fits, hg.workers, fun p hp => ⟨hg.versions p hp, hserves p hp⟩⟩

/-- The pool that an evaluation works with has the extents of one that is built for the known
variables, and room for every term. If all variables are known, then a derivative evaluation that
gets through its terms gives a gradient that is zero at every variable that no term uses, and a
square Hessian if one was asked for. -/
theorem pool_of_shared (hg : Shared known g) :
    (∃ p, (refreshed g).result = .ok p ∧
      p.extents = (Pool.build g.version g.workers g.hessianEnabled g.terms
        (g.registry.first known)).extents ∧
      ∀ s ∈ p.scratch, ∀ b ∈ g.terms, b.arity ≤ s.rows.length ∧
        ∀ v ∈ b.vars, ∀ row ∈ s.rows, v.userDimension ≤ row.length) ∧
    (known = g.registry.slots.length →
      g.registry.first known = g.registry ∧
      ∀ (m : Multipliers α) (x : List α) (mode : Option HessianMode) (buffer : Option (Tensor α))
        (value : α), (gradientKind buffer).refusingSums? = none →
        (gradientKind buffer).round ((0 : α) + 0) = 0 →
        (evaluateTerms m (.ofVector x) mode buffer g).result = .ok value →
        ∃ d, (derivatives m (.ofVector x) mode (g, buffer)).result = .ok d ∧ d.value = value ∧
          d.gradient.length = g.scalars ∧
          (∀ v ∈ g.registry.vars, (∀ b ∈ g.terms, v ∉ b.vars) →
            v.part d.gradient = zeros v.solverDimension) ∧
          d.hessian.isSome = mode.isSome ∧
          ∀ result, d.hessian = some result → result.IsSquare g.scalars) := by
  have hinformed := hg.informed
  have hserves := hinformed.serves_current
  refine ⟨⟨g.current, result_refreshed g, hserves.extents_eq (version_current g), ?_⟩, ?_⟩
  · intro s hs b hb
    have hrows := (hserves.buffers s hs).rows
    refine ⟨?_, fun v hv row hrow => ?_⟩
    · rw [length_of_rowLengths hrows]
      exact Pool.le_largestArity hb
    · rw [length_row_of_rowLengths hrows row hrow]
      exact Registry.le_largestDimension ((hinformed.terms b hb).vars v hv)
  · intro hall
    refine ⟨hall ▸ hinformed.registry.first_all, fun m x mode buffer value hkind hzero hvalue => ?_⟩
    exact derivatives_of_worked (hinformed.sound hall) hvalue hkind hzero

end Graph

/-! ### A variable that is added under a pool in force -/

/-- A graph of one variable and one term on it, after an evaluation. -/
def evaluatedOnce : Graph Float :=
  (Graph.derivatives Multipliers.none (.ofVector [1]) none
    ((Graph.addTerm (.plain (.squaredDistance [1] 1)) [.handle 0]
      (Graph.addVariable soleStorage none none (.empty true 1)).state).state, none)).state.1

/-- The same graph with a second variable, which no term uses and which was added to the
registry. -/
def behindItsBack : Graph Float :=
  (Graph.onRegistry (Registry.add otherStorage none none) evaluatedOnce).state

/-- The second variable. -/
def unusedVariable : Variable Float := ⟨1, otherStorage, 1, 1, 1, none⟩

/-- The variables of its terms. -/
theorem ids_behindItsBack :
    behindItsBack.terms.map (fun b => b.vars.map (·.id)) = [[0]] := by decide +kernel

theorem free_behindItsBack : ∀ b ∈ behindItsBack.terms, unusedVariable ∉ b.vars := by
  intro b hb hv
  have hids : b.vars.map (·.id) ∈ [[0]] := by
    rw [← ids_behindItsBack]
    exact List.mem_map_of_mem hb
  have hid : unusedVariable.id ∈ b.vars.map (·.id) := List.mem_map_of_mem hv
  rw [List.mem_singleton.1 hids] at hid
  cases List.mem_singleton.1 hid

theorem shared_behindItsBack : Graph.Shared 1 behindItsBack := by
  have hnew : Graph.Shared 0 (.empty true 1 : Graph Float) :=
    .new (show Graph.new true 1 = .ok (.empty true 1) from rfl)
  have hbuilt := ((hnew.change (.addVariable soleStorage none none)).change
    (.addTerm (.plain (.squaredDistance [1] 1)) [.handle 0])).change
      (.derivatives Multipliers.none (.ofVector [1]) none none)
  exact hbuilt.change (.register otherStorage none none)

/-- The gradient at the new variable is not zero: the one accumulator of one entry was added to both
entries of the gradient. -/
theorem gradient_stale :
    Graph.Shared 1 behindItsBack ∧ behindItsBack.registry.slots.length = 2 ∧
    unusedVariable ∈ behindItsBack.registry.vars ∧
    (∀ b ∈ behindItsBack.terms, unusedVariable ∉ b.vars) ∧
    (Graph.evaluateTerms Multipliers.none (.ofVector [3, 5]) none none behindItsBack).result =
      .ok 4 ∧
    ∃ d, (Graph.derivatives Multipliers.none (.ofVector [3, 5]) none
        (behindItsBack, none)).result = .ok d ∧
      d.gradient = [4, 4] ∧
      unusedVariable.part d.gradient ≠ zeros unusedVariable.solverDimension := by
  have hvalue : (Graph.evaluateTerms Multipliers.none (.ofVector [3, 5]) none none
      behindItsBack).result.toOption = some 4 := by decide +kernel
  have hgradient : (Graph.derivatives Multipliers.none (.ofVector [3, 5]) none
      (behindItsBack, none)).result.toOption.map (·.gradient) = some [4, 4] := by decide +kernel
  obtain ⟨d, hd, hentries⟩ := Option.map_eq_some_iff.1 hgradient
  refine ⟨shared_behindItsBack, rfl, List.mem_cons_of_mem _ (List.mem_singleton.2 rfl),
    free_behindItsBack, Action.of_toOption_eq_some hvalue, d, Action.of_toOption_eq_some hd,
    hentries, ?_⟩
  rw [hentries]
  decide +kernel

/-- After a change of the number of workers the pool is built again, and both variables are
known. -/
theorem gradient_renewed : ∃ d,
    (Graph.derivatives Multipliers.none (.ofVector [3, 5]) (some .sparse)
      ((Graph.setWorkers 2 behindItsBack).state, none)).result = .ok d ∧
    d.value = 4 ∧ unusedVariable.part d.gradient = [0] ∧
    ∀ result, d.hessian = some result → result.IsSquare 2 := by
  have hshared : Graph.Shared 2 (Graph.setWorkers 2 behindItsBack).state :=
    shared_behindItsBack.change (.setWorkers 2)
  have hzero : (0 : Float) + 0 = 0 := by decide +kernel
  have hvalue : (Graph.evaluateTerms Multipliers.none (.ofVector [3, 5]) (some .sparse) none
      (Graph.setWorkers 2 behindItsBack).state).result.toOption = some 4 := by decide +kernel
  obtain ⟨_, hall⟩ := Graph.pool_of_shared hshared
  obtain ⟨_, hderivatives⟩ := hall rfl
  obtain ⟨d, hd, hvalue, _, hunused, _, hsquare⟩ := hderivatives _ _ _ none _ rfl hzero
    (Action.of_toOption_eq_some hvalue)
  have hmem : unusedVariable ∈ (Graph.setWorkers 2 behindItsBack).state.registry.vars :=
    List.mem_cons_of_mem _ (List.mem_singleton.2 rfl)
  exact ⟨d, hd, hvalue, hunused _ hmem free_behindItsBack, hsquare⟩

end Separable
