import Separable.Proofs.Failure
import Separable.Proofs.InStep
import Separable.Workspace

/-!
# Tests for feasibility

A test for feasibility observes every constraint, also those after the first violation, and all of
them remember what was seen. Nothing else changes: an observation reads the storages, and the test
has no say over the multipliers and over the outer state.

What the test asks of each value is not whether it is at most the threshold, but whether the
threshold is below it. For numbers this is the same question, infinities included. A value that is
no number is not above anything, so the test lets it pass.

Any graph of the problem may have been changed directly before, those of the constraints included;
all that is asked of these is that they arise by changes.

## Main results

* `Arises.exists_valueAtStorage`: an observation succeeds if no term fails.
* `Exposed.arising`: the graphs of the constraints arise in every problem that does.
* `feasible_of_values`: what a test for feasibility says and leaves.
* `feasible_passed_over`: a value that is no number passes.
-/

namespace Separable

open Scalar

section Arising

variable {α : Type} [Backend α]

/-! ## Graphs that arise -/

namespace Graph

variable {g h : Graph α}

/-- Whether a graph arises from an empty one by changes. -/
def Arises (g : Graph α) : Prop := ∃ known, Shared known g

theorem arises_empty {workers : Nat} (hworkers : 0 < workers) :
    (empty false workers : Graph α).Arises := by
  have hcount : ¬(workers : Int) < 1 := by omega
  have hnew : Graph.new false workers = .ok (empty false workers : Graph α) := by
    simp [Graph.new, checkedWorkers, hcount, Except.map]
  exact ⟨0, .new hnew⟩

theorem Arises.change (hg : g.Arises) (hgh : g.Change h) : h.Arises := by
  obtain ⟨known, hknown⟩ := hg
  exact ⟨_, hknown.change hgh⟩

/-- If no term fails at the caller's storage, then there is a value. -/
theorem Arises.exists_valueAtStorage (hg : g.Arises) {memory : Memory α}
    (h : ∀ cause, ¬g.FailsAt memory cause) :
    ∃ value, (valueAtStorage Multipliers.none memory g).result = .ok value := by
  obtain ⟨known, hknown⟩ := hg
  -- Terms are dealt out by their number, so it does not matter which variables are known.
  have hserves := hknown.informed.serves_current
  have hpos : 0 < g.current.scratch.length := hserves.workers.symm ▸ hknown.informed.workers
  have hchunks : g.current.chunks = Partition.chunks g.terms.length g.current.scratch.length :=
    hserves.workers.symm ▸ hserves.chunks
  have hrun := Crew.run_of_ok hpos hchunks
    (steady_valueTask Multipliers.none (g.registry.loadStorage memory) g.terms)
    (fun _ _ => trivial) (firstFault_of_not_failsAt h)
  exact ⟨_, (valueAtStorage_eq Multipliers.none memory g).2.trans hrun.2.2⟩

end Graph

/-! ## The constraints of a problem -/

namespace Constraint

/-- The graph of a constraint arises by the addition of its variables and of its term. -/
theorem arises_graphOf {workers : Nat} (hworkers : 0 < workers) {t : Term α}
    {vars : List (Variable α)} {g : Graph α} (h : graphOf workers t vars = .ok g) : g.Arises := by
  have hvariable (v : Variable α) : Action.Keeps Graph.Arises
      (Graph.addVariable v.storage (some (v.userDimension : Int)) v.reparam) :=
    fun _ hg => hg.change (.addVariable _ _ _)
  have hbuilt : Action.Keeps Graph.Arises (do
      vars.forM fun v => do
        let _ ← Graph.addVariable v.storage (some (v.userDimension : Int)) v.reparam
      Graph.addTerm (.plain t) (vars.map fun v => .storage v.storage)) := by
    refine .bind (.forM fun v _ => ?_) fun _ _ hg => hg.change (.addTerm _ _)
    exact .bind (hvariable v) fun _ => .of_state_eq fun _ => rfl
  obtain ⟨_, _, rfl⟩ := Action.of_map_eq_ok h
  exact hbuilt _ (Graph.arises_empty hworkers)

theorem arises_evaluate {c : Constraint α} (h : c.graph.Arises) (memory : Memory α) :
    (c.evaluate memory).state.graph.Arises := by
  have hseen := h.change (.valueAtStorage Multipliers.none memory)
  unfold evaluate
  dsimp only
  split <;> exact hseen

theorem arises_evaluateAll (memory : Memory α) {constraints : List (Constraint α)}
    (h : ∀ c ∈ constraints, c.graph.Arises) :
    ∀ d ∈ (evaluateAll memory constraints).state, d.graph.Arises :=
  forall_right (forall₂_evaluateAll_of memory h fun c hc => arises_evaluate (h c hc) memory)

end Constraint

namespace Problem

/-- Whether the graphs of all constraints arise, and there are workers for further ones. -/
structure Arising (p : Problem α) : Prop where
  workers : 0 < p.workers
  constraints : ∀ c ∈ p.constraints, c.graph.Arises

/-- Constraints with the same graphs can take the place of those that are there. -/
theorem Arising.of_map_eq {p : Problem α} (hp : p.Arising) {constraints : List (Constraint α)}
    (h : constraints.map (·.graph) = p.constraints.map (·.graph)) :
    Arising { p with constraints := constraints } := by
  refine ⟨hp.workers, fun c hc => ?_⟩
  obtain ⟨d, hd, hgraph⟩ := List.mem_map.1 (h ▸ List.mem_map_of_mem hc)
  rw [← hgraph]
  exact hp.constraints d hd

theorem kept_arising {σ : Type} (s : Solver α σ) :
    Run.Kept s fun r => r.problem.Arising where
  minimize := fun _ h => ⟨h.workers, h.constraints⟩
  objective := fun _ h => ⟨h.workers, h.constraints⟩
  constraints := fun r h => ⟨h.workers, Constraint.arises_evaluateAll r.memory h.constraints⟩
  duals := fun r h => h.of_map_eq
    (Constraint.map_moveDuals (·.graph) (fun _ _ => rfl) r.problem.outer.mu r.problem.constraints)
  penalty := fun _ h => ⟨h.workers, h.constraints⟩
  outer := fun _ _ _ h => ⟨h.workers, h.constraints⟩
  results := fun _ _ h => h

theorem keeps_arising_reset {σ : Type} :
    Action.Keeps (fun r : Run α σ => r.problem.Arising) Run.reset := by
  have houter (f : OuterState α → OuterState α) :
      Action.Keeps (fun r : Run α σ => r.problem.Arising) (Run.modifyOuter f) :=
    fun _ h => ⟨h.workers, h.constraints⟩
  refine .bind (houter _) fun _ => .bind (.of_state_eq fun _ => rfl) fun nu => ?_
  refine .bind (houter _) fun _ r h => h.of_map_eq ?_
  show (r.problem.constraints.map fun c => { c with dual := 0 }).map (·.graph) = _
  rw [List.map_map]
  rfl

theorem keeps_arising_setDual (name : String) (dual : α) :
    Action.Keeps Arising (setDual name dual) := by
  intro p hp
  unfold setDual onConstraint
  split
  · exact hp
  · next c hc =>
    refine ⟨hp.workers, List.forall_mem_map.2 fun d hd => ?_⟩
    split
    · exact hp.constraints c (List.mem_of_find?_eq_some hc)
    · exact hp.constraints d hd

theorem keeps_arising_setMultipliers (mu : Option (Supplied α))
    (duals : List (String × Supplied α)) : Action.Keeps Arising (setMultipliers mu duals) := by
  refine .bind ?_ fun _ => .forM fun dual _ => ?_
  · cases mu with
    | none => exact .of_state_eq fun _ => rfl
    | some mu =>
        exact .bind (.of_state_eq fun _ => rfl) fun _ _ hp => ⟨hp.workers, hp.constraints⟩
  · exact .bind (.of_state_eq fun _ => rfl) (keeps_arising_setDual dual.1)

theorem keeps_arising_addConstraint (name : String) (t : Term α) (arguments : List Ref) :
    Action.Keeps Arising (addConstraint name t arguments) := by
  intro p hp
  have hcombined (g : Graph α) : Arising { p with combined := g } := ⟨hp.workers, hp.constraints⟩
  refine Action.state_bind (fun _ _ => hp) fun q hq => ?_
  cases hq
  refine Action.state_bind (fun _ _ => hp) fun _ _ => ?_
  refine Action.state_bind (fun _ _ => hp) fun vars _ => ?_
  refine Action.state_bind (fun _ _ => hp) fun g hg => ?_
  refine Action.state_bind (fun _ _ => hcombined _) fun _ _ => ⟨hp.workers, fun c hc => ?_⟩
  rcases List.mem_append.1 hc with hc | hc
  · exact hp.constraints c hc
  · rw [List.mem_singleton.1 hc]
    exact Constraint.arises_graphOf hp.workers hg

theorem keeps_arising_perform (e : Extension α) : Action.Keeps Arising e.perform := by
  have hobjective {β : Type} (x : Action (Graph α) α β) : Action.Keeps Arising (onObjective x) :=
    fun _ hp => ⟨hp.workers, hp.constraints⟩
  have hcombined {β : Type} (x : Action (Graph α) α β) : Action.Keeps Arising (onCombined x) :=
    fun _ hp => ⟨hp.workers, hp.constraints⟩
  cases e with
  | register s dimension reparam =>
      refine .bind (.bind (hobjective _) fun id => ?_) fun _ => .of_state_eq fun _ => rfl
      exact .bind (hcombined _) fun _ => .of_state_eq fun _ => rfl
  | add t arguments =>
      refine .bind (.of_state_eq fun _ => rfl) fun _ => ?_
      refine .bind (.of_state_eq fun _ => rfl) fun vars => ?_
      exact .bind (hobjective _) fun _ => .bind (hcombined _) fun _ => .of_state_eq fun _ => rfl
  | constrain name t arguments =>
      exact .bind (keeps_arising_addConstraint name t arguments) fun _ => .of_state_eq fun _ => rfl

theorem keeps_arising_isFeasible (memory : Memory α) :
    Action.Keeps Arising (isFeasible memory) :=
  .bind (fun _ hp => ⟨hp.workers, Constraint.arises_evaluateAll memory hp.constraints⟩) fun _ =>
    .of_state_eq fun _ => rfl

/-- In every problem that arises the graphs of the constraints do, however the other graphs were
changed. -/
theorem Exposed.arising {p : Problem α} (hp : p.Exposed) : p.Arising := by
  induction hp with
  | new h =>
      obtain ⟨count, hcount, rfl⟩ := Action.of_map_eq_ok h
      exact ⟨Graph.checkedWorkers_pos hcount, by simp⟩
  | extend _ e ih => exact keeps_arising_perform e _ ih
  | setMultipliers _ mu duals ih => exact keeps_arising_setMultipliers mu duals _ ih
  | isFeasible _ memory ih => exact keeps_arising_isFeasible memory _ ih
  | solve _ s memory solver results ih =>
      exact (kept_arising s).keeps_solve keeps_arising_reset ⟨_, memory, solver, results⟩ ih
  | objective _ _ ih => exact ⟨ih.workers, ih.constraints⟩
  | combined _ _ ih => exact ⟨ih.workers, ih.constraints⟩

end Problem

end Arising

/-! ## The test -/

/-- What a number is not below is at most that number, or no number. -/
theorem Doubles.not_lt_iff {pow : Float → Float → Float} {x y : Doubles pow}
    (hx : x.isNaN = false) : lt x y = false ↔ le y x = true ∨ y.isNaN = true := by
  rw [← Bool.not_eq_true, lt_iff, le_iff]
  exact Double.not_lt_iff hx

section Test

variable {α : Type} [Backend α]

/-- Whether `d` is the constraint `c` after an observation of the storages: it remembers its value
there, and has it still. -/
structure Constraint.SeenAt (memory : Memory α) (c d : Constraint α) : Prop where
  name : d.name = c.name
  dual : d.dual = c.dual
  value : (Graph.valueAtStorage Multipliers.none memory c.graph).result = .ok d.value
  again : (Graph.valueAtStorage Multipliers.none memory d.graph).result = .ok d.value

/-- A test of constraints of which no term fails sees them all. -/
theorem Problem.isFeasible_of_arises {p : Problem α} {memory : Memory α}
    (harises : ∀ c ∈ p.constraints, c.graph.Arises)
    (hterms : ∀ c ∈ p.constraints, ∀ cause, ¬c.graph.FailsAt memory cause) :
    ∃ constraints, List.Forall₂ (Constraint.SeenAt memory) p.constraints constraints ∧
      (isFeasible memory p).state = { p with constraints := constraints } ∧
      (isFeasible memory p).result =
        .ok (constraints.all fun d => !lt feasibilityThreshold d.value) := by
  have hsome : ∀ c ∈ p.constraints, ∃ value,
      (Graph.valueAtStorage Multipliers.none memory c.graph).result = .ok value :=
    fun c hc => (harises c hc).exists_valueAtStorage (hterms c hc)
  have : Nonempty α := ⟨0⟩
  choose! value hvalue using hsome
  obtain ⟨hstate, hresult⟩ := Constraint.evaluateAll_of_ok hvalue
  have hseen : (onConstraints (Constraint.evaluateAll memory) p).result =
      .ok (p.constraints.map value) := hresult
  refine ⟨(Constraint.evaluateAll memory p.constraints).state, ?_, ?_, ?_⟩
  · rw [hstate, List.forall₂_map_right_iff]
    refine List.forall₂_same.2 fun c hc => ?_
    exact ⟨rfl, rfl, hvalue c hc, (Graph.valueAtStorage_again _ _ _).trans (hvalue c hc)⟩
  · rw [isFeasible, Action.state_bind_of_ok hseen]
    rfl
  · rw [isFeasible, Action.result_bind_of_ok hseen, hstate]
    simp [Pure.pure, Action.pure, Function.comp_def]

end Test

/-! ## Two constants -/

/-- A constraint whose term is a constant. -/
def Constraint.constant (name : String) (v : Run.OnePower) : Constraint Run.OnePower :=
  ⟨name, { Graph.empty false 1 with terms := [⟨.plain (.constant v), [], []⟩], version := 1 }, 0, 0⟩

namespace Problem

/-- A problem with two such constraints and nothing else. -/
def constants (first second : Run.OnePower) : Problem Run.OnePower :=
  ((Extension.constrain "d" (.constant second) []).perform
    ((Extension.constrain "c" (.constant first) []).perform
      ⟨.standard, 1, .empty false 1, .empty false 1, [], .fresh⟩).state).state

theorem exposed_constants (first second : Run.OnePower) : (constants first second).Exposed :=
  .extend (.extend (.new (show Problem.new .standard 1 = .ok _ from rfl)) _) _

theorem constraints_constants (first second : Run.OnePower) :
    (constants first second).constraints = [.constant "c" first, .constant "d" second] := rfl

theorem not_failsAt_constants (first second : Run.OnePower) (memory : Memory Run.OnePower) :
    ∀ c ∈ (constants first second).constraints, ∀ cause, ¬c.graph.FailsAt memory cause := by
  have hconstant (name : String) (v : Run.OnePower) (cause : Fault) :
      ¬(Constraint.constant name v).graph.FailsAt memory cause := by
    rintro ⟨b, hb, hfault⟩
    rw [List.mem_singleton.1 hb] at hfault
    cases hfault
  rw [constraints_constants]
  simp [hconstant]

end Problem

/-! ## The test in a workspace -/

namespace Workspace

variable {pow : Float → Float → Float}

/-- A workspace with a problem of two constants. -/
def ofConstants (first second : Run.OnePower) : Workspace Run.OnePower :=
  empty.putObject "p" (.problem (.constants first second))

/-- A test for feasibility during which no term of a constraint fails has an answer. Whatever the
answer is, every constraint remembers its value at the storages, and neither the storages nor
anything else of the problem has changed. The answer is that the problem is feasible exactly if
every value is at most the threshold or no number; so it is the right one if all are numbers. -/
theorem feasible_of_values {w : Workspace (Doubles pow)} {name : String}
    {p : Problem (Doubles pow)} (hp : w.problem? name = some p)
    (harises : ∀ c ∈ p.constraints, c.graph.Arises)
    (hterms : ∀ c ∈ p.constraints, ∀ cause, ¬c.graph.FailsAt w.memory cause) :
    ∃ feasible constraints,
      (onProblem name Problem.isFeasible w).result = .ok feasible ∧
      (onProblem name Problem.isFeasible w).state =
        w.putObject name (.problem { p with constraints := constraints }) ∧
      (onProblem name Problem.isFeasible w).state.memory = w.memory ∧
      List.Forall₂ (Constraint.SeenAt w.memory) p.constraints constraints ∧
      (feasible = true ↔ ∀ d ∈ constraints, le d.value 1e-12 = true ∨ d.value.isNaN = true) ∧
      ((∀ d ∈ constraints, d.value.isNaN = false) →
        (feasible = true ↔ ∀ d ∈ constraints, le d.value 1e-12 = true)) := by
  obtain ⟨constraints, hseen, hstate, hresult⟩ := Problem.isFeasible_of_arises harises hterms
  have hanswer : (constraints.all fun d => !lt Problem.feasibilityThreshold d.value) = true ↔
      ∀ d ∈ constraints, le d.value 1e-12 = true ∨ d.value.isNaN = true := by
    rw [List.all_eq_true]
    refine forall₂_congr fun d _ => ?_
    rw [Bool.not_eq_true']
    exact Doubles.not_lt_iff (show Float.isNaN 1e-12 = false by decide +kernel)
  refine ⟨_, constraints, ?_, ?_, ?_, hseen, hanswer, fun hnumbers => ?_⟩
  · simp only [onProblem, hp, hresult]
  · simp only [onProblem, hp, hstate]
  · simp only [onProblem, hp]
    rfl
  · rw [hanswer]
    refine forall₂_congr fun d hd => ?_
    simp [hnumbers d hd]

/-- The second constraint is seen although the first is violated. -/
theorem feasible_violated : ∃ constraints,
    (onProblem "p" Problem.isFeasible (ofConstants 1 (-1))).result = .ok false ∧
    (onProblem "p" Problem.isFeasible (ofConstants 1 (-1))).state =
      (ofConstants 1 (-1)).putObject "p"
        (.problem { Problem.constants 1 (-1) with constraints := constraints }) ∧
    List.Forall₂ (Constraint.SeenAt ⟨[]⟩) (Problem.constants 1 (-1)).constraints constraints ∧
    ¬∀ d ∈ constraints, le d.value 1e-12 = true ∨ d.value.isNaN = true := by
  have hresult : (onProblem "p" Problem.isFeasible (ofConstants 1 (-1))).result = .ok false :=
    Action.of_toOption_eq_some (by decide +kernel)
  obtain ⟨feasible, constraints, hfeasible, hstate, _, hseen, hanswer, _⟩ :=
    feasible_of_values
      (show (ofConstants 1 (-1)).problem? "p" = some (Problem.constants 1 (-1)) from rfl)
      (Problem.exposed_constants 1 (-1)).arising.constraints
      (Problem.not_failsAt_constants 1 (-1) _)
  cases hresult.symm.trans hfeasible
  exact ⟨constraints, hresult, hstate, hseen, fun h => Bool.false_ne_true (hanswer.2 h)⟩

/-- A value that is no number passes: the test calls a problem feasible, although a value is not at
most the threshold. -/
theorem feasible_passed_over :
    (Problem.constants (0 / 0) (-1)).Exposed ∧
    (∀ c ∈ (Problem.constants (0 / 0) (-1)).constraints, ∀ cause, ¬c.graph.FailsAt ⟨[]⟩ cause) ∧
    (onProblem "p" Problem.isFeasible (ofConstants (0 / 0) (-1))).result = .ok true ∧
    ∃ c ∈ (Problem.constants (0 / 0) (-1)).constraints, ∃ value,
      (Graph.valueAtStorage Multipliers.none ⟨[]⟩ c.graph).result = .ok value ∧
        value.isNaN = true ∧ le value 1e-12 = false := by
  refine ⟨Problem.exposed_constants _ _, Problem.not_failsAt_constants _ _ _,
    Action.of_toOption_eq_some (by decide +kernel), .constant "c" (0 / 0),
    List.mem_cons_self, 0 / 0, ?_, by decide +kernel, by decide +kernel⟩
  exact Action.of_toOption_eq_some (by decide +kernel)

end Workspace

end Separable
