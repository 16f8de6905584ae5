import Separable.Proofs.Iterations
import Separable.Proofs.NotANumber
import Separable.Proofs.Problem
import Separable.Solver.Scripted

/-!
# Rounds that are interrupted

A round first lets the solver take its turn, then observes the objective, then the constraints. Each
of the three can fail, and nothing of the outer state or of the multipliers has been touched before
all three are done; what has changed by then are the values of constraints that were seen before the
fault, and the number of the round in the results. So an interrupted solve is found with the outer
state and the multipliers with which the interrupted round has started, and its results account for
the rounds before it.

`Raises` says which of the three has failed. The solver fails as it likes, but a solver that lets
faults through (`Solver.LetsThrough`) fails with the first fault that it is given for an answer. An
observation fails exactly if a term fails: workers report the fault of one of the failing terms, and
wrap it up unless it is fatal.

## Main results

* `Program.result_of_letsThrough`: a fault in an answer comes out of a solver that lets it through.
* `Graph.valueAtStorage_of_failsAt`: a term that fails makes the observation fail.
* `Raises.round`: what an interrupted round leaves.
* `interrupted_of_solve`: a solve whose solver, objective or constraint fails.
-/

namespace Separable

open Scalar

/-! ## Faults in answers -/

section Answers

variable {α β σ : Type}

/-- The fault, if there is one. -/
def faultOf : Except Fault β → Option Fault
  | .error fault => some fault
  | .ok _ => none

theorem of_faultOf_eq_some {result : Except Fault β} {fault : Fault}
    (h : faultOf result = some fault) : result = .error fault := by
  cases result with
  | error first => exact congrArg Except.error (Option.some.inj h)
  | ok b => cases h

/-- The fault in an answer, if it is one. -/
def Query.fault? : (q : Query α) → q.Answer → Option Fault
  | .start => faultOf
  | .value _ => faultOf
  | .valueAtStorage => faultOf
  | .derivatives _ _ => faultOf
  | .store _ => faultOf
  | .write _ _ => faultOf
  | .scalars => fun _ => none
  | .penaltyParameter => fun _ => none
  | .log _ _ => fun _ => none

/-- Whether a solver's course ends with the first fault that it is given for an answer. -/
def Program.LetsThrough : Program α (σ × Results α × Except Fault Unit) → Prop
  | .done _ => True
  | .ask q next => ∀ a,
    match q.fault? a with
    | some fault => ∃ s results, next a = .done (s, results, .error fault)
    | none => (next a).LetsThrough

/-- Whether a solver fails with the first fault that it is given for an answer. -/
def Solver.LetsThrough (s : Solver α σ) : Prop :=
  ∀ state results, (s.solve state results).LetsThrough

variable [Backend α]

/-- The faults among the answers that a course is given, in their order. -/
def Program.faults (m : Multipliers α) : Program α β → View α → List Fault
  | .done _, _ => []
  | .ask q next, v =>
    let (v, _, a) := q.answer m v
    (q.fault? a).toList ++ (next a).faults m v

/-- A fault in an answer comes out of a course that lets it through. -/
theorem Program.result_of_letsThrough (m : Multipliers α)
    {p : Program α (σ × Results α × Except Fault Unit)} (hp : p.LetsThrough) {v : View α}
    {fault : Fault} (hfault : fault ∈ p.faults m v) : (p.run m v).2.2.2.2 = .error fault := by
  induction p generalizing v with
  | done b => cases hfault
  | ask q next ih =>
      have hnext := hp (q.answer m v).2.2
      simp only [faults, List.mem_append, Option.mem_toList] at hfault
      simp only [run]
      cases hanswer : q.fault? (q.answer m v).2.2 with
      | some first =>
          simp only [hanswer] at hnext
          obtain ⟨s, results, hdone⟩ := hnext
          rw [hanswer, hdone] at hfault
          rw [hdone]
          obtain rfl : first = fault := by simpa [faults] using hfault
          rfl
      | none =>
          simp only [hanswer] at hnext
          rw [hanswer] at hfault
          exact ih _ hnext (hfault.resolve_left (by simp))

/-- The faults that a solver is given for answers in a turn. -/
def Run.faultsOfTurn (s : Solver α σ) (q : Run α σ) : List Fault :=
  (s.solve q.solver Results.fresh).faults q.problem.multipliers ⟨q.problem.combined, q.memory⟩

end Answers

variable {α σ : Type} [Backend α]

/-! ## Terms that fail -/

namespace Graph

/-- Whether a term of the graph fails at the caller's storage with this fault. -/
def FailsAt (memory : Memory α) (g : Graph α) (cause : Fault) : Prop :=
  ∃ b ∈ g.terms, (b.summand.resolve Multipliers.none).value
    ((g.registry.loadStorage memory).arguments b) = .error cause

/-- A term that fails makes the observation fail, with the fault of a term that fails. -/
theorem valueAtStorage_of_failsAt {g : Graph α} (hg : g.Sound) {memory : Memory α} {cause : Fault}
    (h : g.FailsAt memory cause) : ∃ first, g.FailsAt memory first ∧
      (valueAtStorage Multipliers.none memory g).result = .error first.escaped := by
  obtain ⟨b, hb, hcause⟩ := h
  obtain ⟨d, hd, first, hfirst, houtcome⟩ := Crew.outcome_run_of_mem (pos_current hg)
    (chunks_current hg) (steady_valueTask Multipliers.none (g.registry.loadStorage memory) g.terms)
    (fun _ _ => trivial) hb hcause
  refine ⟨first, ⟨d, hd, hfirst⟩, ?_⟩
  rw [(valueAtStorage_eq Multipliers.none memory g).2]
  exact houtcome

/-- Without a term that fails there is no first one. -/
theorem firstFault_of_not_failsAt {g : Graph α} {memory : Memory α}
    (h : ∀ cause, ¬g.FailsAt memory cause) :
    Crew.firstFault (fun b => (b.summand.resolve Multipliers.none).value
      ((g.registry.loadStorage memory).arguments b)) g.terms = none := by
  refine (Crew.firstFault_eq_none_iff g.terms).2 fun b hb => ?_
  cases hvalue : (b.summand.resolve Multipliers.none).value
      ((g.registry.loadStorage memory).arguments b) with
  | error cause => exact absurd ⟨b, hb, hvalue⟩ (h cause)
  | ok value => exact ⟨value, rfl⟩

/-- An observation fails for no other reason. -/
theorem failsAt_of_valueAtStorage {g : Graph α} (hg : g.Sound) {memory : Memory α} {fault : Fault}
    (h : (valueAtStorage Multipliers.none memory g).result = .error fault) :
    ∃ cause, g.FailsAt memory cause ∧ fault = cause.escaped := by
  by_cases hfails : ∃ cause, g.FailsAt memory cause
  · obtain ⟨cause, hcause⟩ := hfails
    obtain ⟨first, hfirst, hresult⟩ := valueAtStorage_of_failsAt hg hcause
    exact ⟨first, hfirst, Except.error.inj (h.symm.trans hresult)⟩
  · have hok := firstFault_of_not_failsAt fun cause hcause => hfails ⟨cause, hcause⟩
    obtain ⟨total, htotal, _⟩ := valueAtStorage_of_ok Multipliers.none hg memory hok
    cases h.symm.trans htotal

end Graph

namespace Constraint

/-- The observation of constraints fails with the fault of one of them. -/
theorem of_evaluateAll_eq_error {memory : Memory α} {constraints : List (Constraint α)}
    {fault : Fault} (h : (evaluateAll memory constraints).result = .error fault) :
    ∃ c ∈ constraints,
      (Graph.valueAtStorage Multipliers.none memory c.graph).result = .error fault := by
  induction constraints with
  | nil => cases h
  | cons c rest ih =>
      cases hvalue : (Graph.valueAtStorage Multipliers.none memory c.graph).result with
      | error first =>
          simp only [evaluateAll, evaluate, hvalue] at h
          cases h
          exact ⟨c, List.mem_cons_self, hvalue⟩
      | ok value =>
          simp only [evaluateAll, evaluate, hvalue] at h
          cases hrest : (evaluateAll memory rest).result with
          | ok values =>
              rw [hrest] at h
              cases h
          | error later =>
              rw [hrest] at h
              cases h
              obtain ⟨d, hd, hfault⟩ := ih hrest
              exact ⟨d, List.mem_cons_of_mem c hd, hfault⟩

end Constraint

namespace Problem

/-- Whether all graphs that are observed are sound. -/
structure Observable (p : Problem α) : Prop where
  objective : p.objective.Sound
  constraints : ∀ c ∈ p.constraints, c.graph.Sound

theorem Observable.of_constraints {p : Problem α} (hp : p.Observable)
    {constraints : List (Constraint α)}
    (h : List.Forall₂ Constraint.Evaluated p.constraints constraints) :
    ∀ c ∈ constraints, c.graph.Sound := by
  have hsound := (List.forall₂_and_left _ _).2 ⟨hp.constraints, h⟩
  exact forall_right (hsound.imp fun c d ⟨hc, hcd⟩ => hc.of_evaluated hcd.graph)

theorem kept_observable (s : Solver α σ) : Run.Kept s fun r => r.problem.Observable where
  minimize := fun _ h => ⟨h.objective, h.constraints⟩
  objective := fun _ h =>
    ⟨h.objective.of_evaluated (Graph.evaluated_valueAtStorage h.objective _ _), h.constraints⟩
  constraints := fun r h => ⟨h.objective,
    h.of_constraints (Constraint.evaluated_evaluateAll r.memory h.constraints)⟩
  duals := fun r h => ⟨h.objective,
    h.of_constraints (Constraint.evaluated_moveDuals r.problem.outer.mu r.problem.constraints)⟩
  penalty := fun _ h => ⟨h.objective, h.constraints⟩
  outer := fun _ _ _ h => ⟨h.objective, h.constraints⟩
  results := fun _ _ h => h

/-- Whether a term of the objective or of a constraint fails at the caller's storage. -/
def FailsAt (memory : Memory α) (p : Problem α) (cause : Fault) : Prop :=
  p.objective.FailsAt memory cause ∨ ∃ c ∈ p.constraints, c.graph.FailsAt memory cause

end Problem

namespace Run

variable {s : Solver α σ} {q : Run α σ} {fault : Fault}

/-! ## One round -/

/-- Whether this fault interrupts a round: the solver fails with it, or the objective does at the
point that the solver has left, or then a constraint does. -/
inductive Raises (s : Solver α σ) (q : Run α σ) (fault : Fault) : Prop
  | solver (hfault : (minimize s q).result = .error fault)
  | objective {inner : Results α} (hinner : (minimize s q).result = .ok inner)
      (hfault : (Graph.valueAtStorage Multipliers.none (minimize s q).state.memory
        q.problem.objective).result = .error fault)
  | constraint {inner : Results α} {f : α} (hinner : (minimize s q).result = .ok inner)
      (hf : (Graph.valueAtStorage Multipliers.none (minimize s q).state.memory
        q.problem.objective).result = .ok f)
      (hfault : (Constraint.evaluateAll (minimize s q).state.memory
        q.problem.constraints).result = .error fault)

/-- What an interrupted round leaves as it was. -/
structure Interrupted (q last : Run α σ) : Prop where
  outer : last.problem.outer = q.problem.outer
  duals : last.problem.constraints.map (fun c => (c.name, c.dual)) =
    q.problem.constraints.map fun c => (c.name, c.dual)
  exit : last.results.exit = q.results.exit
  value : last.results.value = q.results.value
  evaluations : last.results.evaluations = q.results.evaluations

/-- An interrupted round fails, and leaves the outer state and the multipliers as they were. -/
theorem Raises.round (h : Raises s q fault) :
    (round s q).result = .error fault ∧ Interrupted q (round s q).state := by
  unfold Run.round
  cases h with
  | solver hfault =>
      rw [Action.result_bind_of_error hfault, Action.state_bind_of_error hfault]
      exact ⟨rfl, rfl, rfl, rfl, rfl, rfl⟩
  | objective hinner hfault =>
      have hobjective : (objectiveValue (minimize s q).state).result = .error fault := hfault
      rw [Action.result_bind_of_ok hinner, Action.state_bind_of_ok hinner,
        Action.result_bind_of_error hobjective, Action.state_bind_of_error hobjective]
      exact ⟨rfl, rfl, rfl, rfl, rfl, rfl⟩
  | @constraint inner f hinner hf hfault =>
      have hobjective : (objectiveValue (minimize s q).state).result = .ok f := hf
      rw [Action.result_bind_of_ok hinner, Action.state_bind_of_ok hinner,
        Action.result_bind_of_ok hobjective, Action.state_bind_of_ok hobjective,
        Action.result_bind_of_ok (Action.result_get _),
        Action.state_bind_of_ok (Action.result_get _), Action.state_get,
        Action.result_bind_of_ok (result_modifyResults _ _),
        Action.state_bind_of_ok (result_modifyResults _ _)]
      have hconstraints (number : Int) : (constraintValues (modifyResults
          (fun r => { r with iterations := number })
          (objectiveValue (minimize s q).state).state).state).result = .error fault := hfault
      rw [Action.result_bind_of_error (hconstraints _), Action.state_bind_of_error (hconstraints _)]
      refine ⟨rfl, rfl, ?_, rfl, rfl, rfl⟩
      exact Constraint.map_evaluateAll (fun c => (c.name, c.dual)) (fun _ _ => rfl) (fun _ _ => rfl)
        (minimize s q).state.memory q.problem.constraints

/-- A term that fails where the solver has left the storage interrupts the round. -/
theorem raises_of_failsAt {inner : Results α} (hq : q.problem.Observable)
    (hinner : (minimize s q).result = .ok inner) {cause : Fault}
    (hcause : q.problem.FailsAt (minimize s q).state.memory cause) :
    ∃ first, q.problem.FailsAt (minimize s q).state.memory first ∧ Raises s q first.escaped := by
  cases hf : (Graph.valueAtStorage Multipliers.none (minimize s q).state.memory
      q.problem.objective).result with
  | error fault =>
      obtain ⟨first, hfirst, rfl⟩ := Graph.failsAt_of_valueAtStorage hq.objective hf
      exact ⟨first, .inl hfirst, .objective hinner hf⟩
  | ok f =>
      cases hvalues : (Constraint.evaluateAll (minimize s q).state.memory
          q.problem.constraints).result with
      | error fault =>
          obtain ⟨c, hc, hfault⟩ := Constraint.of_evaluateAll_eq_error hvalues
          obtain ⟨first, hfirst, rfl⟩ :=
            Graph.failsAt_of_valueAtStorage (hq.constraints c hc) hfault
          exact ⟨first, .inr ⟨c, hc, hfirst⟩, .constraint hinner hf hvalues⟩
      | ok values =>
          rcases hcause with hcause | ⟨c, hc, hcause⟩
          · obtain ⟨_, _, hfault⟩ := Graph.valueAtStorage_of_failsAt hq.objective hcause
            cases hf.symm.trans hfault
          · obtain ⟨_, _, hfault⟩ := Graph.valueAtStorage_of_failsAt (hq.constraints c hc) hcause
            obtain ⟨value, hvalue⟩ := Constraint.valueAtStorage_of_evaluateAll hvalues c hc
            cases hvalue.symm.trans hfault

theorem raises_of_letsThrough (hs : s.LetsThrough) (hfault : fault ∈ faultsOfTurn s q) :
    Raises s q fault := by
  have hresult := Program.result_of_letsThrough q.problem.multipliers
    (hs q.solver Results.fresh) hfault
  refine .solver ?_
  unfold minimize
  exact congrArg (Except.map _) hresult

/-! ## The loop -/

/-- If the solver, the objective or a constraint fails in a round, then the solve fails with this
fault and says so, the outer state and the multipliers are those with which the round has started,
and results that were fresh account for the rounds before it. A solver that lets faults through
fails with every fault that it is given for an answer, and a term that fails where the solver has
left the storage makes the objective or a constraint fail. The power from which the accepted
violation starts has to be one that the arithmetic can give. -/
theorem interrupted_of_solve (s : Solver α σ) (r : Run α σ)
    (hvars : r.problem.combined.registry.vars ≠ [])
    (hpower : ∃ nu : α, power initialPenalty violationExponent = .ok nu) :
    ∃ turns last result, Loop s turns (restarted r) last result ∧
      (solve s r).state = noted last result ∧ (solve s r).result = result.map (fun _ => ()) ∧
      (∀ before q after fault, turns = before ++ q :: after → Raises s q fault →
        after = [] ∧ (solve s r).result = .error fault ∧
        (solve s r).state.results.exit = .internalError ∧
        (solve s r).state.problem.outer = q.problem.outer ∧
        (solve s r).state.problem.constraints.map (fun c => (c.name, c.dual)) =
          q.problem.constraints.map (fun c => (c.name, c.dual)) ∧
        (r.results = .fresh → ∃ seen : List (Results α × α),
          before.map (answers s) = seen.map (fun (inner, f) => (.ok inner, .ok f)) ∧
          (solve s r).state.results.value = seen.getLast?.map (·.2) ∧
          (solve s r).state.results.evaluations = (seen.map (·.1.evaluations)).sum)) ∧
      (s.LetsThrough → ∀ q ∈ turns, ∀ fault ∈ faultsOfTurn s q, Raises s q fault) ∧
      (r.problem.Observable → ∀ q ∈ turns, ∀ inner, (minimize s q).result = .ok inner →
        ∀ cause, q.problem.FailsAt (minimize s q).state.memory cause →
          ∃ first, q.problem.FailsAt (minimize s q).state.memory first ∧
            Raises s q first.escaped) := by
  obtain ⟨turns, last, result, hloop, _, _, hstate, hresult⟩ := loop_of_solve s hvars hpower
  refine ⟨turns, last, result, hloop, hstate, hresult, ?_, ?_, ?_⟩
  · rintro before q after fault rfl hraises
    obtain ⟨hrest, hexit, seen, hseen, hvalue, _, hevaluations⟩ := hloop.reached
    obtain ⟨hround, hleft⟩ := hraises.round
    -- The round fails, so the loop ends with it.
    obtain ⟨hturns, rfl, rfl⟩ := (Loop.failed hround).unique hrest
    rw [hstate, hresult]
    refine ⟨(List.cons.inj hturns).2, rfl, hleft.exit.trans hexit, hleft.outer, hleft.duals, ?_⟩
    intro hfresh
    refine ⟨seen, hseen, ?_, ?_⟩
    · have hnone : (restarted r).results.value = none := congrArg Results.value hfresh
      exact hleft.value.trans (hvalue.trans (by rw [hnone, Option.or_none]))
    · have hzero : (restarted r).results.evaluations = 0 := congrArg Results.evaluations hfresh
      exact hleft.evaluations.trans (hevaluations.trans (by rw [hzero, zero_add]))
  · exact fun hs q _ fault hfault => raises_of_letsThrough hs hfault
  · intro hr q hq inner hinner cause hcause
    have hrestarted : (restarted r).problem.Observable := by
      refine ⟨hr.objective, fun c hc => ?_⟩
      obtain ⟨d, hd, rfl⟩ := List.mem_map.1 hc
      exact hr.constraints d hd
    have hobservable := (hloop.of_kept (Problem.kept_observable s) hrestarted).1 q hq
    exact raises_of_failsAt hobservable hinner hcause

/-- A solver that leaves everything as it is in its first turn, and fails in its second. -/
def faltering : Solver OnePower Nat := .visiting [.ok none] ⟨.gradientTolerance, 3, some 1, false⟩

/-- A solve of the problem with a constraint that is violated everywhere. -/
def violated : Run OnePower Nat := ⟨(constant 1).problem, ⟨[[0]]⟩, 0, .fresh⟩

/-- The second round is interrupted. The penalty parameter that the first one has raised stands. -/
theorem interrupted_faltering :
    (solve faltering violated).result = .error Separable.Verdict.failure ∧
    (solve faltering violated).state.results.exit = .internalError ∧
    (solve faltering violated).state.problem.outer =
      ⟨1000.0, 0.7943282347242815, 1, some 1⟩ ∧
    (solve faltering violated).state.problem.constraints.map (fun c => (c.name, c.dual)) =
      [("c", 0)] ∧
    (solve faltering violated).state.results.value = some 1 ∧
    (solve faltering violated).state.results.evaluations = 3 := by
  have hvars : violated.problem.combined.registry.vars ≠ [] := List.cons_ne_nil _ _
  have hpower : power (initialPenalty : OnePower) violationExponent = .ok 0.7943282347242815 :=
    Action.of_toOption_eq_some (by decide +kernel)
  have hfirst : (round faltering (restarted violated)).result = .ok none :=
    Action.of_toOption_eq_some (by decide +kernel)
  have hlimit : ¬ (round faltering (restarted violated)).state.Exhausted := by
    unfold Exhausted
    decide +kernel
  have hraises : Raises faltering (round faltering (restarted violated)).state
      Separable.Verdict.failure := .solver (of_faultOf_eq_some (by decide +kernel))
  have hloop := Loop.again hfirst hlimit (.failed hraises.round.1)
  obtain ⟨turns, last, result, hturns, _, _, hinterrupted, _⟩ :=
    interrupted_of_solve faltering violated hvars ⟨_, hpower⟩
  obtain ⟨rfl, rfl, rfl⟩ := hloop.unique hturns
  obtain ⟨_, hresult, hexit, houter, hduals, hresults⟩ :=
    hinterrupted [restarted violated] _ [] _ rfl hraises
  obtain ⟨seen, hseen, hvalue, hevaluations⟩ := hresults rfl
  have hanswers : answers faltering (restarted violated) =
      (.ok { Results.fresh with exit := .gradientTolerance, evaluations := 3 }, .ok 1) :=
    Prod.ext rfl (Action.of_toOption_eq_some (by decide +kernel))
  have hlength : seen.length = 1 := by simpa using congrArg List.length hseen.symm
  obtain ⟨⟨inner, f⟩, rfl⟩ := List.length_eq_one_iff.1 hlength
  rw [List.map_singleton, List.map_singleton, hanswers] at hseen
  cases hseen
  exact ⟨hresult, hexit, houter.trans rfl, hduals.trans rfl, hvalue, hevaluations⟩

end Run

end Separable
