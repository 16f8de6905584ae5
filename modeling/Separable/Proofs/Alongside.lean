import Separable.Proofs.Lockstep

/-!
# Solves alongside each other

The loop reads little of what is reported to it. Of the results of a turn it takes the number of
evaluations and nothing else: the exit condition that a solver reports is written to the log. And it
only writes to its own results: nothing that it does depends on what they hold.

So two solves stay alongside each other, with the same problem, the same storages and the same inner
state of the solver, if their solvers do the same in every turn and report the same number of
evaluations (`Solver.Like`). Their results stay related by any relation that respects what is
entered in them (`Results.Carried`): the exit condition, the number of a round, and the value of the
objective together with the evaluations. The log lines are left out of the comparison.

## Main results

* `Solver.like_reporting`: a solver that reports another exit condition.
* `Beside.lockstep`: two solves in progress go through every step alike.
* `alongside_solve`: two whole solves.
-/

namespace Separable

open Scalar

variable {α σ : Type}

/-! ## Solvers that do the same -/

namespace Solver

/-- The solver that does the same as another one and then always reports this exit condition. -/
def reporting (exit : ExitCondition) (s : Solver α σ) : Solver α σ where
  takesLines := s.takesLines
  solve := fun state results =>
    (s.solve state results).bind fun (state, results, outcome) =>
      .done (state, { results with exit := exit }, outcome)

variable [Backend α]

/-- A turn of a solver without its log lines: what it leaves, its inner state, what it reports, and
whether it has failed. -/
def turn (s : Solver α σ) (state : σ) (m : Multipliers α) (v : View α) :
    View α × σ × Results α × Except Fault Unit :=
  (((s.solve state Results.fresh).run m v).1, ((s.solve state Results.fresh).run m v).2.2)

/-- Whether two solvers do the same in every turn, and report the same number of evaluations if the
turn does not fail. -/
structure Like (s t : Solver α σ) : Prop where
  view : ∀ state m v, (t.turn state m v).1 = (s.turn state m v).1
  state : ∀ state m v, (t.turn state m v).2.1 = (s.turn state m v).2.1
  outcome : ∀ state m v, (t.turn state m v).2.2.2 = (s.turn state m v).2.2.2
  evaluations : ∀ state m v, (s.turn state m v).2.2.2 = .ok () →
    (t.turn state m v).2.2.1.evaluations = (s.turn state m v).2.2.1.evaluations

theorem Like.refl (s : Solver α σ) : s.Like s :=
  ⟨fun _ _ _ => rfl, fun _ _ _ => rfl, fun _ _ _ => rfl, fun _ _ _ _ => rfl⟩

theorem like_reporting (s : Solver α σ) (exit : ExitCondition) : s.Like (s.reporting exit) := by
  have hturn (state : σ) (m : Multipliers α) (v : View α) : (s.reporting exit).turn state m v =
      ((s.turn state m v).1, (s.turn state m v).2.1,
        { (s.turn state m v).2.2.1 with exit := exit }, (s.turn state m v).2.2.2) := by
    simp only [turn, reporting, Program.run_bind, Program.run]
  exact ⟨fun _ _ _ => by rw [hturn], fun _ _ _ => by rw [hturn], fun _ _ _ => by rw [hturn],
    fun _ _ _ _ => by rw [hturn]⟩

end Solver

/-- Whether a relation between results respects what a solve enters in them. -/
structure Results.Carried (ρ : Results α → Results α → Prop) : Prop where
  exit : ∀ a b, ρ a b → ∀ e : ExitCondition, ρ { a with exit := e } { b with exit := e }
  number : ∀ a b, ρ a b → ∀ n : Int, ρ { a with iterations := n } { b with iterations := n }
  answers : ∀ a b, ρ a b → ∀ (f : α) (n : Int),
    ρ { a with value := some f, evaluations := a.evaluations + n }
      { b with value := some f, evaluations := b.evaluations + n }

namespace Run

/-! ## Solves in progress -/

/-- Whether two solves in progress differ at most in their results, and these are related. -/
structure Beside (ρ : Results α → Results α → Prop) (r q : Run α σ) : Prop where
  problem : q.problem = r.problem
  memory : q.memory = r.memory
  solver : q.solver = r.solver
  results : ρ r.results q.results

/-- The same, whether the constraints have been seen or not. -/
def Besides (ρ : Results α → Results α → Prop) (_seen : Prop) : Run α σ → Run α σ → Prop := Beside ρ

variable {ρ : Results α → Results α → Prop}

namespace Beside

/-- Solves beside each other that have the same results are the same. -/
theorem eq {r q : Run α σ} (h : r.Beside Eq q) : q = r := by
  obtain ⟨problem, memory, solver, results⟩ := r
  obtain ⟨rfl, rfl, rfl, rfl⟩ := h
  rfl

variable {s t : Solver α σ} {r q : Run α σ}

/-! ## The steps of a round -/

/-- Work on the problem. -/
theorem onProblem (h : r.Beside ρ q) {β : Type} (x : Action (Problem α) α β) :
    Together (Besides ρ) True (Run.onProblem x r) (Run.onProblem x q) := by
  have hbeside : (Run.onProblem x r).state.Beside ρ (Run.onProblem x q).state :=
    ⟨congrArg (fun p => (x p).state) h.problem, h.memory, h.solver, h.results⟩
  exact .of_result_eq hbeside (congrArg (fun p => (x p).result) h.problem.symm) hbeside

variable [Backend α]

theorem minimize (hst : s.Like t) (h : r.Beside ρ q) :
    Outcome.Parallel (Beside ρ)
      (fun a r' b q' => b.evaluations = a.evaluations ∧ r'.Beside ρ q')
      (Run.minimize s r) (Run.minimize t q) := by
  have hview := hst.view r.solver r.problem.multipliers ⟨r.problem.combined, r.memory⟩
  have hstate := hst.state r.solver r.problem.multipliers ⟨r.problem.combined, r.memory⟩
  have houtcome := hst.outcome r.solver r.problem.multipliers ⟨r.problem.combined, r.memory⟩
  have hevaluations := hst.evaluations r.solver r.problem.multipliers
    ⟨r.problem.combined, r.memory⟩
  have hresult (s : Solver α σ) (r : Run α σ) : (Run.minimize s r).result =
      (s.turn r.solver r.problem.multipliers ⟨r.problem.combined, r.memory⟩).2.2.2.map fun () =>
        (s.turn r.solver r.problem.multipliers ⟨r.problem.combined, r.memory⟩).2.2.1 := rfl
  have hturn : (Run.minimize s r).state.Beside ρ (Run.minimize t q).state := by
    unfold Run.minimize
    dsimp only
    rw [h.problem, h.memory, h.solver]
    exact ⟨congrArg (fun v : View α => { r.problem with combined := v.graph }) hview,
      congrArg View.memory hview, hstate, h.results⟩
  refine ⟨hturn, ?_⟩
  unfold Outcome.Coupled
  rw [hresult, hresult, h.problem, h.memory, h.solver, houtcome]
  cases hfailed : (s.turn r.solver r.problem.multipliers ⟨r.problem.combined, r.memory⟩).2.2.2 with
  | error fault => exact .inl ⟨fault, rfl, rfl⟩
  | ok _ => exact .inr ⟨_, _, rfl, rfl, hevaluations hfailed, hturn⟩

theorem objectiveValue (h : r.Beside ρ q) :
    Together (Besides ρ) True (Run.objectiveValue r) (Run.objectiveValue q) := by
  unfold Run.objectiveValue
  rw [h.memory]
  exact h.onProblem _

theorem constraintValues (h : r.Beside ρ q) :
    Together (Besides ρ) True (Run.constraintValues r) (Run.constraintValues q) := by
  unfold Run.constraintValues
  rw [h.memory]
  exact h.onProblem _

/-- Solves beside each other go through every step alike. -/
theorem lockstep (hρ : Results.Carried ρ) (hst : s.Like t) :
    Lockstep s t (Besides ρ) where
  unseen h := h
  config h := congrArg Problem.config h.problem
  outer h := congrArg Problem.outer h.problem
  duals h := congrArg (fun p : Problem α => p.constraints.map (·.dual)) h.problem
  minimize h := h.minimize hst
  objective h := h.objectiveValue
  constraints h := h.constraintValues
  moveDuals h := h.onProblem _
  modifyOuter f h :=
    ⟨congrArg (fun p : Problem α => { p with outer := f p.outer }) h.problem, h.memory, h.solver,
      h.results⟩
  number n h := ⟨h.problem, h.memory, h.solver, hρ.number _ _ h.results n⟩
  answers f n h := ⟨h.problem, h.memory, h.solver, hρ.answers _ _ h.results f n⟩

end Beside

/-! ## The solve -/

/-- Solves of one problem with solvers that do the same, from the same storages and with results
that are related once they have been marked, end in the same way and with related results. -/
theorem alongside_solve [Backend α] {s t : Solver α σ} (hρ : Results.Carried ρ) (hst : s.Like t)
    {r q : Run α σ} (hproblem : q.problem = r.problem) (hmemory : q.memory = r.memory)
    (hsolver : q.solver = r.solver)
    (hresults : ρ { r.results with exit := .internalError }
      { q.results with exit := .internalError }) :
    Together (Besides ρ) True (solve s r) (solve t q) := by
  have L := Beside.lockstep hρ hst
  have hentered {r q : Run α σ} (h : r.Beside ρ q) (exit : ExitCondition) :
      Together (Besides ρ) True
        (modifyResults (fun results => { results with exit := exit }) r)
        (modifyResults (fun results => { results with exit := exit }) q) := by
    have hbeside : (modifyResults (fun results => { results with exit := exit }) r).state.Beside ρ
        (modifyResults (fun results => { results with exit := exit }) q).state :=
      ⟨h.problem, h.memory, h.solver, hρ.exit _ _ h.results exit⟩
    exact .of_result_eq hbeside rfl hbeside
  have hreset {r q : Run α σ} (h : Besides ρ True r q) :
      Together (Besides ρ) True (reset r) (reset q) := by
    unfold reset
    refine (L.outerStep h _).bind fun _ r' q' h' => ?_
    refine (L.ofExcept h' _).bind fun nu r' q' h' => ?_
    exact (L.outerStep h' _).bind fun _ r' q' h' => h'.onProblem _
  have hmarked : Besides ρ True
      (modifyResults (fun results => { results with exit := .internalError }) r).state
      (modifyResults (fun results => { results with exit := .internalError }) q).state :=
    ⟨hproblem, hmemory, hsolver, hresults⟩
  unfold solve
  refine Together.bind (.of_result_eq hmarked rfl hmarked) fun _ r' q' h' => ?_
  refine L.get_bind h' ?_
  rw [h'.problem]
  split
  · exact hentered h' _
  · refine (hreset h').bind fun _ r' q' h' => ?_
    refine (L.rounds _ h').bind fun exit r' q' h' => ?_
    exact hentered h' exit

end Run

end Separable
