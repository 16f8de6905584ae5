import Separable.Minimizer
import Separable.Proofs.Alongside
import Separable.Proofs.Iterations
import Separable.Proofs.NotANumber

/-!
# Results that are handed in again

A caller may hand in results that an earlier solve has filled in. Nothing that a solve does depends
on them, but not everything in them is overwritten. Both kinds of solve set the exit condition on
every path on which they return. The loop sets the number of iterations and the value of the
objective in each round, but it adds the evaluations to those that it finds, and a problem without
variables leaves everything else as it is. A minimizer's solver overwrites the number of iterations
and of evaluations, except on a graph without variables, and the value, except after an optimum that
is not finite.

What is compared here is a solve with any results and the same solve with fresh ones.

## Main results

* `Run.reused_solve`: what a solve leaves of the results that it is handed.
* `Solver.reused_minimizing`: the same for a minimizer's solver.
* `Run.results_of_reused`: both together.
* `Run.evaluations_of_reused`: a solve that counts the evaluations of the solve before.
-/

namespace Separable

open Scalar

variable {α σ ρ : Type} [Backend α]

namespace Run

/-! ## Solves -/

/-- Whether the results `b` have become the results `a` on top of old ones. -/
structure Over (old a b : Results α) : Prop where
  exit : a.exit = b.exit
  evaluations : a.evaluations = old.evaluations + b.evaluations
  value : a.value = b.value.or old.value

omit [Backend α] in
theorem carried_over (old : Results α) : Results.Carried (Over old) where
  exit := fun _ _ h _ => ⟨rfl, h.evaluations, h.value⟩
  number := fun _ _ h _ => ⟨h.exit, h.evaluations, h.value⟩
  answers := fun _ _ h _ _ => ⟨h.exit, by rw [h.evaluations, add_assoc], rfl⟩

/-- A solve of a problem without variables notes the exit condition, and nothing else. -/
theorem solve_of_no_vars (s : Solver α σ) {r : Run α σ}
    (hvars : r.problem.combined.registry.vars = []) :
    (solve s r).result = .ok () ∧
      (solve s r).state = { r with results := { r.results with exit := .functionTolerance } } := by
  have hslots : r.problem.combined.registry.slots.isEmpty = true := by
    rw [List.isEmpty_iff]
    exact List.map_eq_nil_iff.1 hvars
  unfold solve
  rw [Action.result_bind_of_ok (result_modifyResults _ _),
    Action.state_bind_of_ok (result_modifyResults _ _),
    Action.result_bind_of_ok (Action.result_get _), Action.state_bind_of_ok (Action.result_get _),
    Action.state_get]
  have hmarked : (modifyResults (fun results => { results with exit := .internalError })
      r).state.problem.combined.registry.slots.isEmpty = true := hslots
  rw [if_pos hmarked]
  exact ⟨rfl, rfl⟩

/-- A loop that ends without a fault leaves a value of the objective. -/
theorem Loop.value {s : Solver α σ} {turns : List (Run α σ)} {q last : Run α σ}
    {result : Except Fault ExitCondition} {exit : ExitCondition} (h : Loop s turns q last result)
    (hresult : result = .ok exit) : ∃ f, last.results.value = some f := by
  have hround {q : Run α σ} {exit : Option ExitCondition} (h : (round s q).result = .ok exit) :
      ∃ f, (round s q).state.results.value = some f := by
    obtain ⟨_, f, _, _, _, _, hverdict⟩ := of_round_eq_ok h
    exact ⟨f, congrArg Results.value hverdict.kept.2.1⟩
  induction h with
  | failed => cases hresult
  | ended h => exact hround h
  | exhausted h => exact hround h
  | again _ _ _ ih => exact ih hresult

/-- A solve of a problem with variables that returns has overwritten the value, and its number of
iterations follows from the outer state and the exit condition. -/
theorem written_of_solve {s : Solver α σ} {r : Run α σ}
    (hvars : r.problem.combined.registry.vars ≠ []) (hok : (solve s r).result = .ok ()) :
    (∃ f, (solve s r).state.results.value = some f) ∧
      (solve s r).state.results.iterations = (solve s r).state.problem.outer.iterations +
        if (solve s r).state.results.exit = .noConvergence then 0 else 1 := by
  obtain ⟨turns, last, exit, hloop, hstate⟩ := loop_of_solve_eq_ok hvars hok
  obtain ⟨_, _, htallied⟩ := tallied_of_loop hloop rfl
  have hiterations := htallied.iterations
  rw [hstate]
  refine ⟨hloop.value rfl, ?_⟩
  show last.results.iterations = last.problem.outer.iterations +
    if exit = .noConvergence then 0 else 1
  obtain ⟨rfl, _, hcount⟩ | ⟨hexit, hcount⟩ := htallied.exit
  · rw [if_pos rfl]
    omega
  · rw [if_neg (by rintro rfl; rcases hexit with ⟨h, _⟩ | h <;> cases h)]
    omega

/-- What a solve leaves of the results that it is handed: the old value and number of iterations if
the problem has no variables, and the old evaluations in any case. -/
theorem reused_solve (s : Solver α σ) (r fresh : Run α σ)
    (hfresh : fresh = { r with results := .fresh }) :
    (solve s r).result = (solve s fresh).result ∧
    (solve s r).state.problem = (solve s fresh).state.problem ∧
    (solve s r).state.memory = (solve s fresh).state.memory ∧
    (solve s r).state.solver = (solve s fresh).state.solver ∧
    ((solve s r).result = .ok () →
      (solve s r).state.results.exit = (solve s fresh).state.results.exit ∧
      (solve s r).state.results.evaluations =
        r.results.evaluations + (solve s fresh).state.results.evaluations ∧
      (r.problem.combined.registry.vars ≠ [] →
        (solve s r).state.results.iterations = (solve s fresh).state.results.iterations ∧
        (solve s r).state.results.value = (solve s fresh).state.results.value) ∧
      (r.problem.combined.registry.vars = [] →
        (solve s r).state.results.iterations = r.results.iterations ∧
        (solve s r).state.results.value = r.results.value)) := by
  subst hfresh
  have hmarked : Over r.results { r.results with exit := .internalError }
      ({ Results.fresh with exit := .internalError } : Results α) :=
    ⟨rfl, (add_zero _).symm, rfl⟩
  have hsolves := alongside_solve (carried_over r.results) (.refl s) (r := r)
    (q := { r with results := .fresh }) rfl rfl rfl hmarked
  have hend := hsolves.1
  refine ⟨hsolves.result_eq, hend.problem.symm, hend.memory.symm, hend.solver.symm, fun hok => ?_⟩
  refine ⟨hend.results.exit, hend.results.evaluations, fun hvars => ?_, fun hvars => ?_⟩
  · obtain ⟨_, hiterations⟩ := written_of_solve hvars hok
    obtain ⟨⟨f, hf⟩, hiterations'⟩ :=
      written_of_solve (r := { r with results := .fresh }) hvars (hsolves.result_eq.symm.trans hok)
    refine ⟨?_, ?_⟩
    · rw [hiterations, hiterations', hend.problem, hend.results.exit]
    · rw [hend.results.value, hf, Option.some_or]
  · rw [(solve_of_no_vars s hvars).2]
    exact ⟨rfl, rfl⟩

end Run

/-! ## Minimizers -/

namespace Solver

/-- Whether results that were written over old ones agree with results that were fresh: an old value
stands where there is no other one, and old counts stand if they are kept. -/
structure Overlaid (old : Results α) (kept : Bool) (a b : Results α) : Prop where
  exit : a.exit = b.exit
  value : a.value = b.value.or old.value
  iterations : a.iterations = if kept then old.iterations else b.iterations
  evaluations : a.evaluations = if kept then old.evaluations else b.evaluations

/-- Whether a call of a solver with old results ends like one with fresh results, log lines
apart. -/
structure Reused (old : Results α) (kept : Bool)
    (a b : View α × List (Entry α) × σ × Results α × Except Fault Unit) : Prop where
  view : a.1 = b.1
  state : a.2.2.1 = b.2.2.1
  outcome : a.2.2.2.2 = b.2.2.2.2
  results : a.2.2.2.2 = .ok () → Overlaid old kept a.2.2.2.1 b.2.2.2.1

section Minimizing

variable {m : Multipliers α} {v : View α} {old : Results α} {kept : Bool}

/-- Two calls that ask the same question. -/
theorem Reused.ask (q : Query α)
    {next next' : q.Answer → Program α (σ × Results α × Except Fault Unit)}
    (h : Reused old kept ((next (q.answer m v).2.2).run m (q.answer m v).1)
      ((next' (q.answer m v).2.2).run m (q.answer m v).1)) :
    Reused old kept ((Program.ask q next).run m v) ((Program.ask q next').run m v) :=
  ⟨h.view, h.state, h.outcome, h.results⟩

/-- Two calls that begin with the same course. -/
theorem Reused.bind {β : Type} (p : Program α β)
    {f f' : β → Program α (σ × Results α × Except Fault Unit)}
    (h : Reused old kept ((f (p.run m v).2.2).run m (p.run m v).1)
      ((f' (p.run m v).2.2).run m (p.run m v).1)) :
    Reused old kept ((p.bind f).run m v) ((p.bind f').run m v) := by
  rw [Program.run_bind, Program.run_bind]
  exact ⟨h.view, h.state, h.outcome, h.results⟩

theorem Reused.error (s : σ) (a b : Results α) (fault : Fault) :
    Reused old kept ((Program.done (s, a, .error fault)).run m v)
      ((Program.done (s, b, .error fault)).run m v) :=
  ⟨rfl, rfl, rfl, nofun⟩

variable (config : MinimizerConfig α)

theorem reused_report (s : σ) {a b : Results α} (h : Overlaid old kept a b) :
    Reused old kept ((config.report s a).run m v) ((config.report s b).run m v) := by
  unfold MinimizerConfig.report
  simp only [Program.run, Query.answer]
  split <;> exact ⟨rfl, rfl, rfl, fun _ => h⟩

theorem reused_accept (s : σ) (o : Optimum α) :
    Reused old false ((config.accept s old o).run m v) ((config.accept s .fresh o).run m v) := by
  unfold MinimizerConfig.accept
  dsimp only
  split
  · refine .ask (.store o.point) ?_
    generalize (Query.answer m (.store o.point) v).2.2 = stored
    cases stored with
    | error fault => exact .error s _ _ fault
    | ok done => exact reused_report config s ⟨rfl, rfl, rfl, rfl⟩
  · exact reused_report config s ⟨rfl, rfl, rfl, rfl⟩

/-- What a minimizer's solver leaves of the results that it is handed: the old counts if the graph
has no variables, and the old value if the optimum is not finite. -/
theorem reused_minimizing (minimizer : Minimizer α ρ) (records : List ρ) (old : Results α) :
    Reused old (v.graph.scalars = 0)
      (((minimizing config minimizer).solve records old).run m v)
      (((minimizing config minimizer).solve records .fresh).run m v) := by
  unfold minimizing
  refine .ask .scalars ?_
  show Reused old _ ((if v.graph.scalars = 0 then _ else _ : Program α _).run m v)
    ((if v.graph.scalars = 0 then _ else _ : Program α _).run m v)
  by_cases hempty : v.graph.scalars = 0
  · rw [if_pos hempty, if_pos hempty, decide_eq_true hempty]
    refine .ask .valueAtStorage ?_
    generalize (Query.answer m .valueAtStorage v).2.2 = answer
    cases answer with
    | error fault => exact .error records _ _ fault
    | ok value => exact ⟨rfl, rfl, rfl, fun _ => ⟨rfl, rfl, rfl, rfl⟩⟩
  · rw [if_neg hempty, if_neg hempty, decide_eq_false hempty]
    refine .ask .start ?_
    generalize (Query.answer m .start v).2.2 = answer
    cases answer with
    | error fault => exact .error records _ _ fault
    | ok start =>
        dsimp only
        cases minimizer records.length (config.request start) with
        | error fault => exact .error records _ _ fault
        | ok search =>
            refine .bind _ ?_
            generalize (Program.run m (search.program config.hessian) _).2.2 = found
            obtain ⟨onRecord, outcome⟩ := found
            cases outcome with
            | error fault => exact .error _ _ _ fault
            | ok o => exact reused_accept config _ o

end Minimizing

end Solver

namespace Run

/-- A solve with any results ends like the same solve with fresh ones, and leaves the same exit
condition. The value and the number of iterations are the same, too, if there are variables, and
those that were handed in if not; but the evaluations are added to those that were handed in. A
minimizer's solver leaves the same counts if there are variables, and those that were handed in if
not, and the same value, or if there is none the value that was handed in. -/
theorem results_of_reused :
    (∀ (s : Solver α σ) (r fresh : Run α σ), fresh = { r with results := .fresh } →
      (solve s r).result = (solve s fresh).result ∧
      (solve s r).state.problem = (solve s fresh).state.problem ∧
      (solve s r).state.memory = (solve s fresh).state.memory ∧
      (solve s r).state.solver = (solve s fresh).state.solver ∧
      ((solve s r).result = .ok () →
        (solve s r).state.results.exit = (solve s fresh).state.results.exit ∧
        (solve s r).state.results.evaluations =
          r.results.evaluations + (solve s fresh).state.results.evaluations ∧
        (r.problem.combined.registry.vars ≠ [] →
          (solve s r).state.results.iterations = (solve s fresh).state.results.iterations ∧
          (solve s r).state.results.value = (solve s fresh).state.results.value) ∧
        (r.problem.combined.registry.vars = [] →
          (solve s r).state.results.iterations = r.results.iterations ∧
          (solve s r).state.results.value = r.results.value))) ∧
    (∀ (config : MinimizerConfig α) (minimizer : Minimizer α ρ) (records : List ρ)
        (m : Multipliers α) (v : View α) (old : Results α),
      Solver.Reused old (v.graph.scalars = 0)
        (((Solver.minimizing config minimizer).solve records old).run m v)
        (((Solver.minimizing config minimizer).solve records .fresh).run m v)) :=
  ⟨reused_solve, fun config minimizer records _ _ old =>
    Solver.reused_minimizing config minimizer records old⟩

/-- A solver that stays where it is and reports three evaluations. -/
def tallying : Solver OnePower Unit :=
  ⟨false, fun s results => .done (s, { results with evaluations := 3 }, .ok ())⟩

/-- A second solve with the results of the first one, before it has begun. -/
def again : Run OnePower Unit :=
  { constant (-1) with results := (solve tallying (constant (-1))).state.results }

/-- The second solve ends as it would with fresh results, and adds the evaluations to the three that
it is handed. -/
theorem results_of_again :
    (solve tallying again).state.results.exit = .gradientTolerance ∧
    (solve tallying again).state.results.iterations =
      (solve tallying { again with results := .fresh }).state.results.iterations ∧
    (solve tallying again).state.results.value =
      (solve tallying { again with results := .fresh }).state.results.value ∧
    (solve tallying again).state.results.evaluations =
      3 + (solve tallying { again with results := .fresh }).state.results.evaluations := by
  have hok : (solve tallying again).result = .ok () :=
    Action.of_toOption_eq_some (by decide +kernel)
  have hcounted : again.results.evaluations = 3 := by decide +kernel
  obtain ⟨_, _, _, _, hreturned⟩ :=
    (results_of_reused (ρ := Unit)).1 tallying again { again with results := .fresh } rfl
  obtain ⟨hexit, hevaluations, hvars, _⟩ := hreturned hok
  obtain ⟨hiterations, hvalue⟩ := hvars (List.cons_ne_nil _ _)
  rw [hcounted] at hevaluations
  exact ⟨hexit.trans (by decide +kernel), hiterations, hvalue, hevaluations⟩

/-- It reports six evaluations, and three with fresh results. -/
theorem evaluations_of_reused :
    (solve tallying again).result = .ok () ∧
    (solve tallying again).state.results.evaluations = 6 ∧
    (solve tallying { again with results := .fresh }).result = .ok () ∧
    (solve tallying { again with results := .fresh }).state.results.evaluations = 3 := by
  refine ⟨?_, ?_, ?_, ?_⟩
  · exact Action.of_toOption_eq_some (by decide +kernel)
  · decide +kernel
  · exact Action.of_toOption_eq_some (by decide +kernel)
  · decide +kernel

end Run

end Separable
