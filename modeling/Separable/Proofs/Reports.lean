import Separable.Proofs.Alongside
import Separable.Proofs.Iterations
import Separable.Proofs.NotANumber

/-!
# What a solver reports, and what a solve reports

A solve does not take the solver's word for anything. The exit condition that the solver reports is
written to the log, and a solver that reported another one would be followed to the same end. What a
solve reports itself, it has compared: with a function tolerance, the values of the objective after
the last two turns, and with a gradient tolerance, the multipliers before and after their last
update, with a negligible violation. Both comparisons are made at the point that the solver has left
in its last turn, whether it has moved at all or not.

So a solver that gives up where it stands, and says that it has failed, is taken for one that has
converged, if it fails without a fault.

## Main results

* `tested_of_round`: what a round that ends the loop has compared.
* `converged_of_solve`: a solve that reports a tolerance has compared its numbers, and not looked at
  the solver's report.
* `converged_stuck`: a solver that reports its failure, and a solve that reports convergence.
-/

namespace Separable

open Scalar

namespace Run

variable {α σ : Type} [Backend α]

/-- Whether the objective has improved by less than the tolerance. -/
def Settled (tolerance previous f : α) : Prop :=
  ∃ improvement, divide (magnitude (f - previous)) (magnitude f + tolerance) = .ok improvement ∧
    lt improvement tolerance = true

/-- Whether multipliers have moved by less than the tolerance. -/
def AtRest (tolerance : α) (before after : List α) : Prop :=
  ∃ relative, divide ((before.zipWith (fun a b => magnitude (a - b)) after).foldl larger 0)
      ((after.map magnitude).foldl larger 0 + tolerance) = .ok relative ∧
    lt relative tolerance = true

/-- What the last round of a solve has found: the objective is `f` and the values of the constraints
are `values` at the point that the solver has left, and the comparison for the exit condition holds
of them. -/
structure Tested (s : Solver α σ) (q last : Run α σ) (f : α) (values : List α)
    (exit : ExitCondition) : Prop where
  memory : last.memory = (minimize s q).state.memory
  objective : (Graph.valueAtStorage Multipliers.none last.memory q.problem.objective).result = .ok f
  constraints : (Constraint.evaluateAll last.memory q.problem.constraints).result = .ok values
  value : last.results.value = some f
  compared :
    exit = .functionTolerance ∧ (∃ previous, q.problem.outer.previous = some previous ∧
      Settled q.problem.config.improvementTolerance previous f) ∨
    exit = .gradientTolerance ∧ lt (largestViolation values) negligibleViolation = true ∧
      AtRest q.problem.config.dualTolerance (q.problem.constraints.map (·.dual))
        (last.problem.constraints.map (·.dual))

/-- What a round that ends the loop has compared. -/
theorem tested_of_round {s : Solver α σ} {q : Run α σ} {exit : ExitCondition}
    (h : (round s q).result = .ok (some exit)) : ∃ inner f values,
      (minimize s q).result = .ok inner ∧ Tested s q (round s q).state f values exit := by
  obtain ⟨inner, f, values, hinner, hf, hvalues, hverdict⟩ := of_round_eq_ok h
  refine ⟨inner, f, values, hinner, ?_⟩
  generalize (round s q).state = last at hverdict
  cases hverdict with
  | stalled hstalled =>
      refine ⟨rfl, hf, hvalues, rfl, .inl ⟨rfl, ?_⟩⟩
      have hstalled : isStalled q.problem.config.improvementTolerance f q.problem.outer.previous =
        .ok true := hstalled
      cases hprevious : q.problem.outer.previous with
      | none =>
          rw [hprevious] at hstalled
          obtain ⟨_, _, hfalse⟩ := Action.of_map_eq_ok hstalled
          cases hfalse
      | some previous =>
          rw [hprevious] at hstalled
          exact ⟨previous, rfl, Action.of_map_eq_ok hstalled⟩
  | rested _ _ hmoved =>
      obtain ⟨_, hstate, hviolation, relative, hrelative, hlt⟩ :=
        of_moveMultipliers_rested rfl hmoved
      rw [hstate]
      refine ⟨rfl, hf, hvalues, rfl, .inr ⟨rfl, hviolation, relative, ?_, hlt⟩⟩
      have hduals : (observed s inner f q).problem.constraints.map (·.dual) =
          q.problem.constraints.map (·.dual) := Constraint.map_dual_evaluateAll _ _
      rw [← hduals, List.zipWith_map, List.map_map]
      exact hrelative

/-- A solve of a problem with variables that reports a function tolerance or a gradient tolerance
has let the solver take a last turn that has not failed, and the comparison that the exit condition
stands for holds at the point that the solver has left there; the objective is compared with its
value in the round before. What the solver reports about its turns plays no part: a solver that does
the same and reports other exit conditions is followed to the same end. -/
theorem converged_of_solve (s : Solver α σ) (r : Run α σ)
    (hvars : r.problem.combined.registry.vars ≠ []) :
    (∀ t : Solver α σ, s.Like t →
      (solve t r).result = (solve s r).result ∧ (solve t r).state = (solve s r).state) ∧
    ((solve s r).result = .ok () → ∀ exit, (solve s r).state.results.exit = exit →
      exit = .functionTolerance ∨ exit = .gradientTolerance →
      ∃ before q inner f values, Loop s (before ++ [q]) (restarted r) (round s q).state (.ok exit) ∧
        (solve s r).state = noted (round s q).state (.ok exit) ∧
        (minimize s q).result = .ok inner ∧
        Tested s q (solve s r).state f values exit ∧
        (exit = .functionTolerance → ∃ turn previous, before.getLast? = some turn ∧
          (answers s turn).2 = .ok previous ∧ q.problem.outer.previous = some previous)) := by
  refine ⟨fun t hst => ?_, fun hok exit hreported hexit => ?_⟩
  · have hequal : Results.Carried (Eq : Results α → Results α → Prop) :=
      ⟨fun _ _ h _ => h ▸ rfl, fun _ _ h _ => h ▸ rfl, fun _ _ h _ _ => h ▸ rfl⟩
    have hsolves := alongside_solve hequal hst (r := r) (q := r) rfl rfl rfl rfl
    exact ⟨hsolves.result_eq.symm, hsolves.1.eq⟩
  · obtain ⟨turns, last, reported, hloop, hstate⟩ := loop_of_solve_eq_ok hvars hok
    obtain rfl : reported = exit := by
      rw [← hreported, hstate]
      rfl
    obtain ⟨before, q, rfl, hround, rfl⟩ :=
      hloop.last_round rfl (by rintro rfl; rcases hexit with h | h <;> cases h)
    obtain ⟨inner, f, values, hinner, htested⟩ := tested_of_round hround
    refine ⟨before, q, inner, f, values, hloop, hstate, hinner, ?_, ?_⟩
    · rw [hstate]
      exact ⟨htested.memory, htested.objective, htested.constraints, htested.value,
        htested.compared⟩
    · rintro rfl
      obtain ⟨_, _, seen, hseen, _, hprevious, _⟩ := hloop.reached
      have hkept : q.problem.outer.previous = seen.getLast?.map (·.2) :=
        hprevious.trans (Option.or_none)
      obtain ⟨_, previous, hsome, _⟩ | ⟨hfalse, _⟩ := htested.compared
      · obtain ⟨⟨inner', f'⟩, hlast, rfl⟩ := Option.map_eq_some_iff.1 (hkept.symm.trans hsome)
        have hboth := congrArg List.getLast? hseen
        rw [List.getLast?_map, List.getLast?_map, hlast] at hboth
        obtain ⟨turn, hturn, hanswers⟩ := Option.map_eq_some_iff.1 hboth
        exact ⟨turn, f', hturn, congrArg Prod.snd hanswers, hsome⟩
      · cases hfalse

/-- A solver that stays where it is and reports that it has failed. -/
def stuck : Solver OnePower Unit := unmoved.reporting .internalError

/-- The solver reports its failure in its only turn, and the solve reports a gradient tolerance. -/
theorem converged_stuck : (constant (-1)).problem.combined.registry.vars ≠ [] ∧
    (solve stuck (constant (-1))).result = .ok () ∧
    (solve stuck (constant (-1))).state.results.exit = .gradientTolerance ∧
    ∃ q last inner, Loop stuck [q] (restarted (constant (-1))) last (.ok .gradientTolerance) ∧
      (minimize stuck q).result = .ok inner ∧ inner.exit = .internalError ∧
      (minimize stuck q).state.memory = (constant (-1)).memory := by
  have hok : (solve stuck (constant (-1))).result = .ok () :=
    Action.of_toOption_eq_some (by decide +kernel)
  have hround : (round stuck (restarted (constant (-1)))).result = .ok (some .gradientTolerance) :=
    Action.of_toOption_eq_some (by decide +kernel)
  exact ⟨List.cons_ne_nil _ _, hok, by decide +kernel, _, _, _, .ended hround, rfl, rfl, rfl⟩

/-- The multiplier of the slack constraint has not moved, and nothing else has been compared. -/
theorem converged_slack :
    (solve stuck (constant (-1))).state = (solve unmoved (constant (-1))).state ∧
    AtRest (1e-8 : OnePower) [0]
      ((solve unmoved (constant (-1))).state.problem.constraints.map (·.dual)) := by
  have hok : (solve unmoved (constant (-1))).result = .ok () :=
    Action.of_toOption_eq_some (by decide +kernel)
  have hexit : (solve unmoved (constant (-1))).state.results.exit = .gradientTolerance := by
    decide +kernel
  have hround :
      (round unmoved (restarted (constant (-1)))).result = .ok (some .gradientTolerance) :=
    Action.of_toOption_eq_some (by decide +kernel)
  obtain ⟨hlike, hconverged⟩ :=
    converged_of_solve unmoved (constant (-1)) (List.cons_ne_nil _ _)
  obtain ⟨before, q, _, _, _, hloop, _, _, htested, _⟩ :=
    hconverged hok .gradientTolerance hexit (.inr rfl)
  obtain ⟨hturns, _, _⟩ := (Loop.ended hround).unique hloop
  obtain ⟨rfl, rfl⟩ : before = [] ∧ q = restarted (constant (-1)) := by
    cases before with
    | nil => exact ⟨rfl, (List.cons.inj hturns).1⟩
    | cons t rest => simp at hturns
  refine ⟨(hlike stuck (unmoved.like_reporting .internalError)).2, ?_⟩
  obtain ⟨hfalse, _⟩ | ⟨_, _, hrest⟩ := htested.compared
  · cases hfalse
  · exact hrest

end Run

end Separable
