import Separable.Proofs.Coupling
import Separable.Proofs.Loop

/-!
# Two solves in lockstep

To follow two solves through a round it is enough to know what each step makes of the relation
between them: the solvers' turns, the two observations, the update of the multipliers, and what is
entered in the outer state and in the results. `Lockstep` lists just this. What a round reads in
between, the settings, the outer state and the multipliers, has to be the same in both solves; the
solvers' turns need not have the same results, as long as they report the same number of
evaluations.

The values of the constraints are read only after the constraints were observed. Up to this point
they may differ, and after a fault they may differ again, so the relation is a family, for solves
that have seen their constraints and for solves that have not.

## Main results

* `Lockstep.round`: two solves go through the same round.
* `Lockstep.rounds`: two solves go through the same loop.
-/

namespace Separable

open Scalar

namespace Run

variable {α σ : Type}

/-- Whether two steps have one result, or one fault, and leave related solves, after a success with
constraints that have been seen or not, as it is said. -/
def Together {β : Type} (W : Prop → Run α σ → Run α σ → Prop) (seen : Prop)
    (o p : Outcome (Run α σ) α β) : Prop :=
  Outcome.Parallel (W False) (fun b r c q => b = c ∧ W seen r q) o p

/-- Whether every step of a round keeps two solves related, with the one solver and with the
other. -/
structure Lockstep [Backend α] (s t : Solver α σ) (W : Prop → Run α σ → Run α σ → Prop) : Prop where
  unseen : ∀ {seen r q}, W seen r q → W False r q
  config : ∀ {r q}, W False r q → q.problem.config = r.problem.config
  outer : ∀ {r q}, W False r q → q.problem.outer = r.problem.outer
  duals : ∀ {r q}, W False r q →
    q.problem.constraints.map (·.dual) = r.problem.constraints.map (·.dual)
  minimize : ∀ {r q}, W False r q →
    Outcome.Parallel (W False)
      (fun inner r' inner' q' => inner'.evaluations = inner.evaluations ∧ W False r' q')
      (minimize s r) (minimize t q)
  objective : ∀ {r q}, W False r q → Together W False (objectiveValue r) (objectiveValue q)
  constraints : ∀ {r q}, W False r q → Together W True (constraintValues r) (constraintValues q)
  moveDuals : ∀ {r q}, W True r q → Together W True
    (onProblem (Problem.onConstraints (Action.run (Constraint.moveDuals r.problem.outer.mu))) r)
    (onProblem (Problem.onConstraints (Action.run (Constraint.moveDuals r.problem.outer.mu))) q)
  modifyOuter : ∀ {seen r q} (f : OuterState α → OuterState α), W seen r q →
    W seen (modifyOuter f r).state (modifyOuter f q).state
  number : ∀ {r q} (n : Int), W False r q →
    W False (modifyResults (fun results => { results with iterations := n }) r).state
      (modifyResults (fun results => { results with iterations := n }) q).state
  answers : ∀ {r q} (f : α) (n : Int), W True r q →
    W True
      (modifyResults (fun results =>
        { results with value := some f, evaluations := results.evaluations + n }) r).state
      (modifyResults (fun results =>
        { results with value := some f, evaluations := results.evaluations + n }) q).state

variable {W : Prop → Run α σ → Run α σ → Prop} {seen after : Prop} {r q : Run α σ}

namespace Together

theorem bind {β γ : Type} {x y : Action (Run α σ) α β} {f k : β → Action (Run α σ) α γ}
    (hxy : Together W seen (x r) (y q))
    (hfk : ∀ b r' q', W seen r' q' → Together W after (f b r') (k b q')) :
    Together W after ((x >>= f) r) ((y >>= k) q) := by
  refine Outcome.Parallel.bind hxy ?_
  rintro b r' _ q' ⟨rfl, hrelated⟩
  exact hfk b r' q' hrelated

theorem result_eq {β : Type} {o p : Outcome (Run α σ) α β} (h : Together W seen o p) :
    o.result = p.result :=
  h.2.result_eq fun _ _ _ _ hrelated => hrelated.1

theorem of_ok {β : Type} {o p : Outcome (Run α σ) α β} {b : β} (h : Together W seen o p)
    (hok : o.result = .ok b) : W seen o.state p.state := by
  rcases h.2 with ⟨fault, hfault, _⟩ | ⟨_, _, _, _, _, hrelated⟩
  · cases hfault.symm.trans hok
  · exact hrelated

/-- Steps that have one result and leave related solves. -/
theorem of_result_eq {β : Type} {o p : Outcome (Run α σ) α β} (hunseen : W False o.state p.state)
    (hresult : o.result = p.result) (hrelated : W seen o.state p.state) : Together W seen o p :=
  ⟨hunseen, .of_result_eq hresult fun _ _ => ⟨rfl, hrelated⟩⟩

end Together

namespace Lockstep

variable [Backend α] {s t : Solver α σ} (L : Lockstep s t W)

include L

/-! ## Elementary steps -/

/-- Steps that have one result and change nothing. -/
theorem still {β : Type} {x y : Action (Run α σ) α β} (h : W seen r q) (hx : (x r).state = r)
    (hy : (y q).state = q) (hresult : (x r).result = (y q).result) :
    Together W seen (x r) (y q) := by
  refine .of_result_eq ?_ hresult ?_
  · rw [hx, hy]
    exact L.unseen h
  · rwa [hx, hy]

theorem get_bind {β : Type} {f k : Run α σ → Action (Run α σ) α β} (h : W seen r q)
    (hfk : Together W after (f r r) (k q q)) :
    Together W after ((Action.get >>= f) r) ((Action.get >>= k) q) := by
  refine Outcome.Parallel.bind (R := fun b r' c q' => b = r ∧ r' = r ∧ c = q ∧ q' = q)
    (.of_ok rfl rfl (L.unseen h) ⟨rfl, rfl, rfl, rfl⟩) ?_
  rintro _ _ _ _ ⟨rfl, rfl, rfl, rfl⟩
  exact hfk

theorem outerStep (h : W seen r q) (f : OuterState α → OuterState α) :
    Together W seen (Run.modifyOuter f r) (Run.modifyOuter f q) :=
  .of_result_eq (L.unseen (L.modifyOuter f h)) rfl (L.modifyOuter f h)

theorem say (h : W seen r q) (event event' : Event α) :
    Together W seen (Run.say s event r) (Run.say t event' q) := L.still h rfl rfl rfl

theorem ofExcept {β : Type} (h : W seen r q) (result : Except Fault β) :
    Together W seen (Action.ofExcept result r) (Action.ofExcept result q) := L.still h rfl rfl rfl

theorem listMultipliers (h : W seen r q) :
    Together W seen (Run.listMultipliers s r) (Run.listMultipliers t q) :=
  L.still h (state_listMultipliers s r) (state_listMultipliers t q)
    ((result_listMultipliers s r).trans (result_listMultipliers t q).symm)

/-! ## The two moves -/

/-- The multipliers of constraints that have been seen are updated alike, and the verdict on them is
the same. -/
theorem moveMultipliers (h : W True r q) (violation : α) :
    Together W True (Run.moveMultipliers s violation r) (Run.moveMultipliers t violation q) := by
  have hduals := L.duals (L.unseen h)
  unfold Run.moveMultipliers
  refine L.get_bind h ?_
  dsimp only
  rw [L.outer (L.unseen h), L.config (L.unseen h)]
  refine (L.moveDuals h).bind fun _ r' q' h' => ?_
  have hduals' := L.duals (L.unseen h')
  refine L.get_bind h' ?_
  have hchange : q.problem.constraints.zipWith (fun c d => magnitude (c.dual - d.dual))
      q'.problem.constraints =
        r.problem.constraints.zipWith (fun c d => magnitude (c.dual - d.dual))
          r'.problem.constraints := by
    have hsplit (cs ds : List (Constraint α)) :
        cs.zipWith (fun c d => magnitude (c.dual - d.dual)) ds =
          (cs.map (·.dual)).zipWith (fun a b => magnitude (a - b)) (ds.map (·.dual)) := by
      rw [List.zipWith_map]
    rw [hsplit, hsplit, hduals, hduals']
  have hsize : q'.problem.constraints.map (fun c => magnitude c.dual) =
      r'.problem.constraints.map fun c => magnitude c.dual := by
    have hsplit (cs : List (Constraint α)) :
        cs.map (fun c => magnitude c.dual) = (cs.map (·.dual)).map magnitude :=
      List.map_map.symm
    rw [hsplit, hsplit, hduals']
  rw [hchange, hsize]
  refine Together.bind (L.still h' rfl rfl rfl) fun _ r' q' h' => ?_
  refine (L.say h' _ _).bind fun _ r' q' h' => ?_
  refine (L.ofExcept h' _).bind fun relative r' q' h' => ?_
  split
  · exact L.still h' rfl rfl rfl
  · refine (L.ofExcept h' _).bind fun shrink r' q' h' => ?_
    refine (L.ofExcept h' _).bind fun nu r' q' h' => ?_
    exact (L.outerStep h' _).bind fun _ r' q' h' => L.still h' rfl rfl rfl

theorem raisePenalty (h : W seen r q) :
    Together W seen (Run.raisePenalty s r) (Run.raisePenalty t q) := by
  unfold Run.raisePenalty
  refine (L.outerStep h _).bind fun _ r' q' h' => ?_
  refine L.get_bind h' ?_
  rw [L.outer (L.unseen h')]
  refine (L.ofExcept h' _).bind fun nu r' q' h' => ?_
  refine (L.outerStep h' _).bind fun _ r' q' h' => ?_
  exact Together.bind (L.still h' rfl rfl rfl) fun _ r' q' h' => L.say h' _ _

/-! ## One round, and the loop -/

/-- Two solves in lockstep go through the same round, and then they have seen their constraints. -/
theorem round (h : W False r q) : Together W True (Run.round s r) (Run.round t q) := by
  unfold Run.round
  refine (L.minimize h).bind ?_
  rintro inner r' inner' q' ⟨hinner, h'⟩
  refine (L.objective h').bind fun f r' q' h' => ?_
  refine L.get_bind h' ?_
  dsimp only
  rw [L.outer h', hinner]
  refine Together.bind (.of_result_eq (L.number _ h') rfl (L.number _ h')) fun _ r' q' h' => ?_
  refine (L.constraints h').bind fun values r' q' h' => ?_
  refine L.get_bind h' ?_
  rw [L.outer (L.unseen h'), L.config (L.unseen h')]
  refine (L.say h' _ _).bind fun _ r' q' h' => ?_
  have hanswers := L.answers f inner.evaluations h'
  refine Together.bind (.of_result_eq (L.unseen hanswers) rfl hanswers) fun _ r' q' h' => ?_
  refine (L.ofExcept h' _).bind fun stalled r' q' h' => ?_
  have hlast {r' q' : Run α σ} (h' : W True r' q') :
      Together W True
        ((do
          Run.listMultipliers s
          Run.modifyOuter fun o => { o with previous := some f, iterations := o.iterations + 1 }
          return (none : Option ExitCondition) : Action (Run α σ) α _) r')
        ((do
          Run.listMultipliers t
          Run.modifyOuter fun o => { o with previous := some f, iterations := o.iterations + 1 }
          return (none : Option ExitCondition) : Action (Run α σ) α _) q') := by
    refine (L.listMultipliers h').bind fun _ r' q' h' => ?_
    exact (L.outerStep h' _).bind fun _ r' q' h' => L.still h' rfl rfl rfl
  split
  · exact L.still h' rfl rfl rfl
  · split
    · refine (L.moveMultipliers h' _).bind fun rested r' q' h' => ?_
      split
      · exact L.still h' rfl rfl rfl
      · exact hlast h'
    · exact (L.raisePenalty h').bind fun _ r' q' h' => hlast h'

theorem rounds (left : Nat) (h : W False r q) :
    Together W True (Run.rounds s left r) (Run.rounds t left q) := by
  induction left generalizing r q with
  | zero =>
      refine (L.round h).bind fun exit r' q' h' => ?_
      cases exit <;> exact L.still h' rfl rfl rfl
  | succ left ih =>
      refine (L.round h).bind fun exit r' q' h' => ?_
      cases exit with
      | none => exact ih (L.unseen h')
      | some exit => exact L.still h' rfl rfl rfl

end Lockstep

end Run

end Separable
