import Mathlib.Data.List.Forall2
import Separable.Problem.OuterLoop
import Separable.Proofs.Action

/-!
# What survives a solve

A round consists of a few steps that change something: the solver's turn, the observations of the
objective and of the constraints, the update of the multipliers, a higher penalty parameter, and
the bookkeeping. A property that survives each of them (`Run.Kept`) survives a round, however it
ends, and then the whole loop.

The two steps that go through the constraints treat each of them alike, so what they do to the list
follows from what they do to one constraint.

## Main results

* `forall₂_evaluateAll_of`, `forall₂_moveDuals_of`: a step, constraint by constraint.
* `evaluateAll_of_ok`, `exists_value_of_evaluateAll`: an observation that succeeds.
* `keeps_round`, `keeps_rounds`, `keeps_solve`: what survives the steps survives the loop.
-/

namespace Separable

open Scalar

namespace Constraint

variable {α : Type} [Backend α] {R : Constraint α → Constraint α → Prop}
  {constraints : List (Constraint α)}

/-- An observation relates the constraints to what becomes of them, if it does so for those that are
seen, and those that are not are related to themselves. -/
theorem forall₂_evaluateAll_of (memory : Memory α) (hself : ∀ c ∈ constraints, R c c)
    (hseen : ∀ c ∈ constraints, R c (c.evaluate memory).state) :
    List.Forall₂ R constraints (evaluateAll memory constraints).state := by
  induction constraints with
  | nil => exact .nil
  | cons c rest ih =>
      obtain ⟨hfirst, hlater⟩ := List.forall_mem_cons.1 hseen
      obtain ⟨_, hunseen⟩ := List.forall_mem_cons.1 hself
      simp only [evaluateAll]
      split
      · next d log fault hevaluate =>
        rw [hevaluate] at hfirst
        exact .cons hfirst (List.forall₂_same.2 hunseen)
      · next d log value hevaluate =>
        rw [hevaluate] at hfirst
        exact .cons hfirst (ih hunseen hlater)

/-- The same for an update of the multipliers. -/
theorem forall₂_moveDuals_of (mu : α) (hself : ∀ c ∈ constraints, R c c)
    (hmoved : ∀ c ∈ constraints, ∀ dual, R c { c with dual := dual }) :
    List.Forall₂ R constraints (moveDuals mu constraints).1 := by
  induction constraints with
  | nil => exact .nil
  | cons c rest ih =>
      obtain ⟨hfirst, hlater⟩ := List.forall_mem_cons.1 hmoved
      obtain ⟨_, hunmoved⟩ := List.forall_mem_cons.1 hself
      simp only [moveDuals]
      split
      · exact List.forall₂_same.2 hself
      · exact .cons (hfirst _) (ih hunmoved hlater)

variable {memory : Memory α}

/-- An observation of constraints none of which fails. -/
theorem evaluateAll_of_ok {value : Constraint α → α}
    (h : ∀ c ∈ constraints,
      (Graph.valueAtStorage Multipliers.none memory c.graph).result = .ok (value c)) :
    (evaluateAll memory constraints).state = constraints.map (fun c =>
        { c with
          graph := (Graph.valueAtStorage Multipliers.none memory c.graph).state
          value := value c }) ∧
      (evaluateAll memory constraints).result = .ok (constraints.map value) := by
  induction constraints with
  | nil => exact ⟨rfl, rfl⟩
  | cons c rest ih =>
      obtain ⟨hstate, hresult⟩ := ih fun d hd => h d (List.mem_cons_of_mem c hd)
      have hc := h c (by simp)
      simp only [evaluateAll, evaluate, hc, hstate, hresult]
      exact ⟨rfl, rfl⟩

/-- Constraints whose observation does not fail can be observed one by one. -/
theorem valueAtStorage_of_evaluateAll {values : List α}
    (h : (evaluateAll memory constraints).result = .ok values) :
    ∀ c ∈ constraints,
      ∃ value, (Graph.valueAtStorage Multipliers.none memory c.graph).result = .ok value := by
  induction constraints generalizing values with
  | nil => simp
  | cons c rest ih =>
      cases hvalue : (Graph.valueAtStorage Multipliers.none memory c.graph).result with
      | error fault =>
          simp only [evaluateAll, evaluate, hvalue] at h
          cases h
      | ok value =>
          simp only [evaluateAll, evaluate, hvalue] at h
          obtain ⟨more, hmore, _⟩ := Action.of_map_eq_ok h
          exact List.forall_mem_cons.2 ⟨⟨value, hvalue⟩, ih hmore⟩

/-- What an observation that succeeds has seen, and that it is remembered. -/
theorem exists_value_of_evaluateAll {values : List α}
    (h : (evaluateAll memory constraints).result = .ok values) :
    ∃ value : Constraint α → α,
      (∀ c ∈ constraints,
        (Graph.valueAtStorage Multipliers.none memory c.graph).result = .ok (value c)) ∧
      values = constraints.map value ∧
      (evaluateAll memory constraints).state = constraints.map fun c =>
        { c with
          graph := (Graph.valueAtStorage Multipliers.none memory c.graph).state
          value := value c } := by
  have : Nonempty α := ⟨0⟩
  choose! value hvalue using valueAtStorage_of_evaluateAll h
  obtain ⟨hstate, hresult⟩ := evaluateAll_of_ok hvalue
  exact ⟨value, hvalue, Except.ok.inj (h.symm.trans hresult), hstate⟩

end Constraint

namespace Run

variable {α σ : Type}

@[simp] theorem result_modifyResults (f : Results α → Results α) (r : Run α σ) :
    (modifyResults f r).result = .ok () := rfl

@[simp] theorem state_say (s : Solver α σ) (event : Event α) (r : Run α σ) :
    (say s event r).state = r := rfl

@[simp] theorem result_say (s : Solver α σ) (event : Event α) (r : Run α σ) :
    (say s event r).result = .ok () := rfl

variable [Backend α] {s : Solver α σ} {P : Run α σ → Prop}

/-- Whether a property survives every step of a round. -/
structure Kept (s : Solver α σ) (P : Run α σ → Prop) : Prop where
  minimize : Action.Keeps P (minimize s)
  objective : Action.Keeps P objectiveValue
  constraints : Action.Keeps P constraintValues
  duals : ∀ r, P r → P (onProblem (Problem.onConstraints
    (Action.run (Constraint.moveDuals r.problem.outer.mu))) r).state
  penalty : Action.Keeps P (modifyOuter fun o => { o with mu := o.mu * penaltyFactor })
  outer : ∀ f : OuterState α → OuterState α, (∀ o, (f o).mu = o.mu) →
    Action.Keeps P (modifyOuter f)
  results : ∀ f : Results α → Results α, Action.Keeps P (modifyResults f)

theorem Kept.keeps_moveMultipliers (h : Kept s P) (violation : α) :
    Action.Keeps P (moveMultipliers s violation) := by
  intro r hr
  have hmoved := h.duals r hr
  unfold moveMultipliers
  refine Action.state_bind (fun _ _ => hr) fun before hbefore => ?_
  cases hbefore
  refine Action.state_bind (fun _ _ => hmoved) fun _ _ => ?_
  refine Action.state_bind (fun _ _ => hmoved) fun after hafter => ?_
  cases hafter
  refine Action.state_bind (fun _ _ => hmoved) fun _ _ => ?_
  refine Action.state_bind (fun _ _ => hmoved) fun _ _ => ?_
  refine Action.state_bind (fun _ _ => hmoved) fun relative _ => ?_
  split
  · exact hmoved
  · refine Action.state_bind (fun _ _ => hmoved) fun _ _ => ?_
    refine Action.state_bind (fun _ _ => hmoved) fun nu _ => ?_
    exact h.outer (fun o => { o with nu := nu }) (fun _ => rfl) _ hmoved

theorem Kept.keeps_raisePenalty (h : Kept s P) : Action.Keeps P (raisePenalty s) := by
  refine .bind h.penalty fun _ => ?_
  refine .bind (.of_state_eq fun _ => rfl) fun q => ?_
  refine .bind (.of_state_eq fun _ => rfl) fun nu => ?_
  refine .bind (h.outer (fun o => { o with nu := nu }) fun _ => rfl) fun _ => ?_
  exact .bind (.of_state_eq fun _ => rfl) fun _ => .of_state_eq fun _ => rfl

theorem state_listMultipliers (s : Solver α σ) (r : Run α σ) : (listMultipliers s r).state = r := by
  have hlines (events : List (Event α)) : (events.forM (say s) r).state = r := by
    induction events with
    | nil => rfl
    | cons event rest ih =>
        show ((say s event >>= fun _ => rest.forM (say s)) r).state = r
        exact Action.state_bind (P := fun q => q = r) (fun _ _ => rfl) fun _ _ => ih
  unfold listMultipliers
  refine Action.state_bind (P := fun q => q = r) (fun _ _ => rfl) fun _ hget => ?_
  cases hget
  exact hlines _

/-- What survives the steps of a round survives the round. -/
theorem Kept.keeps_round (h : Kept s P) : Action.Keeps P (round s) := by
  unfold round
  refine .bind h.minimize fun inner => ?_
  refine .bind h.objective fun f => ?_
  refine .bind (.of_state_eq fun _ => rfl) fun _ => ?_
  refine .bind (h.results _) fun _ => ?_
  refine .bind h.constraints fun values => ?_
  refine .bind (.of_state_eq fun _ => rfl) fun q => ?_
  refine .bind (.of_state_eq fun _ => rfl) fun _ => ?_
  refine .bind (h.results _) fun _ => ?_
  refine .bind (.of_state_eq fun _ => rfl) fun stalled => ?_
  have hlast : Action.Keeps P (do
      listMultipliers s
      modifyOuter fun o => { o with previous := some f, iterations := o.iterations + 1 }
      return (none : Option ExitCondition) : Action (Run α σ) α (Option ExitCondition)) := by
    refine .bind (.of_state_eq fun r => state_listMultipliers s r) fun _ => ?_
    exact .bind (h.outer _ fun _ => rfl) fun _ => .of_state_eq fun _ => rfl
  split
  · exact .of_state_eq fun _ => rfl
  · split
    · refine .bind (h.keeps_moveMultipliers _) fun rested => ?_
      split
      · exact .of_state_eq fun _ => rfl
      · exact hlast
    · exact .bind h.keeps_raisePenalty fun _ => hlast

theorem Kept.keeps_rounds (h : Kept s P) (left : Nat) : Action.Keeps P (rounds s left) := by
  induction left with
  | zero =>
      refine .bind h.keeps_round fun exit => ?_
      cases exit <;> exact .of_state_eq fun _ => rfl
  | succ left ih =>
      refine .bind h.keeps_round fun exit => ?_
      cases exit with
      | none => exact ih
      | some exit => exact .of_state_eq fun _ => rfl

/-- What survives the steps of a round and the beginning of a solve survives the solve. -/
theorem Kept.keeps_solve (h : Kept s P) (hreset : Action.Keeps P reset) :
    Action.Keeps P (solve s) := by
  refine .bind (h.results _) fun _ => ?_
  refine .bind (.of_state_eq fun _ => rfl) fun q => ?_
  dsimp only
  split
  · exact h.results _
  · refine .bind hreset fun _ => ?_
    exact .bind (h.keeps_rounds _) fun _ => h.results _

end Run

end Separable
