import Separable.Proofs.Gradient
import Separable.Proofs.Multipliers
import Separable.Proofs.Rest

/-!
# What a solved problem is worth

A round lets a solver do what it likes to the combined graph and to the caller's storage. What the
loop itself keeps, whatever the solver does, is `Run.Sane`: the settings stay as they are, the
penalty parameter is positive, and no multiplier is negative.

When the loop stops because the multipliers have come to rest, the last thing that was observed is
still true, and what the last test has compared are real numbers. So the final state carries a
certificate (`Run.Certified`): each constraint is nearly satisfied, a constraint without a
multiplier is satisfied, and one with a multiplier is nearly tight.

## Main results

* `kept_sane`: what every round keeps.
* `certified_of_moveMultipliers`: the certificate, from the test that ends the loop.
* `certified_of_solve`: every solve that ends with a gradient tolerance is certified.
-/

namespace Separable

open Scalar

namespace Run

variable {σ : Type}

/-! ## What the loop keeps -/

/-- What is true of a solve between any two of its steps. -/
structure Sane (config : Config ℝ) (r : Run ℝ σ) : Prop where
  config : r.problem.config = config
  penalty : 0 < r.problem.outer.mu
  duals : ∀ dual ∈ r.problem.constraints.map (·.dual), 0 ≤ dual

variable {config : Config ℝ} {r : Run ℝ σ}

/-- Only settings, penalty parameter and multipliers matter. -/
theorem Sane.of_eq {q : Run ℝ σ} (h : r.Sane config) (hconfig : q.problem.config = r.problem.config)
    (hmu : q.problem.outer.mu = r.problem.outer.mu)
    (hduals : q.problem.constraints.map (·.dual) = r.problem.constraints.map (·.dual)) :
    q.Sane config where
  config := hconfig.trans h.config
  penalty := hmu ▸ h.penalty
  duals := hduals ▸ h.duals

theorem sane_minimize (h : r.Sane config) (s : Solver ℝ σ) : (minimize s r).state.Sane config :=
  h.of_eq rfl rfl rfl

theorem sane_objectiveValue (h : r.Sane config) : (objectiveValue r).state.Sane config :=
  h.of_eq rfl rfl rfl

theorem sane_constraintValues (h : r.Sane config) : (constraintValues r).state.Sane config :=
  h.of_eq rfl rfl (Constraint.map_dual_evaluateAll r.memory r.problem.constraints)

theorem sane_modifyResults (h : r.Sane config) (f : Results ℝ → Results ℝ) :
    (modifyResults f r).state.Sane config :=
  h.of_eq rfl rfl rfl

theorem sane_moveDuals (h : r.Sane config) :
    (onProblem (Problem.onConstraints
      (Action.run (Constraint.moveDuals r.problem.outer.mu))) r).state.Sane config := by
  refine ⟨h.config, h.penalty, fun dual hdual => ?_⟩
  have hstate : (onProblem (Problem.onConstraints
      (Action.run (Constraint.moveDuals r.problem.outer.mu))) r).state.problem.constraints =
      r.problem.constraints.map fun c =>
        { c with dual := Constraint.moved r.problem.outer.mu c.dual c.value } :=
    congrArg Prod.fst (Constraint.moveDuals_real h.penalty r.problem.constraints)
  rw [hstate, List.map_map] at hdual
  obtain ⟨c, _, rfl⟩ := List.mem_map.1 hdual
  exact Constraint.moved_nonneg h.penalty c.dual c.value

/-- What is true of a solve survives every round. -/
theorem kept_sane (config : Config ℝ) (s : Solver ℝ σ) : Kept s (Sane config) where
  minimize := fun _ h => sane_minimize h s
  objective := fun _ h => sane_objectiveValue h
  constraints := fun _ h => sane_constraintValues h
  duals := fun _ h => sane_moveDuals h
  penalty := by
    intro r h
    have hfactor : (0 : ℝ) < penaltyFactor := by
      unfold penaltyFactor
      norm_num
    exact ⟨h.config, mul_pos h.penalty hfactor, h.duals⟩
  outer := fun f hf r h => h.of_eq rfl (hf r.problem.outer) rfl
  results := fun f _ h => sane_modifyResults h f

/-! ## The certificate -/

/-- Whether the values of the last observation are those at the caller's storage. -/
structure Observed (r : Run ℝ σ) : Prop where
  constraints : ∀ c ∈ r.problem.constraints,
    (Graph.valueAtStorage Multipliers.none r.memory c.graph).result = .ok c.value
  objective : ∃ f, r.results.value = some f ∧
    (Graph.valueAtStorage Multipliers.none r.memory r.problem.objective).result = .ok f

/-- What a problem is worth whose multipliers have come to rest, up to a relative change of
`tolerance`: the values that are remembered are those at the caller's storage, and multipliers and
values fit together as they do at a solution. -/
structure Certified (tolerance : ℝ) (r : Run ℝ σ) : Prop extends Observed r where
  feasible : ∀ c ∈ r.problem.constraints, c.value < 1e-8
  dual_nonneg : ∀ c ∈ r.problem.constraints, 0 ≤ c.dual
  slack : ∀ c ∈ r.problem.constraints, c.dual = 0 → c.value ≤ 0
  tight : ∀ c ∈ r.problem.constraints, 0 < c.dual →
    |c.value| < tolerance * ((r.problem.constraints.map (·.dual)).foldl max 0 + tolerance) /
      r.problem.outer.mu

theorem foldl_larger_real (xs : List ℝ) (start : ℝ) : xs.foldl larger start = xs.foldl max start := by
  have hlarger : (larger : ℝ → ℝ → ℝ) = max := funext fun a => funext fun b => larger_real a b
  rw [hlarger]

/-- The relative change of the multipliers is a change over something positive. -/
theorem foldl_max_add_pos {tolerance : ℝ} (htolerance : 0 < tolerance) (xs : List ℝ) :
    0 < xs.foldl max 0 + tolerance := by
  have hnonneg : 0 ≤ xs.foldl max 0 := by
    have hle := le_foldl_max id (List.mem_cons_self (a := 0) (l := xs)) (0 : ℝ)
    simpa using hle
  exact add_pos_of_nonneg_of_pos hnonneg htolerance

theorem run_moveDuals (h : r.Sane config) :
    (onProblem (Problem.onConstraints (Action.run (Constraint.moveDuals r.problem.outer.mu))) r :
      Outcome (Run ℝ σ) ℝ Unit) =
    ⟨{ r with problem := { r.problem with constraints := r.problem.constraints.map fun c =>
      { c with dual := Constraint.moved r.problem.outer.mu c.dual c.value } } }, [], .ok ()⟩ := by
  simp only [onProblem, Problem.onConstraints, Action.within, Action.run,
    Constraint.moveDuals_real h.penalty]

/-- What a true verdict on the multipliers has compared. -/
theorem of_moveMultipliers_eq_true (h : r.Sane config) (htolerance : 0 < config.dualTolerance)
    {s : Solver ℝ σ} {violation : ℝ} (hresult : (moveMultipliers s violation r).result = .ok true) :
    ∃ moved : List (Constraint ℝ),
      moved = r.problem.constraints.map (fun c =>
        { c with dual := Constraint.moved r.problem.outer.mu c.dual c.value }) ∧
      (moveMultipliers s violation r).state =
        { r with problem := { r.problem with constraints := moved } } ∧
      violation < 1e-8 ∧
      (r.problem.constraints.zipWith (fun c d => |c.dual - d.dual|) moved).foldl max 0 <
        config.dualTolerance *
          ((moved.map fun d => |d.dual|).foldl max 0 + config.dualTolerance) := by
  have hpositive := foldl_max_add_pos htolerance
  have hmoved := congrArg Prod.fst
    (Constraint.moveDuals_real h.penalty r.problem.constraints)
  obtain ⟨_, hstate, hviolation, relative, hrelative, hcompared⟩ :=
    of_moveMultipliers_rested hmoved.symm hresult
  refine ⟨_, rfl, hstate, (lt_real _ _).mp hviolation, ?_⟩
  simp only [foldl_larger_real, h.config] at hrelative hcompared
  rw [divide_real (hpositive _).ne'] at hrelative
  cases hrelative
  rw [lt_real, div_lt_iff₀ (hpositive _)] at hcompared
  exact hcompared

/-- The certificate, from the test that ends the loop. -/
theorem certified_of_moveMultipliers (h : r.Sane config) (hobserved : r.Observed)
    (htolerance : 0 < config.dualTolerance) {s : Solver ℝ σ}
    (hresult : (moveMultipliers s
      (largestViolation (r.problem.constraints.map (·.value))) r).result = .ok true) :
    (moveMultipliers s (largestViolation (r.problem.constraints.map (·.value))) r).state.Certified
      config.dualTolerance := by
  obtain ⟨moved, hmoved, hstate, hviolation, hchange⟩ :=
    of_moveMultipliers_eq_true h htolerance hresult
  have hmu := h.penalty
  rw [hstate]
  have hnonneg : ∀ d ∈ moved, 0 ≤ d.dual := by
    intro d hd
    rw [hmoved] at hd
    obtain ⟨c, _, rfl⟩ := List.mem_map.1 hd
    exact Constraint.moved_nonneg hmu c.dual c.value
  have hsize : moved.map (fun d => |d.dual|) = moved.map (·.dual) :=
    List.map_congr_left fun d hd => abs_of_nonneg (hnonneg d hd)
  have hzip : r.problem.constraints.zipWith (fun c d => |c.dual - d.dual|) moved =
      r.problem.constraints.map fun c =>
        |c.dual - Constraint.moved r.problem.outer.mu c.dual c.value| := by
    rw [hmoved, List.zipWith_map_right, List.zipWith_self]
  rw [hsize, hzip] at hchange
  have hof : ∀ d ∈ moved, ∃ c ∈ r.problem.constraints, d.graph = c.graph ∧ d.value = c.value ∧
      d.dual = Constraint.moved r.problem.outer.mu c.dual c.value := by
    intro d hd
    rw [hmoved] at hd
    obtain ⟨c, hc, rfl⟩ := List.mem_map.1 hd
    exact ⟨c, hc, rfl, rfl, rfl⟩
  refine ⟨⟨fun d hd => ?_, hobserved.objective⟩, fun d hd => ?_, fun d hd => ?_, fun d hd hzero => ?_,
    fun d hd hpos => ?_⟩
  · obtain ⟨c, hc, hgraph, hvalue, _⟩ := hof d hd
    rw [hgraph, hvalue]
    exact hobserved.constraints c hc
  · obtain ⟨c, hc, _, hvalue, _⟩ := hof d hd
    have hle : c.value ≤ largestViolation (r.problem.constraints.map (·.value)) := by
      rw [largestViolation, foldl_larger_real]
      exact le_foldl_max id (List.mem_map_of_mem hc) 0
    rw [hvalue]
    exact lt_of_le_of_lt hle hviolation
  · exact hnonneg d hd
  · obtain ⟨c, hc, _, hvalue, hdual⟩ := hof d hd
    rw [hvalue]
    exact Constraint.nonpos_of_moved_eq_zero hmu (h.duals _ (List.mem_map_of_mem hc))
      (hdual ▸ hzero)
  · obtain ⟨c, hc, _, hvalue, hdual⟩ := hof d hd
    have hle : |c.dual - Constraint.moved r.problem.outer.mu c.dual c.value| ≤
        (r.problem.constraints.map fun c =>
          |c.dual - Constraint.moved r.problem.outer.mu c.dual c.value|).foldl max 0 := by
      rw [List.foldl_map]
      exact le_foldl_max (fun c : Constraint ℝ =>
        |c.dual - Constraint.moved r.problem.outer.mu c.dual c.value|) hc 0
    rw [hvalue, Constraint.abs_of_moved_pos hmu (hdual ▸ hpos)]
    exact div_lt_div_of_pos_right (lt_of_le_of_lt hle hchange) hmu

/-! ## The loop -/

/-- A round that ends the loop because the multipliers have come to rest. -/
theorem certified_of_round (h : r.Sane config) (htolerance : 0 < config.dualTolerance)
    {s : Solver ℝ σ} (hresult : (round s r).result = .ok (some .gradientTolerance)) :
    (round s r).state.Certified config.dualTolerance := by
  obtain ⟨f, values, q, hsane, hseen, hrested, hstate⟩ :=
    of_round_rested (kept_sane config s) h hresult
  have hobserved : q.Observed := ⟨hseen.constraints, f, hseen.result, hseen.objective⟩
  rw [hseen.values] at hrested hstate
  rw [hstate]
  exact certified_of_moveMultipliers hsane hobserved htolerance hrested

theorem certified_of_rounds {left : Nat} (h : r.Sane config) (htolerance : 0 < config.dualTolerance)
    {s : Solver ℝ σ} (hresult : (rounds s left r).result = .ok .gradientTolerance) :
    (rounds s left r).state.Certified config.dualTolerance := by
  obtain ⟨q, hsane, hround, hstate⟩ := of_rounds_rested (kept_sane config s) h hresult
  rw [hstate]
  exact certified_of_round hsane htolerance hround

/-- The loop starts with a positive penalty parameter and multipliers that are zero. -/
theorem sane_reset {r : Run ℝ σ} (hresult : (reset r).result = .ok ()) :
    (reset r).state.Sane r.problem.config := by
  unfold reset at hresult ⊢
  obtain ⟨_, _, hresult, hstate₁⟩ := Action.of_result_bind_eq_ok hresult
  obtain ⟨nu, _, hresult, hstate₂⟩ := Action.of_result_bind_eq_ok hresult
  obtain ⟨_, _, hresult, hstate₃⟩ := Action.of_result_bind_eq_ok hresult
  rw [hstate₁, hstate₂, hstate₃]
  refine ⟨rfl, ?_, fun dual hdual => ?_⟩
  · show (0 : ℝ) < initialPenalty
    unfold initialPenalty
    norm_num
  · obtain ⟨c, hc, rfl⟩ := List.mem_map.1 hdual
    obtain ⟨d, _, rfl⟩ := List.mem_map.1 hc
    exact le_refl 0

/-! ## Solves that end in the first round -/

/-- The multipliers have come to rest if the violation is negligible and they have hardly moved. -/
theorem result_moveMultipliers_of_rest (h : r.Sane config) (htolerance : 0 < config.dualTolerance)
    {s : Solver ℝ σ} {violation : ℝ} {moved : List (Constraint ℝ)}
    (hmoved : moved = r.problem.constraints.map fun c =>
      { c with dual := Constraint.moved r.problem.outer.mu c.dual c.value })
    (hviolation : violation < 1e-8)
    (hchange : (r.problem.constraints.zipWith (fun c d => |c.dual - d.dual|) moved).foldl max 0 <
      config.dualTolerance *
        ((moved.map fun d => |d.dual|).foldl max 0 + config.dualTolerance)) :
    (moveMultipliers s violation r).result = .ok true := by
  have hpositive := foldl_max_add_pos htolerance
  have hmove := run_moveDuals h
  rw [← hmoved] at hmove
  unfold moveMultipliers
  rw [Action.result_bind_of_ok (Action.result_get _), Action.state_get]
  rw [Action.result_bind_of_ok (congrArg Outcome.result hmove), hmove]
  rw [Action.result_bind_of_ok (Action.result_get _), Action.state_get]
  rw [Action.result_bind_of_ok (Action.result_emit _ _ _), Action.state_emit]
  rw [Action.result_bind_of_ok (result_say s _ _)]
  rw [Action.result_bind_of_ok (b := _) (by
    rw [Action.result_ofExcept]
    simp only [foldl_larger_real, h.config]
    exact divide_real (hpositive _).ne')]
  rw [if_pos]
  · rfl
  · rw [Bool.and_eq_true, lt_real, lt_real, h.config, div_lt_iff₀ (hpositive _)]
    exact ⟨hchange, hviolation⟩

/-- A round ends the loop if the point that the solver has reached is nearly feasible and the
multipliers have come to rest there. -/
theorem result_round_of_rest (h : r.Sane config) (htolerance : 0 < config.dualTolerance)
    {s : Solver ℝ σ} {inner : Results ℝ} {f : ℝ} {values : List ℝ}
    (hminimize : (minimize s r).result = .ok inner)
    (hf : (objectiveValue (minimize s r).state).result = .ok f)
    (hvalues : (Constraint.evaluateAll (minimize s r).state.memory r.problem.constraints).result =
      .ok values)
    (hstalled : isStalled config.improvementTolerance f r.problem.outer.previous = .ok false)
    (hle : largestViolation values ≤ r.problem.outer.nu) (hviolation : largestViolation values < 1e-8)
    {observed moved : List (Constraint ℝ)}
    (hobserved : observed = (Constraint.evaluateAll (minimize s r).state.memory
      r.problem.constraints).state)
    (hmoved : moved = observed.map fun c =>
      { c with dual := Constraint.moved r.problem.outer.mu c.dual c.value })
    (hchange : (observed.zipWith (fun c d => |c.dual - d.dual|) moved).foldl max 0 <
      config.dualTolerance *
        ((moved.map fun d => |d.dual|).foldl max 0 + config.dualTolerance)) :
    (round s r).result = .ok (some .gradientTolerance) := by
  have hconstraints (results : Results ℝ → Results ℝ) : (constraintValues
      (modifyResults results (objectiveValue (minimize s r).state).state).state).result =
        .ok values := hvalues
  unfold round
  rw [Action.result_bind_of_ok hminimize, Action.result_bind_of_ok hf]
  rw [Action.result_bind_of_ok (Action.result_get _), Action.state_get]
  rw [Action.result_bind_of_ok (result_modifyResults _ _), Action.result_bind_of_ok (hconstraints _)]
  rw [Action.result_bind_of_ok (Action.result_get _), Action.state_get]
  rw [Action.result_bind_of_ok (result_say s _ _), Action.result_bind_of_ok (result_modifyResults _ _)]
  rw [Action.result_bind_of_ok (b := false) (by
    rw [← hstalled, ← h.config]
    rfl)]
  have hle' : le (largestViolation values) r.problem.outer.nu = true := (le_real _ _).mpr hle
  rw [if_neg (by decide), if_pos]
  · rw [Action.state_ofExcept, state_say, Action.result_bind_of_ok (b := true) (by
      refine result_moveMultipliers_of_rest (sane_modifyResults (sane_constraintValues
        (sane_modifyResults (sane_objectiveValue (sane_minimize h s)) _)) _) htolerance rfl
          hviolation ?_
      rw [hmoved, hobserved] at hchange
      exact hchange)]
    rfl
  · exact hle'

/-- A solve whose first round ends the loop. -/
theorem result_solve_of_round {s : Solver ℝ σ} {r : Run ℝ σ}
    (hvars : r.problem.combined.registry.slots.isEmpty = false) {started : Run ℝ σ}
    (hstarted : started = (modifyResults (fun results => { results with exit := .internalError })
      r).state)
    (hreset : (reset started).result = .ok ())
    (hround : (round s (reset started).state).result = .ok (some .gradientTolerance)) :
    (solve s r).result = .ok () ∧ (solve s r).state.results.exit = .gradientTolerance := by
  have hrounds (left : Nat) : (rounds s left (reset started).state).result =
      .ok .gradientTolerance := by
    cases left with
    | zero =>
        unfold rounds
        rw [Action.result_bind_of_ok hround]
        rfl
    | succ left =>
        unfold rounds
        rw [Action.result_bind_of_ok hround]
        rfl
  have hvars' : ¬started.problem.combined.registry.slots.isEmpty = true := by
    rw [hstarted, show (modifyResults _ r).state.problem = r.problem from rfl, hvars]
    decide
  unfold solve
  rw [Action.result_bind_of_ok (result_modifyResults _ _),
    Action.state_bind_of_ok (result_modifyResults _ _), ← hstarted]
  rw [Action.result_bind_of_ok (Action.result_get _), Action.state_bind_of_ok (Action.result_get _),
    Action.state_get]
  rw [if_neg hvars', Action.result_bind_of_ok hreset, Action.state_bind_of_ok hreset]
  rw [Action.result_bind_of_ok (hrounds _), Action.state_bind_of_ok (hrounds _)]
  exact ⟨rfl, rfl⟩

/-! ### A problem that is solved where it stands -/

/-- A graph whose only term is a constant. -/
theorem value_constant {g : Graph ℝ} (hg : g.Sound) {v : ℝ}
    (hterms : g.terms = [⟨.plain (.constant v), [], []⟩]) (memory : Memory ℝ) :
    (Graph.valueAtStorage Multipliers.none memory g).result = .ok v := by
  obtain ⟨total, hresult, hexact⟩ := Graph.valueAtStorage_of_ok Multipliers.none hg memory (by
    rw [hterms]
    rfl)
  rw [hresult, hexact inferInstance, hterms]
  show Except.ok (0 + v) = Except.ok v
  rw [zero_add]

/-- A solver that leaves everything as it is. -/
def idle : Solver ℝ Unit := ⟨false, fun s results => .done (s, results, .ok ())⟩

/-- A problem with one variable, a constant objective, and a constraint that is violated by
`1e-9`. -/
noncomputable def nearlyFeasible : Action (Problem ℝ) ℝ Unit := do
  let _ ← Problem.addVariable soleStorage none none
  Problem.addTerm (.constant 1) []
  let _ ← Problem.addConstraint "c" (.constant 1e-9) []

/-- Its solve, before it has begun. -/
noncomputable def nearby : Run ℝ Unit where
  problem := (nearlyFeasible
    ⟨⟨1, 1, 0.01, false⟩, 1, .empty false 1, .empty false 1, [], .fresh⟩).state
  memory := ⟨[[0]]⟩
  solver := ()
  results := .fresh

/-- The same solve, begun. -/
noncomputable def begun : Run ℝ Unit :=
  (modifyResults (fun results => { results with exit := .internalError }) nearby).state

/-- The graph of its constraint. -/
noncomputable def slightGraph : Graph ℝ :=
  (Graph.addTerm (.plain (.constant 1e-9)) [] (.empty false 1)).state

theorem evaluateAll_begun :
    (Constraint.evaluateAll begun.memory (reset begun).state.problem.constraints).state =
        [⟨"c", (Graph.valueAtStorage Multipliers.none begun.memory slightGraph).state, 0, 1e-9⟩] ∧
      (Constraint.evaluateAll begun.memory (reset begun).state.problem.constraints).result =
        .ok [1e-9] := by
  have hsound : slightGraph.Sound :=
    Graph.sound_addTerm (Graph.sound_empty false Nat.one_pos) _ _
  have hvalue := value_constant hsound rfl begun.memory
  have hconstraints : (reset begun).state.problem.constraints = [⟨"c", slightGraph, 0, 0⟩] := rfl
  rw [hconstraints]
  simp only [Constraint.evaluateAll, Constraint.evaluate, hvalue]
  exact ⟨trivial, rfl⟩

theorem objectiveValue_begun : (objectiveValue (reset begun).state).result = .ok 1 := by
  have hobjective : (reset begun).state.problem.objective =
      (Graph.addTerm (.plain (.constant 1)) []
        (Graph.addVariable soleStorage none none (.empty false 1)).state).state := rfl
  have hsound : (reset begun).state.problem.objective.Sound := by
    rw [hobjective]
    exact Graph.sound_addTerm
      (Graph.sound_addVariable (Graph.sound_empty false Nat.one_pos) _ _ _) _ _
  exact value_constant hsound rfl begun.memory

theorem moved_begun : Constraint.moved (reset begun).state.problem.outer.mu 0 1e-9 = 1e-8 := by
  show Constraint.moved (10.0 : ℝ) 0 1e-9 = 1e-8
  unfold Constraint.moved
  norm_num

theorem round_begun :
    (round idle (reset begun).state).result = .ok (some .gradientTolerance) := by
  obtain ⟨hstate, hvalues⟩ := evaluateAll_begun
  have hstalled : isStalled (1 : ℝ) 1 none = .ok false := by
    unfold isStalled
    rw [magnitude_real, divide_real (by norm_num)]
    rfl
  have hsmall : largestViolation ([1e-9] : List ℝ) = 1e-9 := by
    unfold largestViolation
    rw [foldl_larger_real, List.foldl_cons, List.foldl_nil]
    norm_num
  have hnu : (1e-9 : ℝ) ≤ (reset begun).state.problem.outer.nu := by
    show (1e-9 : ℝ) ≤ (10.0 : ℝ) ^ (-0.1 : ℝ)
    calc (1e-9 : ℝ) ≤ (10.0 : ℝ) ^ (-1 : ℝ) := by
          rw [Real.rpow_neg_one]
          norm_num
      _ ≤ (10.0 : ℝ) ^ (-0.1 : ℝ) :=
          Real.rpow_le_rpow_of_exponent_le (by norm_num) (by norm_num)
  refine @result_round_of_rest Unit ⟨1, 1, 0.01, false⟩ _ (@sane_reset Unit begun rfl) ?_ idle
    .fresh 1 [1e-9] rfl objectiveValue_begun hvalues hstalled ?_ ?_ _ _
      hstate.symm rfl ?_
  · norm_num
  · rw [hsmall]
    exact hnu
  · rw [hsmall]
    norm_num
  · simp only [List.map_cons, List.map_nil, List.zipWith_cons_cons, List.zipWith_nil_left,
      List.foldl_cons, List.foldl_nil, moved_begun]
    norm_num [abs_of_pos, abs_of_neg]

/-! ## The certificate of a solve -/

/-- Every solve that ends because the multipliers have come to rest is certified. -/
theorem certified_of_solve (s : Solver ℝ σ) (r : Run ℝ σ)
    (htolerance : 0 < r.problem.config.dualTolerance) (hok : (solve s r).result = .ok ())
    (hexit : (solve s r).state.results.exit = .gradientTolerance) :
    (solve s r).state.Certified r.problem.config.dualTolerance := by
  unfold solve at hok hexit ⊢
  obtain ⟨_, _, hok, hstate₁⟩ := Action.of_result_bind_eq_ok hok
  obtain ⟨q, hq, hok, hstate₂⟩ := Action.of_result_bind_eq_ok hok
  cases hq
  rw [hstate₁, hstate₂] at hexit ⊢
  clear hstate₁ hstate₂
  dsimp only at hok hexit ⊢
  split at hok
  · next hempty =>
    rw [if_pos hempty] at hexit
    cases hexit
  · next hempty =>
    rw [if_neg hempty] at hexit ⊢
    obtain ⟨_, hreset, hok, hstate₃⟩ := Action.of_result_bind_eq_ok hok
    obtain ⟨exit, hrounds, hok, hstate₄⟩ := Action.of_result_bind_eq_ok hok
    rw [hstate₃, hstate₄] at hexit ⊢
    have hend : exit = .gradientTolerance := hexit
    subst hend
    have hcertified := certified_of_rounds (sane_reset hreset) htolerance hrounds
    exact ⟨⟨hcertified.constraints, hcertified.objective⟩, hcertified.feasible,
      hcertified.dual_nonneg, hcertified.slack, hcertified.tight⟩

/-- The problem that is solved where it stands has a certificate. -/
theorem certified_nearby : (solve idle nearby).result = .ok () ∧
    (solve idle nearby).state.results.exit = .gradientTolerance ∧
    (solve idle nearby).state.Certified 0.01 := by
  obtain ⟨hok, hexit⟩ := result_solve_of_round (s := idle) (r := nearby) rfl rfl rfl round_begun
  have htolerance : (0 : ℝ) < nearby.problem.config.dualTolerance := by
    show (0 : ℝ) < 0.01
    norm_num
  exact ⟨hok, hexit, certified_of_solve idle nearby htolerance hok hexit⟩

end Run

end Separable
