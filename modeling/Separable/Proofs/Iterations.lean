import Separable.Proofs.Schedule

/-!
# The counts of a solve

A solve keeps several counts that have to agree: the iterations in its results, the iterations in
the outer state, the evaluations that the solver reports, and the value evaluations that the graphs
of the objective and of the constraints count for themselves. All of them are tied to one number,
the turns that the solver has had.

A round adds one to each of them, except that a round which ends the loop because something is
below its tolerance is not counted in the outer state. That is all that there is to follow, from
round to round along the loop. The limit comes in at the end only: the loop runs out of iterations
exactly when the count in the outer state has reached it, and that count is tested after a round
and not before, so that there is a first round under any limit, zero and negative ones included.

## Main results

* `Counted.of_round`: what one round adds to the counts.
* `tallied_of_loop`: the counts at the end of a loop.
* `Loop.reached`: what has been counted and kept when a round starts.
* `iterations_of_solve`: a solve lets the solver take its turn at least once, and at most as often
  as the limit allows; all its counts follow from this number.
-/

namespace Separable

open Scalar

variable {α : Type} [Backend α]

namespace Constraint

/-- A constraint's name, and how often its graph has been evaluated. -/
def counter (c : Constraint α) : String × Nat := (c.name, c.graph.valueCount)

/-- An observation of the constraints that does not fail evaluates each of them once. -/
theorem map_counter_evaluateAll {memory : Memory α} {constraints : List (Constraint α)}
    {values : List α} (h : (evaluateAll memory constraints).result = .ok values) :
    (evaluateAll memory constraints).state.map counter =
      constraints.map fun c => (c.name, c.graph.valueCount + 1) := by
  obtain ⟨value, _, _, hstate⟩ := exists_value_of_evaluateAll h
  rw [hstate, List.map_map]
  refine List.map_congr_left fun c _ => Prod.ext rfl ?_
  show (Graph.valueAtStorage Multipliers.none memory c.graph).state.valueCount = _
  rw [(Graph.valueAtStorage_eq Multipliers.none memory c.graph).1]

end Constraint

namespace Run

variable {σ : Type} {s : Solver α σ}

/-! ## One round -/

/-- What some rounds add to the counts: `turns` evaluations of the objective and of every
constraint, and the evaluations that the solver has reported. -/
structure Counted (turns : Nat) (evaluations : Int) (q q' : Run α σ) : Prop where
  config : q'.problem.config = q.problem.config
  evaluations : q'.results.evaluations = q.results.evaluations + evaluations
  objective : q'.problem.objective.valueCount = q.problem.objective.valueCount + turns
  constraints : q'.problem.constraints.map Constraint.counter =
    q.problem.constraints.map fun c => (c.name, c.graph.valueCount + turns)

omit [Backend α] in
theorem Counted.trans {m n : Nat} {a b : Int} {q q' q'' : Run α σ} (h : Counted m a q q')
    (h' : Counted n b q' q'') : Counted (m + n) (a + b) q q'' where
  config := h'.config.trans h.config
  evaluations := by rw [h'.evaluations, h.evaluations, add_assoc]
  objective := by rw [h'.objective, h.objective, add_assoc]
  constraints := by
    have hlater := congrArg (List.map fun t : String × Nat => (t.1, t.2 + n)) h.constraints
    rw [List.map_map, List.map_map] at hlater
    rw [h'.constraints]
    refine hlater.trans (List.map_congr_left fun c _ => ?_)
    exact congrArg (Prod.mk c.name) (add_assoc _ _ _)

/-- How a round goes on evaluates nothing and leaves the results alone. The outer state counts it
unless it ends the loop. -/
theorem Verdict.kept {f violation : α} {q q' : Run α σ} {exit : Option ExitCondition}
    (h : Verdict s f violation q exit q') :
    q'.problem.config = q.problem.config ∧ q'.results = q.results ∧
      q'.problem.objective = q.problem.objective ∧
      q'.problem.constraints.map Constraint.counter = q.problem.constraints.map Constraint.counter ∧
      q'.problem.outer.iterations =
        q.problem.outer.iterations + if exit.isNone then 1 else 0 := by
  have hduals := Constraint.map_moveDuals Constraint.counter (fun _ _ => rfl)
    q.problem.outer.mu q.problem.constraints
  cases h with
  | stalled => exact ⟨rfl, rfl, rfl, rfl, rfl⟩
  | rested _ _ hmoved =>
      obtain ⟨_, hstate, _⟩ := of_moveMultipliers_rested rfl hmoved
      rw [hstate]
      exact ⟨rfl, rfl, rfl, hduals, rfl⟩
  | moved _ _ hmoved =>
      obtain ⟨moved, _, _, hmoves, _, _, hstate⟩ := of_moveMultipliers_moved hmoved
      rw [hmoves] at hduals
      rw [hstate]
      exact ⟨rfl, rfl, rfl, hduals, rfl⟩
  | raised _ _ hraised =>
      obtain ⟨_, _, hstate⟩ := of_raisePenalty hraised
      rw [hstate]
      exact ⟨rfl, rfl, rfl, rfl, rfl⟩

/-- The value of the objective is kept for the next round. -/
theorem Verdict.previous {f violation : α} {q q' : Run α σ} (h : Verdict s f violation q none q') :
    q'.problem.outer.previous = some f := by
  cases h with
  | moved => rfl
  | raised => rfl

/-- What one round adds to the counts. Its number in the results is one more than the outer state
has counted before it. -/
theorem Counted.of_round {q : Run α σ} {exit : Option ExitCondition}
    (h : (round s q).result = .ok exit) : ∃ inner, (minimize s q).result = .ok inner ∧
      Counted 1 inner.evaluations q (round s q).state ∧
      (round s q).state.results.iterations = q.problem.outer.iterations + 1 ∧
      (round s q).state.problem.outer.iterations =
        q.problem.outer.iterations + if exit.isNone then 1 else 0 := by
  obtain ⟨inner, f, values, hinner, _, hvalues, hverdict⟩ := of_round_eq_ok h
  obtain ⟨hconfig, hresults, hobjective, hconstraints, hiterations⟩ := hverdict.kept
  have hcount := (Graph.valueAtStorage_eq Multipliers.none (minimize s q).state.memory
    q.problem.objective).1
  refine ⟨inner, hinner, ⟨hconfig, ?_, ?_, ?_⟩, ?_, hiterations⟩
  · rw [hresults]
    rfl
  · rw [hobjective]
    exact congrArg Graph.valueCount hcount
  · rw [hconstraints]
    exact Constraint.map_counter_evaluateAll hvalues
  · rw [hresults]
    rfl

/-- A round without a previous value of the objective does not find that it has stalled, and no
round finds that the iterations have run out. -/
theorem exit_of_round {q : Run α σ} {exit : ExitCondition}
    (h : (round s q).result = .ok (some exit)) :
    exit = .functionTolerance ∧ q.problem.outer.previous ≠ none ∨ exit = .gradientTolerance := by
  obtain ⟨inner, f, _, _, _, _, hverdict⟩ := of_round_eq_ok h
  generalize (round s q).state = last at hverdict
  cases hverdict with
  | rested => exact .inr rfl
  | stalled hstalled =>
      refine .inl ⟨rfl, fun hnone => ?_⟩
      have hfirst : (observed s inner f q).problem.outer.previous = none := hnone
      rw [hfirst] at hstalled
      obtain ⟨_, _, hfalse⟩ := Action.of_map_eq_ok hstalled
      cases hfalse

/-! ## The loop -/

/-- The counts at the end of a loop that has given the solver so many turns, in which it has
reported so many evaluations. -/
structure Tallied (turns : Nat) (evaluations : Int) (q last : Run α σ) (exit : ExitCondition) :
    Prop where
  counted : Counted turns evaluations q last
  iterations : last.results.iterations = q.problem.outer.iterations + turns
  exit : exit = .noConvergence ∧ last.Exhausted ∧
      last.problem.outer.iterations = q.problem.outer.iterations + turns ∨
    (exit = .functionTolerance ∧ (q.problem.outer.previous = none → 2 ≤ turns) ∨
        exit = .gradientTolerance) ∧
      last.problem.outer.iterations + 1 = q.problem.outer.iterations + turns

/-- The counts at the end of a loop. -/
theorem tallied_of_loop {turns : List (Run α σ)} {q last : Run α σ}
    {result : Except Fault ExitCondition} {exit : ExitCondition} (h : Loop s turns q last result)
    (hresult : result = .ok exit) : ∃ inners : List (Results α),
      turns.map (fun turn => (minimize s turn).result) = inners.map .ok ∧
      Tallied turns.length (inners.map (·.evaluations)).sum q last exit := by
  induction h with
  | failed => cases hresult
  | ended hround =>
      cases hresult
      obtain ⟨inner, hinner, hcounted, hnumber, hiterations⟩ := Counted.of_round hround
      refine ⟨[inner], by simp [hinner], ⟨by simpa using hcounted, hnumber, .inr ⟨?_, ?_⟩⟩⟩
      · obtain ⟨rfl, hprevious⟩ | rfl := exit_of_round hround
        · exact .inl ⟨rfl, fun hnone => absurd hnone hprevious⟩
        · exact .inr rfl
      · rw [hiterations]
        rfl
  | exhausted hround hlimit =>
      cases hresult
      obtain ⟨inner, hinner, hcounted, hnumber, hiterations⟩ := Counted.of_round hround
      exact ⟨[inner], by simp [hinner],
        ⟨by simpa using hcounted, hnumber, .inl ⟨rfl, hlimit, hiterations⟩⟩⟩
  | again hround _ hrest ih =>
      obtain ⟨inner, hinner, hcounted, _, hiterations⟩ := Counted.of_round hround
      obtain ⟨inners, hinners, hlater⟩ := ih hresult
      simp only [Option.isNone_none, if_true] at hiterations
      refine ⟨inner :: inners, by simp [hinner, hinners], ⟨?_, ?_, ?_⟩⟩
      · rw [List.length_cons, add_comm _ 1, List.map_cons, List.sum_cons]
        exact hcounted.trans hlater.counted
      · rw [hlater.iterations, hiterations, List.length_cons]
        omega
      · have hpositive := List.length_pos_iff.2 hrest.ne_nil
        rw [List.length_cons]
        obtain ⟨hexit, hlimit, hcount⟩ | ⟨⟨hexit, _⟩ | hexit, hcount⟩ := hlater.exit
        · exact .inl ⟨hexit, hlimit, by omega⟩
        · exact .inr ⟨.inl ⟨hexit, fun _ => by omega⟩, by omega⟩
        · exact .inr ⟨.inr hexit, by omega⟩

/-- What the solver and then the objective answer in a round. -/
def answers (s : Solver α σ) (q : Run α σ) : Except Fault (Results α) × Except Fault α :=
  ((minimize s q).result, (Graph.valueAtStorage Multipliers.none (minimize s q).state.memory
    q.problem.objective).result)

/-- When a round starts, the results hold the last value of the objective and the evaluations of the
rounds before it, and the outer state holds this value, too. -/
theorem Loop.reached {before after : List (Run α σ)} {r q last : Run α σ}
    {result : Except Fault ExitCondition} (h : Loop s (before ++ q :: after) r last result) :
    Loop s (q :: after) q last result ∧ q.results.exit = r.results.exit ∧
    ∃ seen : List (Results α × α),
      before.map (answers s) = seen.map (fun (inner, f) => (.ok inner, .ok f)) ∧
      q.results.value = (seen.getLast?.map (·.2)).or r.results.value ∧
      q.problem.outer.previous = (seen.getLast?.map (·.2)).or r.problem.outer.previous ∧
      q.results.evaluations = r.results.evaluations + (seen.map (·.1.evaluations)).sum := by
  induction before generalizing r with
  | nil =>
      have hfirst : q = r := by cases h <;> rfl
      subst hfirst
      exact ⟨h, rfl, [], rfl, rfl, rfl, by simp⟩
  | cons t rest ih =>
      -- More than one turn was taken, so the first round has led on.
      generalize hturns : t :: rest ++ q :: after = turns at h
      cases h with
      | failed | ended | exhausted => simp at hturns
      | @again turns _ _ _ hround hlimit hrest =>
          obtain ⟨rfl, rfl⟩ := List.cons.inj hturns
          obtain ⟨inner, f, values, hinner, hf, _, hverdict⟩ := of_round_eq_ok hround
          obtain ⟨_, hresults, _⟩ := hverdict.kept
          have hafter := hverdict.previous
          obtain ⟨hloop, hexit, seen, hseen, hvalue, hprevious, hevaluations⟩ := ih hrest
          rw [hresults] at hexit hvalue hevaluations
          refine ⟨hloop, hexit, (inner, f) :: seen, ?_, ?_, ?_, ?_⟩
          · rw [List.map_cons, List.map_cons, hseen, answers, hinner, hf]
          · rw [hvalue, List.getLast?_cons]
            cases seen.getLast? <;> rfl
          · rw [hprevious, hafter, List.getLast?_cons]
            cases seen.getLast? <;> rfl
          · rw [hevaluations, List.map_cons, List.sum_cons, ← add_assoc]
            rfl

/-! ## A whole solve -/

/-- A solve of a problem with variables is the unbounded loop, in which the solver takes its turn at
least once, and at most as often as the limit allows. If it returns, then the results count these
turns and the evaluations that the solver has reported in them, the objective and every constraint
have been evaluated once per turn, and the outer state counts the turns, but for the last one if
something was below its tolerance. The power from which the accepted violation starts has to be one
that the arithmetic can give. -/
theorem iterations_of_solve (s : Solver α σ) (r : Run α σ)
    (hvars : r.problem.combined.registry.vars ≠ [])
    (hpower : ∃ nu : α, power initialPenalty violationExponent = .ok nu) :
    ∃ turns last result, Loop s turns (restarted r) last result ∧
      1 ≤ turns.length ∧ (turns.length : Int) ≤ max 1 r.problem.config.maxIterations ∧
      (solve s r).state = noted last result ∧ (solve s r).result = result.map (fun _ => ()) ∧
      (r.results = .fresh → (solve s r).result = .ok () → ∃ inners : List (Results α),
        turns.map (fun turn => (minimize s turn).result) = inners.map .ok ∧
        (solve s r).state.results.iterations = turns.length ∧
        (solve s r).state.results.evaluations = (inners.map (·.evaluations)).sum ∧
        (solve s r).state.problem.objective.valueCount =
          r.problem.objective.valueCount + turns.length ∧
        (solve s r).state.problem.constraints.map (fun c => (c.name, c.graph.valueCount)) =
          r.problem.constraints.map (fun c => (c.name, c.graph.valueCount + turns.length)) ∧
        ((solve s r).state.results.exit = .noConvergence ∧
            (turns.length : Int) = max 1 r.problem.config.maxIterations ∧
            (solve s r).state.problem.outer.iterations = turns.length ∨
          ((solve s r).state.results.exit = .functionTolerance ∧ 2 ≤ turns.length ∨
              (solve s r).state.results.exit = .gradientTolerance) ∧
            (solve s r).state.problem.outer.iterations + 1 = turns.length)) := by
  obtain ⟨turns, last, result, hloop, hpositive, hlimit, hstate, hresult⟩ :=
    loop_of_solve s hvars hpower
  refine ⟨turns, last, result, hloop, hpositive, hlimit, hstate, hresult, fun hfresh hok => ?_⟩
  obtain ⟨exit, rfl, _⟩ := Action.of_map_eq_ok (hresult.symm.trans hok)
  obtain ⟨inners, hinners, htallied⟩ := tallied_of_loop hloop rfl
  have hzero : (restarted r).results.evaluations = 0 := congrArg Results.evaluations hfresh
  have hunstarted : (restarted r).problem.outer.iterations = 0 := rfl
  have hconstraints : (restarted r).problem.constraints.map
      (fun c => (c.name, c.graph.valueCount + turns.length)) =
        r.problem.constraints.map fun c => (c.name, c.graph.valueCount + turns.length) := by
    rw [restarted, List.map_map]
    rfl
  rw [hstate]
  refine ⟨inners, hinners, ?_, ?_, htallied.counted.objective,
    htallied.counted.constraints.trans hconstraints, ?_⟩
  · refine htallied.iterations.trans ?_
    rw [hunstarted]
    omega
  · refine htallied.counted.evaluations.trans ?_
    rw [hzero, zero_add]
  · obtain ⟨hexit, hexhausted, hcount⟩ | ⟨hexit, hcount⟩ := htallied.exit
    · rw [hunstarted, Nat.zero_add] at hcount
      rw [Exhausted, htallied.counted.config, hcount] at hexhausted
      have hreached : r.problem.config.maxIterations ≤ turns.length := hexhausted
      exact .inl ⟨hexit, by omega, hcount⟩
    · rw [hunstarted, Nat.zero_add] at hcount
      refine .inr ⟨?_, hcount⟩
      exact hexit.imp_left fun h => ⟨h.1, h.2 rfl⟩

/-- A solve that is not allowed a single iteration. -/
noncomputable def hurried : Run ℝ Unit :=
  { unmet with problem := { unmet.problem with config := ⟨0, 1, 0.01, false⟩ } }

theorem round_hurried : (round idle (restarted hurried)).result = .ok none := by
  have hstalled : isStalled (1 : ℝ) 1 none = .ok false := by
    unfold isStalled
    rw [magnitude_real, divide_real (by norm_num)]
    rfl
  have hlargest : largestViolation ([1] : List ℝ) = 1 := by
    rw [largestViolation, foldl_larger_real, List.foldl_cons, List.foldl_nil]
    norm_num
  have hlt : (restarted hurried).problem.outer.nu < largestViolation ([1] : List ℝ) := by
    rw [hlargest]
    exact nu_lt_unmet
  have hminimized : (minimize idle (restarted hurried)).result = .ok .fresh := rfl
  exact result_round_of_violation hminimized objectiveValue_unmet evaluateAll_unmet hstalled hlt

/-- It takes one all the same, and counts it everywhere. -/
theorem iterations_hurried : (solve idle hurried).result = .ok () ∧
    (solve idle hurried).state.results.exit = .noConvergence ∧
    (solve idle hurried).state.results.iterations = 1 ∧
    (solve idle hurried).state.problem.outer.iterations = 1 ∧
    (solve idle hurried).state.problem.objective.valueCount = 1 ∧
    (solve idle hurried).state.problem.constraints.map (fun c => (c.name, c.graph.valueCount)) =
      [("c", 1)] := by
  have hvars : hurried.problem.combined.registry.vars ≠ [] := List.cons_ne_nil _ _
  obtain ⟨turns, last, result, hloop, _, _, hstate, hresult, hcounts⟩ :=
    iterations_of_solve idle hurried hvars ⟨_, rfl⟩
  have hexhausted : (round idle (restarted hurried)).state.Exhausted := by
    obtain ⟨hconfig, hiterations⟩ := counted_of_round round_hurried
    rw [Exhausted, hconfig, hiterations]
    decide
  obtain ⟨rfl, rfl, rfl⟩ := (Loop.exhausted round_hurried hexhausted).unique hloop
  obtain ⟨_, _, hiterations, _, hobjective, hconstraints, hexit⟩ := hcounts rfl hresult
  obtain ⟨hexit, _, houter⟩ | ⟨_, houter⟩ := hexit
  · exact ⟨hresult, hexit, hiterations, houter, hobjective, hconstraints⟩
  · obtain ⟨_, hcount⟩ := counted_of_round round_hurried
    have hone : (solve idle hurried).state.problem.outer.iterations = 1 := by
      rw [hstate]
      exact hcount
    rw [hone] at houter
    cases houter

end Run

end Separable
