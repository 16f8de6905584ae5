import Mathlib.Analysis.SpecialFunctions.Pow.Real
import Separable.Proofs.Coupling
import Separable.Proofs.Loop
import Separable.Proofs.OuterLoop

/-!
# The schedule of a solve

A solve is a course of rounds, and every round that does not end it makes one of two moves: it
updates the multipliers, or it raises the penalty parameter. Penalty parameter and accepted
violation at the start of a round depend on nothing but the moves so far, neither on the problem nor
on the points that the solver finds.

While the solver has its turn, multipliers and penalty parameter stand still. To say so, the turn is
followed question by question, each answered under the multipliers in force at that moment.

## Main results

* `Asks.kept`, `asks_run`: multipliers and penalty parameter during the solver's turn.
* `of_round_continued`: what a round does that does not end the solve.
* `Scheduled.update`, `Scheduled.raise`: what one move does to the schedule.
* `schedule_of_solve`: the schedule at the start of every round of a solve.
-/

namespace Separable

open Scalar

variable {α σ : Type}

namespace Run

section Turn

variable [Backend α] {β : Type}

/-! ## The solver's turn -/

/-- The answer to a question of the solver, under the multipliers in force when it is asked. -/
def answer (q : Query α) (r : Run α σ) : Run α σ × q.Answer :=
  let (view, _, a) := q.answer r.problem.multipliers ⟨r.problem.combined, r.memory⟩
  ({ r with problem := { r.problem with combined := view.graph }, memory := view.memory }, a)

/-- Whether a program gets, question by question, to this rest of it and this solve in progress. -/
inductive Asks (program : Program α β) (r : Run α σ) : Program α β → Run α σ → Prop
  | start : Asks program r program r
  | answer {q : Query α} {next : q.Answer → Program α β} {r' : Run α σ}
      (h : Asks program r (.ask q next) r') :
      Asks program r (next (r'.answer q).2) (r'.answer q).1

/-- No question of the solver changes a constraint or the outer state. -/
theorem Asks.kept {program rest : Program α β} {r r' : Run α σ} (h : Asks program r rest r') :
    r'.problem.outer = r.problem.outer ∧ r'.problem.constraints = r.problem.constraints := by
  induction h with
  | start => exact ⟨rfl, rfl⟩
  | answer _ ih => exact ih

theorem Asks.trans {program rest last : Program α β} {r r' r'' : Run α σ}
    (h : Asks program r rest r') (h' : Asks rest r' last r'') : Asks program r last r'' := by
  induction h' with
  | start => exact h
  | answer _ ih => exact .answer ih

/-- A program that is asked to its end gets where it gets when it is run under the multipliers of
its beginning. -/
theorem asks_run (program : Program α β) (r : Run α σ) : ∃ b r', Asks program r (.done b) r' ∧
    (program.run r.problem.multipliers ⟨r.problem.combined, r.memory⟩).2.2 = b ∧
    r' = { r with
      problem := { r.problem with combined :=
        (program.run r.problem.multipliers ⟨r.problem.combined, r.memory⟩).1.graph }
      memory := (program.run r.problem.multipliers ⟨r.problem.combined, r.memory⟩).1.memory } := by
  induction program generalizing r with
  | done b => exact ⟨b, r, .start, rfl, rfl⟩
  | ask q next ih =>
      obtain ⟨b, r', hasks, hb, hr'⟩ := ih (r.answer q).2 (r.answer q).1
      have hfirst : Asks (.ask q next) r (next (r.answer q).2) (r.answer q).1 := .answer .start
      exact ⟨b, r', hfirst.trans hasks, hb, hr'⟩

/-- The solver's turn ends with what `minimize` leaves. -/
theorem asks_minimize (s : Solver α σ) (r : Run α σ) :
    ∃ b r', Asks (s.solve r.solver Results.fresh) r (.done b) r' ∧
      (minimize s r).state = { r' with solver := b.1 } ∧
      (minimize s r).result = b.2.2.map fun () => b.2.1 := by
  obtain ⟨b, r', hasks, rfl, rfl⟩ := asks_run (s.solve r.solver Results.fresh) r
  exact ⟨_, _, hasks, rfl, rfl⟩

end Turn

/-! ## Rounds that do not end the solve -/

section Continued

variable [Backend α] {s : Solver α σ}

/-- A round that does not end the solve observes the constraints at the point that the solver has
left, which makes `q` of the solve, and then moves the multipliers or raises the penalty parameter,
which makes `q'` of it. -/
theorem of_round_continued {r : Run α σ} (h : (round s r).result = .ok none) :
    ∃ values q q' f,
      (Constraint.evaluateAll (minimize s r).state.memory r.problem.constraints).result =
        .ok values ∧
      q.problem.constraints =
        (Constraint.evaluateAll (minimize s r).state.memory r.problem.constraints).state ∧
      q.problem.outer = r.problem.outer ∧ q.problem.config = r.problem.config ∧
      q.memory = (minimize s r).state.memory ∧
      ((le (largestViolation values) r.problem.outer.nu = true ∧
          (moveMultipliers s (largestViolation values) q).result = .ok false ∧
          q' = (moveMultipliers s (largestViolation values) q).state) ∨
        (¬ le (largestViolation values) r.problem.outer.nu = true ∧
          (raisePenalty s q).result = .ok () ∧ q' = (raisePenalty s q).state)) ∧
      (round s r).state = { q' with problem := { q'.problem with outer := { q'.problem.outer with
        previous := some f, iterations := q'.problem.outer.iterations + 1 } } } := by
  obtain ⟨inner, f, values, _, _, hvalues, hverdict⟩ := of_round_eq_ok h
  generalize (round s r).state = last at hverdict
  cases hverdict with
  | moved _ hle hmoved =>
      exact ⟨values, observed s inner f r, _, f, hvalues, rfl, rfl, rfl, rfl,
        .inl ⟨hle, hmoved, rfl⟩, rfl⟩
  | raised _ hgt hraised =>
      exact ⟨values, observed s inner f r, _, f, hvalues, rfl, rfl, rfl, rfl,
        .inr ⟨hgt, hraised, rfl⟩, rfl⟩

end Continued

end Run

namespace Constraint

/-- An observation of the constraints changes neither their names nor their multipliers. -/
theorem forall₂_evaluateAll [Backend α] (memory : Memory α) (constraints : List (Constraint α)) :
    List.Forall₂ (fun c d => d.name = c.name ∧ d.dual = c.dual) constraints
      (evaluateAll memory constraints).state := by
  refine forall₂_evaluateAll_of memory (fun _ _ => ⟨rfl, rfl⟩) fun c _ => ?_
  unfold evaluate
  dsimp only
  split <;> exact ⟨rfl, rfl⟩

end Constraint

namespace Run

/-! ## The two moves -/

/-- What a round does that does not end the solve. -/
inductive Move where
  /-- Update the multipliers. -/
  | update
  /-- Raise the penalty parameter. -/
  | raise
  deriving DecidableEq, Repr

/-- Whether a solve has just observed its constraints at the caller's storage. -/
def Looked (q : Run ℝ σ) : Prop := ∀ c ∈ q.problem.constraints,
  (Graph.valueAtStorage Multipliers.none q.memory c.graph).result = .ok c.value

/-- What an update of the multipliers makes of a solve: no constraint is violated by more than was
accepted, and every multiplier follows the value of its constraint, up to zero. -/
structure Updated (q q' : Run ℝ σ) : Prop where
  looked : q'.Looked
  accepted : ∀ c ∈ q'.problem.constraints, c.value ≤ q.problem.outer.nu
  duals : List.Forall₂ (fun c c' => c'.name = c.name ∧
      c'.dual = max 0 (c.dual + q.problem.outer.mu * c'.value) ∧
      c'.dual ≤ c.dual + q.problem.outer.mu * q.problem.outer.nu)
    q.problem.constraints q'.problem.constraints
  mu : q'.problem.outer.mu = q.problem.outer.mu
  nu : q'.problem.outer.nu = q.problem.outer.nu / q.problem.outer.mu ^ (0.9 : ℝ)

/-- What a higher penalty parameter makes of a solve: some constraint is violated by more than was
accepted, and no multiplier moves. -/
structure Raised (q q' : Run ℝ σ) : Prop where
  looked : q'.Looked
  refused : ∃ c ∈ q'.problem.constraints, q.problem.outer.nu < c.value
  duals : List.Forall₂ (fun c c' => c'.name = c.name ∧ c'.dual = c.dual)
    q.problem.constraints q'.problem.constraints
  mu : q'.problem.outer.mu = q.problem.outer.mu * 100
  nu : q'.problem.outer.nu = q'.problem.outer.mu ^ (-0.1 : ℝ)

/-- Whether a solve makes this move from `q` to `q'`. -/
def Move.Leads (q q' : Run ℝ σ) : Move → Prop
  | update => Updated q q'
  | raise => Raised q q'

theorem not_updated_of_raised {q q' : Run ℝ σ} (h : Raised q q') : ¬ Updated q q' := by
  intro hupdated
  obtain ⟨c, hc, hlt⟩ := h.refused
  exact not_le.2 hlt (hupdated.accepted c hc)

/-- What is true at the start of a round, after some moves with the last one first. -/
structure Scheduled (moves : List Move) (q : Run ℝ σ) : Prop where
  mu : q.problem.outer.mu = 10 * 100 ^ moves.count .raise
  nu : q.problem.outer.nu = q.problem.outer.mu ^ (-0.1 : ℝ) /
    (q.problem.outer.mu ^ (0.9 : ℝ)) ^ (moves.takeWhile (· = .update)).length
  iterations : q.problem.outer.iterations = moves.length
  duals : ∀ c ∈ q.problem.constraints, 0 ≤ c.dual

namespace Scheduled

variable {moves : List Move} {q q' : Run ℝ σ}

theorem mu_pos (h : Scheduled moves q) : 0 < q.problem.outer.mu := by
  rw [h.mu]
  positivity

theorem nu_pos (h : Scheduled moves q) : 0 < q.problem.outer.nu := by
  have hmu := h.mu_pos
  rw [h.nu]
  positivity

/-- An update of the multipliers divides the accepted violation once more. -/
theorem update (h : Scheduled moves q) (hmove : Updated q q')
    (hiterations : q'.problem.outer.iterations = q.problem.outer.iterations + 1) :
    Scheduled (.update :: moves) q' where
  mu := by
    rw [hmove.mu, h.mu, List.count_cons_of_ne (by decide)]
  nu := by
    rw [hmove.nu, hmove.mu, h.nu, div_div, ← pow_succ]
    rfl
  iterations := by rw [hiterations, h.iterations, List.length_cons]
  duals := by
    refine forall_right (hmove.duals.imp fun c c' ⟨_, hdual, _⟩ => ?_)
    rw [hdual]
    exact le_max_left 0 _

/-- A higher penalty parameter starts the accepted violation anew. -/
theorem raise (h : Scheduled moves q) (hmove : Raised q q')
    (hiterations : q'.problem.outer.iterations = q.problem.outer.iterations + 1) :
    Scheduled (.raise :: moves) q' where
  mu := by
    rw [hmove.mu, h.mu, List.count_cons_self, pow_succ]
    ring
  nu := by
    rw [hmove.nu]
    simp
  iterations := by rw [hiterations, h.iterations, List.length_cons]
  duals := by
    have hboth := (List.forall₂_and_left _ _).2 ⟨h.duals, hmove.duals⟩
    refine forall_right (hboth.imp fun c c' ⟨hdual, _, hkept⟩ => ?_)
    rw [hkept]
    exact hdual

end Scheduled

/-! ## Every round makes one of the moves -/

theorem largestViolation_le_iff {values : List ℝ} {bound : ℝ} (hbound : 0 ≤ bound) :
    largestViolation values ≤ bound ↔ ∀ value ∈ values, value ≤ bound := by
  have hfold (start : ℝ) : values.foldl max start ≤ bound ↔
      start ≤ bound ∧ ∀ value ∈ values, value ≤ bound := by
    induction values generalizing start with
    | nil => simp
    | cons v rest ih => rw [List.foldl_cons, ih, max_le_iff, List.forall_mem_cons, and_assoc]
  rw [largestViolation, foldl_larger_real, hfold]
  exact and_iff_right hbound

/-- What a round does that does not end the solve, by the values that it observes. -/
theorem moves_of_round {s : Solver ℝ σ} {moves : List Move} {q : Run ℝ σ} (h : Scheduled moves q)
    (hround : (round s q).result = .ok none) :
    (round s q).state.problem.outer.iterations = q.problem.outer.iterations + 1 ∧
    ∃ values, (Constraint.evaluateAll (minimize s q).state.memory q.problem.constraints).result =
        .ok values ∧
      ((∀ value ∈ values, value ≤ q.problem.outer.nu) ∧ Updated q (round s q).state ∨
        (¬ ∀ value ∈ values, value ≤ q.problem.outer.nu) ∧ Raised q (round s q).state) := by
  obtain ⟨values, seen, last, f, hvalues, hconstraints, houter, hconfig, hmemory, hverdict, hstate⟩ :=
    of_round_continued hround
  obtain ⟨heq, hall⟩ := Constraint.of_evaluateAll_eq_ok hvalues
  have hsame := Constraint.forall₂_evaluateAll (minimize s q).state.memory q.problem.constraints
  rw [← hconstraints] at heq hall hsame
  rw [← hmemory] at hall
  have hmu := h.mu_pos
  have hnu := h.nu_pos
  rw [le_real, largestViolation_le_iff hnu.le] at hverdict
  rw [hstate]
  rcases hverdict with ⟨hle, hmoved, rfl⟩ | ⟨hgt, hraised, rfl⟩
  · obtain ⟨moved, shrink, nu, hduals, hshrink, hquotient, hlast⟩ := of_moveMultipliers_moved hmoved
    rw [houter, Constraint.moveDuals_real hmu] at hduals
    rw [houter, power_real] at hshrink
    cases hshrink
    rw [houter, divide_real (Real.rpow_pos_of_pos hmu _).ne'] at hquotient
    cases hquotient
    cases hduals
    rw [hlast]
    refine ⟨by rw [houter], values, hvalues, .inl ⟨hle, ?_, ?_, ?_, by rw [houter], ?_⟩⟩
    · exact List.forall_mem_map.2 hall
    · rw [heq] at hle
      exact List.forall_mem_map.2 (List.forall_mem_map.1 hle)
    · rw [List.forall₂_map_right_iff]
      rw [heq, List.forall_mem_map] at hle
      have haccepted := ((List.forall₂_and_left _ _).2 ⟨hle, hsame.flip⟩).flip
      refine ((List.forall₂_and_left _ _).2 ⟨h.duals, haccepted⟩).imp ?_
      intro c d ⟨hnonneg, hvalue, hname, hdual⟩
      have hmax := Constraint.moved_eq_max hmu c.dual d.value
      refine ⟨hname, by rw [hdual, hmax], ?_⟩
      rw [hdual, hmax]
      refine max_le (by positivity) ?_
      have hscaled := mul_le_mul_of_nonneg_left hvalue hmu.le
      linarith
    · rfl
  · obtain ⟨nu, hpower, hlast⟩ := of_raisePenalty hraised
    rw [houter, power_real] at hpower
    cases hpower
    rw [hlast]
    refine ⟨by rw [houter], values, hvalues, .inr ⟨hgt, hall, ?_, hsame, ?_, ?_⟩⟩
    · rw [heq, List.forall_mem_map] at hgt
      obtain ⟨c, hc⟩ := not_forall.1 hgt
      obtain ⟨hmem, hlt⟩ := not_forall.1 hc
      exact ⟨c, hmem, not_le.1 hlt⟩
    · show seen.problem.outer.mu * penaltyFactor = q.problem.outer.mu * 100
      rw [houter, penaltyFactor]
      norm_num
    · show (q.problem.outer.mu * penaltyFactor) ^ (violationExponent : ℝ) =
        (seen.problem.outer.mu * penaltyFactor) ^ (-0.1 : ℝ)
      rw [houter]
      rfl

/-! ## The course of a solve -/

/-- Whether rounds lead from one solve in progress to another by these moves, the last one first. -/
inductive Course (s : Solver ℝ σ) (first : Run ℝ σ) : List Move → Run ℝ σ → Prop
  | start : Course s first [] first
  | round {moves : List Move} {q : Run ℝ σ} (h : Course s first moves q) {m : Move}
      (hround : (round s q).result = .ok none) (hm : m.Leads q (round s q).state) :
      Course s first (m :: moves) (round s q).state

/-- Every round of a course starts on schedule. -/
theorem Course.scheduled {s : Solver ℝ σ} {first q : Run ℝ σ} {moves : List Move}
    (h : Course s first moves q) (hfirst : Scheduled [] first) : Scheduled moves q := by
  induction h with
  | start => exact hfirst
  | @round moves q _ m hround hm ih =>
      have hiterations := (moves_of_round ih hround).1
      cases m with
      | update => exact ih.update hm hiterations
      | raise => exact ih.raise hm hiterations

/-- A round that does not end the solve carries the course on by one move. -/
theorem Course.exists_move {s : Solver ℝ σ} {first q : Run ℝ σ} {moves : List Move}
    (h : Course s first moves q) (hfirst : Scheduled [] first)
    (hround : (Run.round s q).result = .ok none) :
    ∃ m, Course s first (m :: moves) (Run.round s q).state := by
  obtain ⟨_, _, _, ⟨_, hupdated⟩ | ⟨_, hraised⟩⟩ := moves_of_round (h.scheduled hfirst) hround
  · exact ⟨.update, h.round hround hupdated⟩
  · exact ⟨.raise, h.round hround hraised⟩

/-- The loop is a course with one more round, which ends the solve or is the last one allowed. -/
theorem course_of_rounds {s : Solver ℝ σ} {first : Run ℝ σ} (hfirst : Scheduled [] first)
    (left : Nat) {moves : List Move} {q : Run ℝ σ} (h : Course s first moves q) :
    ∃ more last, Course s first (more ++ moves) last ∧ more.length ≤ left ∧
      ((round s last).result = .ok none → more.length = left) ∧
      (rounds s left q).state = (round s last).state ∧
      (rounds s left q).result = (round s last).result.map (·.getD .noConvergence) := by
  induction left generalizing moves q with
  | zero =>
      refine ⟨[], q, h, Nat.le_refl 0, fun _ => rfl, ?_⟩
      by_cases hround : (round s q).result = .ok none
      · unfold rounds
        rw [Action.state_bind_of_ok hround, Action.result_bind_of_ok hround, hround]
        exact ⟨rfl, rfl⟩
      · exact rounds_of_last hround 0
  | succ left ih =>
      by_cases hround : (round s q).result = .ok none
      · obtain ⟨m, hnext⟩ := h.exists_move hfirst hround
        obtain ⟨more, last, hcourse, hlength, hlast, hstate, hresult⟩ := ih hnext
        rw [List.append_cons] at hcourse
        refine ⟨more ++ [m], last, hcourse, ?_, fun hnone => ?_, ?_⟩
        · rw [List.length_append, List.length_singleton]
          omega
        · rw [List.length_append, hlast hnone, List.length_singleton]
        · unfold rounds
          rw [Action.state_bind_of_ok hround, Action.result_bind_of_ok hround]
          exact ⟨hstate, hresult⟩
      · exact ⟨[], q, h, Nat.zero_le _, fun hnone => absurd hnone hround,
          rounds_of_last hround (left + 1)⟩

/-- A solve whose first round is about to start. -/
noncomputable def opened (r : Run ℝ σ) : Run ℝ σ :=
  (reset (modifyResults (fun results => { results with exit := .internalError }) r).state).state

theorem scheduled_opened (r : Run ℝ σ) : Scheduled [] (opened r) where
  mu := by
    show (initialPenalty : ℝ) = 10 * 100 ^ 0
    unfold initialPenalty
    norm_num
  nu := by
    show (initialPenalty : ℝ) ^ (violationExponent : ℝ) =
      (initialPenalty : ℝ) ^ (-0.1 : ℝ) / ((initialPenalty : ℝ) ^ (0.9 : ℝ)) ^ 0
    rw [pow_zero, div_one]
    rfl
  iterations := rfl
  duals := by
    intro c hc
    obtain ⟨d, _, rfl⟩ := List.mem_map.1 hc
    exact le_refl 0

/-- A solve of a problem with variables is its loop, but for the reason that it gives. -/
theorem solve_of_opened {s : Solver ℝ σ} {r : Run ℝ σ}
    (hvars : r.problem.combined.registry.vars ≠ []) :
    ∃ left, left = r.problem.config.maxIterations.toNat - 1 ∧
      (solve s r).state.problem = (rounds s left (opened r)).state.problem ∧
      (solve s r).state.memory = (rounds s left (opened r)).state.memory ∧
      (solve s r).result = (rounds s left (opened r)).result.map fun _ => () := by
  obtain ⟨left, hleft, hstate, hresult⟩ := solve_of_restarted (s := s) hvars ⟨_, rfl⟩
  have hopened : restarted r = opened r := rfl
  rw [hopened] at hstate hresult
  refine ⟨left, hleft, ?_, ?_, hresult⟩
  · rw [hstate]
    cases (rounds s left (opened r)).result <;> rfl
  · rw [hstate]
    cases (rounds s left (opened r)).result <;> rfl

/-! ### A round that raises the penalty parameter -/

/-- A round leads on if the solver, the objective and the constraints give answers, the objective
has not stopped improving and some constraint is violated by more than is accepted. -/
theorem result_round_of_violation {s : Solver ℝ σ} {r : Run ℝ σ} {inner : Results ℝ} {f : ℝ}
    {values : List ℝ} (hminimize : (minimize s r).result = .ok inner)
    (hf : (objectiveValue (minimize s r).state).result = .ok f)
    (hvalues : (Constraint.evaluateAll (minimize s r).state.memory r.problem.constraints).result =
      .ok values)
    (hstalled : isStalled r.problem.config.improvementTolerance f r.problem.outer.previous =
      .ok false)
    (hlt : r.problem.outer.nu < largestViolation values) : (round s r).result = .ok none := by
  have hconstraints (results : Results ℝ → Results ℝ) : (constraintValues
      (modifyResults results (objectiveValue (minimize s r).state).state).state).result =
        .ok values := hvalues
  have hraise (q : Run ℝ σ) : (raisePenalty s q).result = .ok () := rfl
  have hle : ¬ le (largestViolation values) r.problem.outer.nu = true := by
    rw [le_real]
    exact not_le.2 hlt
  unfold round
  rw [Action.result_bind_of_ok hminimize, Action.result_bind_of_ok hf]
  rw [Action.result_bind_of_ok (Action.result_get _), Action.state_get]
  rw [Action.result_bind_of_ok (result_modifyResults _ _), Action.result_bind_of_ok (hconstraints _)]
  rw [Action.result_bind_of_ok (Action.result_get _), Action.state_get]
  rw [Action.result_bind_of_ok (result_say s _ _), Action.result_bind_of_ok (result_modifyResults _ _)]
  rw [Action.result_bind_of_ok (b := false) hstalled, if_neg (by decide), if_neg]
  · rw [Action.result_bind_of_ok (hraise _), Action.result_bind_of_ok (result_listMultipliers s _)]
    rfl
  · exact hle

/-- A solve of a problem with one variable, a constant objective, and a constraint that is violated
by one wherever the variable is. -/
noncomputable def unmet : Run ℝ Unit where
  problem := ((do
    let _ ← Problem.addVariable soleStorage none none
    Problem.addTerm (.constant 1) []
    let _ ← Problem.addConstraint "c" (.constant 1) [] : Action (Problem ℝ) ℝ Unit)
      ⟨⟨2, 1, 0.01, false⟩, 1, .empty false 1, .empty false 1, [], .fresh⟩).state
  memory := ⟨[[0]]⟩
  solver := ()
  results := .fresh

theorem evaluateAll_unmet :
    (Constraint.evaluateAll unmet.memory (opened unmet).problem.constraints).result = .ok [1] := by
  have hconstraints : (opened unmet).problem.constraints =
      [⟨"c", (Graph.addTerm (.plain (.constant 1)) [] (.empty false 1)).state, 0, 0⟩] := rfl
  have hvalue := value_constant
    (Graph.sound_addTerm (Graph.sound_empty false Nat.one_pos) (.plain (.constant 1)) []) rfl
    unmet.memory
  rw [hconstraints]
  simp only [Constraint.evaluateAll, Constraint.evaluate, hvalue]
  rfl

theorem objectiveValue_unmet : (objectiveValue (opened unmet)).result = .ok 1 := by
  have hobjective : (opened unmet).problem.objective =
      (Graph.addTerm (.plain (.constant 1)) []
        (Graph.addVariable soleStorage none none (.empty false 1)).state).state := rfl
  have hsound : (opened unmet).problem.objective.Sound := by
    rw [hobjective]
    exact Graph.sound_addTerm
      (Graph.sound_addVariable (Graph.sound_empty false Nat.one_pos) _ _ _) _ _
  exact value_constant hsound rfl unmet.memory

theorem nu_lt_unmet : (opened unmet).problem.outer.nu < 1 := by
  show (10.0 : ℝ) ^ (-0.1 : ℝ) < 1
  exact Real.rpow_lt_one_of_one_lt_of_neg (by norm_num) (by norm_num)

theorem round_unmet : (round idle (opened unmet)).result = .ok none := by
  have hstalled : isStalled (1 : ℝ) 1 none = .ok false := by
    unfold isStalled
    rw [magnitude_real, divide_real (by norm_num)]
    rfl
  have hidle : (minimize idle (opened unmet)).state = opened unmet := rfl
  have hlargest : largestViolation ([1] : List ℝ) = 1 := by
    rw [largestViolation, foldl_larger_real, List.foldl_cons, List.foldl_nil]
    norm_num
  have hlt : (opened unmet).problem.outer.nu < largestViolation ([1] : List ℝ) := by
    rw [hlargest]
    exact nu_lt_unmet
  refine @result_round_of_violation Unit idle (opened unmet) .fresh 1 [1] rfl ?_ ?_ hstalled hlt
  · rw [hidle]
    exact objectiveValue_unmet
  · rw [hidle]
    exact evaluateAll_unmet

/-! ## The schedule of a solve -/

theorem count_raise_add_count_update (moves : List Move) :
    moves.count .raise + moves.count .update = moves.length := by
  induction moves with
  | nil => rfl
  | cons m rest ih =>
      cases m
      · rw [List.count_cons_self, List.count_cons_of_ne (by decide), List.length_cons]
        omega
      · rw [List.count_cons_self, List.count_cons_of_ne (by decide), List.length_cons]
        omega

/-- A solve is a course with one more round. At the start of every round the penalty parameter is
`10 * 100 ^ p` after `p` raises, and the accepted violation falls with the penalty parameter and
with every update of the multipliers since the last raise. No question of the solver changes them,
and a round that does not end the solve makes exactly one of the two moves. -/
theorem schedule_of_solve (s : Solver ℝ σ) (r : Run ℝ σ)
    (hvars : r.problem.combined.registry.vars ≠ []) :
    (∃ moves last, Course s (opened r) moves last ∧
      moves.length ≤ r.problem.config.maxIterations.toNat - 1 ∧
      ((round s last).result = .ok none →
        moves.length = r.problem.config.maxIterations.toNat - 1) ∧
      (solve s r).state.problem = (round s last).state.problem ∧
      (solve s r).state.memory = (round s last).state.memory ∧
      (solve s r).result = (round s last).result.map fun _ => ()) ∧
    ∀ moves q, Course s (opened r) moves q →
      q.problem.outer.mu = 10 * 100 ^ moves.count .raise ∧
      q.problem.outer.nu = q.problem.outer.mu ^ (-0.1 : ℝ) /
        (q.problem.outer.mu ^ (0.9 : ℝ)) ^ (moves.takeWhile (· = .update)).length ∧
      moves.count .raise + moves.count .update = q.problem.outer.iterations ∧
      (∀ c ∈ q.problem.constraints, 0 ≤ c.dual) ∧
      (∀ rest q', Asks (s.solve q.solver Results.fresh) q rest q' →
        q'.problem.outer = q.problem.outer ∧ q'.problem.constraints = q.problem.constraints) ∧
      (∃ b q', Asks (s.solve q.solver Results.fresh) q (.done b) q' ∧
        (minimize s q).state = { q' with solver := b.1 }) ∧
      ((round s q).result = .ok none →
        Xor (Updated q (round s q).state) (Raised q (round s q).state)) := by
  refine ⟨?_, fun moves q hcourse => ?_⟩
  · obtain ⟨left, rfl, hproblem, hmemory, hresult⟩ := solve_of_opened (s := s) hvars
    obtain ⟨more, last, hcourse, hlength, hlast, hstate, hrounds⟩ :=
      course_of_rounds (scheduled_opened r) (r.problem.config.maxIterations.toNat - 1) .start
    rw [List.append_nil] at hcourse
    rw [hstate] at hproblem hmemory
    refine ⟨more, last, hcourse, hlength, hlast, hproblem, hmemory, ?_⟩
    rw [hresult, hrounds]
    cases (round s last).result <;> rfl
  · have hscheduled := hcourse.scheduled (scheduled_opened r)
    have hcount := count_raise_add_count_update moves
    obtain ⟨b, q', hasks, hstate, _⟩ := asks_minimize s q
    refine ⟨hscheduled.mu, hscheduled.nu, hcount.trans hscheduled.iterations.symm,
      hscheduled.duals, fun rest q' h => h.kept, ⟨b, q', hasks, hstate⟩, fun hround => ?_⟩
    obtain ⟨_, _, _, ⟨_, hupdated⟩ | ⟨_, hraised⟩⟩ := moves_of_round hscheduled hround
    · exact .inl ⟨hupdated, fun hraised => not_updated_of_raised hraised hupdated⟩
    · exact .inr ⟨hraised, not_updated_of_raised hraised⟩

/-- The second round starts with a hundred times the penalty parameter. -/
theorem schedule_unmet : Course idle (opened unmet) [.raise] (round idle (opened unmet)).state ∧
    (round idle (opened unmet)).state.problem.outer.mu = 1000 ∧
    (round idle (opened unmet)).state.problem.outer.nu = (1000 : ℝ) ^ (-0.1 : ℝ) ∧
    (round idle (opened unmet)).state.problem.outer.iterations = 1 := by
  have hvars : unmet.problem.combined.registry.vars ≠ [] := List.cons_ne_nil _ _
  have hraised : Raised (opened unmet) (round idle (opened unmet)).state := by
    obtain ⟨_, values, hvalues, ⟨hle, _⟩ | ⟨_, hraised⟩⟩ :=
      moves_of_round (scheduled_opened unmet) round_unmet
    · cases evaluateAll_unmet.symm.trans hvalues
      exact absurd (hle 1 List.mem_cons_self) (not_le.2 nu_lt_unmet)
    · exact hraised
  have hcourse : Course idle (opened unmet) [.raise] (round idle (opened unmet)).state :=
    Course.start.round round_unmet hraised
  obtain ⟨hmu, hnu, hiterations, _⟩ := (schedule_of_solve idle unmet hvars).2 _ _ hcourse
  have hmu' : (round idle (opened unmet)).state.problem.outer.mu = 1000 := by
    rw [hmu, List.count_cons_self, List.count_nil]
    norm_num
  refine ⟨hcourse, hmu', ?_, hiterations.symm⟩
  rw [hnu, hmu']
  simp

end Run

end Separable
