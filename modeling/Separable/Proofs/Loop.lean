import Separable.Proofs.Rounds

/-!
# The loop of a solve

A round that does not fail has had the solver's turn and has observed the objective and every
constraint. What it does then is one of four things: it ends the loop because the objective has
stalled, it moves the multipliers and ends the loop because they have come to rest, it moves them
and leads on, or it raises the penalty parameter and leads on. `Verdict` lists these cases with all
that they compare and change, and everything that is true of rounds is read off them.

The loop itself is written with the number of rounds that are still allowed, so that it is seen to
end. What it stands for is a loop without such a number: rounds follow each other until one of them
ends the loop, or fails, or the count in the outer state has reached the limit. `Loop` is that loop,
together with the solves in progress at which the solver took its turns.

## Main results

* `of_round_eq_ok`: what a round does that does not fail.
* `loop_of_rounds`: the allowed rounds are the unbounded loop, which therefore ends.
* `solve_of_restarted`: a solve is its loop, once it has restarted.
-/

namespace Separable

open Scalar

namespace Run

variable {α σ : Type} [Backend α] {s : Solver α σ}

/-! ## The two moves -/

/-- What an update of the multipliers does that does not end the solve. -/
theorem of_moveMultipliers_moved {violation : α} {r : Run α σ}
    (h : (moveMultipliers s violation r).result = .ok false) :
    ∃ moved shrink nu,
      Constraint.moveDuals r.problem.outer.mu r.problem.constraints = (moved, .ok ()) ∧
      power r.problem.outer.mu shrinkExponent = .ok shrink ∧
      divide r.problem.outer.nu shrink = .ok nu ∧
      (moveMultipliers s violation r).state = { r with problem := { r.problem with
        constraints := moved, outer := { r.problem.outer with nu := nu } } } := by
  unfold moveMultipliers at h ⊢
  obtain ⟨before, hbefore, h, hstate₁⟩ := Action.of_result_bind_eq_ok h
  cases hbefore
  rw [Action.state_get] at h hstate₁
  obtain ⟨_, hduals, h, hstate₂⟩ := Action.of_result_bind_eq_ok h
  obtain ⟨after, hafter, h, hstate₃⟩ := Action.of_result_bind_eq_ok h
  cases hafter
  obtain ⟨_, _, h, hstate₄⟩ := Action.of_result_bind_eq_ok h
  obtain ⟨_, _, h, hstate₅⟩ := Action.of_result_bind_eq_ok h
  obtain ⟨relative, _, h, hstate₆⟩ := Action.of_result_bind_eq_ok h
  rw [hstate₁, hstate₂, hstate₃, hstate₄, hstate₅, hstate₆]
  clear hstate₁ hstate₂ hstate₃ hstate₄ hstate₅ hstate₆
  split at h
  · cases h
  · next hcompared =>
    rw [if_neg hcompared]
    obtain ⟨shrink, hshrink, h, hstate₇⟩ := Action.of_result_bind_eq_ok h
    obtain ⟨nu, hnu, h, hstate₈⟩ := Action.of_result_bind_eq_ok h
    rw [hstate₇, hstate₈]
    have hmoved : Constraint.moveDuals r.problem.outer.mu r.problem.constraints =
        ((Constraint.moveDuals r.problem.outer.mu r.problem.constraints).1, .ok ()) :=
      Prod.ext rfl hduals
    exact ⟨_, shrink, nu, hmoved, hshrink, hnu, rfl⟩

theorem of_raisePenalty {r : Run α σ} (h : (raisePenalty s r).result = .ok ()) :
    ∃ nu, power (r.problem.outer.mu * penaltyFactor) violationExponent = .ok nu ∧
      (raisePenalty s r).state = { r with problem := { r.problem with
        outer := { r.problem.outer with mu := r.problem.outer.mu * penaltyFactor, nu := nu } } } := by
  unfold raisePenalty at h ⊢
  obtain ⟨_, _, h, hstate₁⟩ := Action.of_result_bind_eq_ok h
  obtain ⟨q, hq, h, hstate₂⟩ := Action.of_result_bind_eq_ok h
  cases hq
  obtain ⟨nu, hnu, h, hstate₃⟩ := Action.of_result_bind_eq_ok h
  obtain ⟨_, _, h, hstate₄⟩ := Action.of_result_bind_eq_ok h
  obtain ⟨_, _, h, hstate₅⟩ := Action.of_result_bind_eq_ok h
  rw [hstate₁, hstate₂, hstate₃, hstate₄, hstate₅]
  exact ⟨nu, hnu, rfl⟩

theorem result_listMultipliers (s : Solver α σ) (r : Run α σ) :
    (listMultipliers s r).result = .ok () := by
  have hlines (events : List (Event α)) : (events.forM (say s) r).result = .ok () := by
    induction events with
    | nil => rfl
    | cons event rest ih =>
        show ((say s event >>= fun _ => rest.forM (say s)) r).result = .ok ()
        rw [Action.result_bind_of_ok (result_say s event r)]
        exact ih
  unfold listMultipliers
  rw [Action.result_bind_of_ok (Action.result_get _)]
  exact hlines _

/-! ## One round -/

/-- A solve after the solver's turn and the observations of a round. -/
def observed (s : Solver α σ) (inner : Results α) (f : α) (r : Run α σ) : Run α σ :=
  let q := (minimize s r).state
  { q with
    problem := { q.problem with
      objective := (Graph.valueAtStorage Multipliers.none q.memory r.problem.objective).state
      constraints := (Constraint.evaluateAll q.memory r.problem.constraints).state }
    results := { r.results with
      iterations := r.problem.outer.iterations + 1
      value := some f
      evaluations := r.results.evaluations + inner.evaluations } }

/-- A solve after the bookkeeping of a round that leads on. -/
def advanced (f : α) (q : Run α σ) : Run α σ :=
  { q with problem := { q.problem with outer := { q.problem.outer with
      previous := some f, iterations := q.problem.outer.iterations + 1 } } }

/-- How a round goes on after its observations, with an objective of `f`. -/
inductive Verdict (s : Solver α σ) (f violation : α) (q : Run α σ) :
    Option ExitCondition → Run α σ → Prop
  | stalled
      (hstalled : isStalled q.problem.config.improvementTolerance f q.problem.outer.previous =
        .ok true) :
      Verdict s f violation q (some .functionTolerance) q
  | rested
      (hstalled : isStalled q.problem.config.improvementTolerance f q.problem.outer.previous =
        .ok false)
      (hle : le violation q.problem.outer.nu = true)
      (hmoved : (moveMultipliers s violation q).result = .ok true) :
      Verdict s f violation q (some .gradientTolerance) (moveMultipliers s violation q).state
  | moved
      (hstalled : isStalled q.problem.config.improvementTolerance f q.problem.outer.previous =
        .ok false)
      (hle : le violation q.problem.outer.nu = true)
      (hmoved : (moveMultipliers s violation q).result = .ok false) :
      Verdict s f violation q none (advanced f (moveMultipliers s violation q).state)
  | raised
      (hstalled : isStalled q.problem.config.improvementTolerance f q.problem.outer.previous =
        .ok false)
      (hgt : ¬ le violation q.problem.outer.nu = true)
      (hraised : (raisePenalty s q).result = .ok ()) :
      Verdict s f violation q none (advanced f (raisePenalty s q).state)

/-- What a round does that does not fail. -/
theorem of_round_eq_ok {r : Run α σ} {exit : Option ExitCondition}
    (h : (round s r).result = .ok exit) : ∃ inner f values,
      (minimize s r).result = .ok inner ∧
      (Graph.valueAtStorage Multipliers.none (minimize s r).state.memory
        r.problem.objective).result = .ok f ∧
      (Constraint.evaluateAll (minimize s r).state.memory r.problem.constraints).result =
        .ok values ∧
      Verdict s f (largestViolation values) (observed s inner f r) exit (round s r).state := by
  unfold round at h ⊢
  obtain ⟨inner, hinner, h, hstate₁⟩ := Action.of_result_bind_eq_ok h
  obtain ⟨f, hf, h, hstate₂⟩ := Action.of_result_bind_eq_ok h
  obtain ⟨_, hiterations, h, hstate₃⟩ := Action.of_result_bind_eq_ok h
  cases hiterations
  obtain ⟨_, _, h, hstate₄⟩ := Action.of_result_bind_eq_ok h
  obtain ⟨values, hvalues, h, hstate₅⟩ := Action.of_result_bind_eq_ok h
  obtain ⟨q, hq, h, hstate₆⟩ := Action.of_result_bind_eq_ok h
  cases hq
  obtain ⟨_, _, h, hstate₇⟩ := Action.of_result_bind_eq_ok h
  obtain ⟨_, _, h, hstate₈⟩ := Action.of_result_bind_eq_ok h
  obtain ⟨stalled, hstalled, h, hstate₉⟩ := Action.of_result_bind_eq_ok h
  rw [hstate₁, hstate₂, hstate₃, hstate₄, hstate₅, hstate₆, hstate₇, hstate₈, hstate₉]
  clear hstate₁ hstate₂ hstate₃ hstate₄ hstate₅ hstate₆ hstate₇ hstate₈ hstate₉
  refine ⟨inner, f, values, hinner, hf, hvalues, ?_⟩
  cases stalled with
  | true =>
      cases h
      exact .stalled hstalled
  | false =>
      rw [if_neg (by decide)] at h ⊢
      split at h
      · next hle =>
        rw [if_pos hle]
        obtain ⟨rested, hrested, h, hstate⟩ := Action.of_result_bind_eq_ok h
        rw [hstate]
        cases rested with
        | true =>
            cases h
            exact .rested hstalled hle hrested
        | false =>
            obtain ⟨_, _, h, hlisted⟩ := Action.of_result_bind_eq_ok h
            obtain ⟨_, _, h, hlast⟩ := Action.of_result_bind_eq_ok h
            cases h
            rw [if_neg (by decide), hlisted, hlast, state_listMultipliers]
            exact .moved hstalled hle hrested
      · next hle =>
        rw [if_neg hle]
        obtain ⟨_, hraised, h, hstate⟩ := Action.of_result_bind_eq_ok h
        rw [hstate]
        obtain ⟨_, _, h, hlisted⟩ := Action.of_result_bind_eq_ok h
        obtain ⟨_, _, h, hlast⟩ := Action.of_result_bind_eq_ok h
        cases h
        rw [hlisted, hlast, state_listMultipliers]
        exact .raised hstalled hle hraised

/-- No move changes the settings, and a round that leads on is counted. -/
theorem Verdict.counted {f violation : α} {q q' : Run α σ}
    (h : Verdict s f violation q none q') :
    q'.problem.config = q.problem.config ∧
      q'.problem.outer.iterations = q.problem.outer.iterations + 1 := by
  cases h with
  | moved _ _ hmoved =>
      obtain ⟨_, _, _, _, _, _, hstate⟩ := of_moveMultipliers_moved hmoved
      rw [hstate]
      exact ⟨rfl, rfl⟩
  | raised _ _ hraised =>
      obtain ⟨_, _, hstate⟩ := of_raisePenalty hraised
      rw [hstate]
      exact ⟨rfl, rfl⟩

/-- A round that leads on keeps the settings and is counted. -/
theorem counted_of_round {q : Run α σ} (h : (round s q).result = .ok none) :
    (round s q).state.problem.config = q.problem.config ∧
      (round s q).state.problem.outer.iterations = q.problem.outer.iterations + 1 := by
  obtain ⟨_, _, _, _, _, _, hverdict⟩ := of_round_eq_ok h
  exact hverdict.counted

/-! ## The unbounded loop -/

/-- Whether the iterations that are counted have reached the limit. -/
def Exhausted (q : Run α σ) : Prop := q.problem.config.maxIterations ≤ q.problem.outer.iterations

/-- Whether the loop that starts at `q` lets the solver take its turn at these solves in progress,
in this order, and then ends at `last` with this result. -/
inductive Loop (s : Solver α σ) : (turns : List (Run α σ)) → (q last : Run α σ) →
    (result : Except Fault ExitCondition) → Prop
  | failed {q : Run α σ} {fault : Fault} (hround : (round s q).result = .error fault) :
      Loop s [q] q (round s q).state (.error fault)
  | ended {q : Run α σ} {exit : ExitCondition} (hround : (round s q).result = .ok (some exit)) :
      Loop s [q] q (round s q).state (.ok exit)
  | exhausted {q : Run α σ} (hround : (round s q).result = .ok none)
      (hlimit : (round s q).state.Exhausted) :
      Loop s [q] q (round s q).state (.ok .noConvergence)
  | again {turns : List (Run α σ)} {q last : Run α σ} {result : Except Fault ExitCondition}
      (hround : (round s q).result = .ok none) (hlimit : ¬ (round s q).state.Exhausted)
      (hrest : Loop s turns (round s q).state last result) : Loop s (q :: turns) q last result

theorem Loop.ne_nil {turns : List (Run α σ)} {q last : Run α σ}
    {result : Except Fault ExitCondition} (h : Loop s turns q last result) : turns ≠ [] := by
  cases h <;> exact List.cons_ne_nil _ _

/-- What survives the steps of a round is true of every turn of the loop, and after the loop. -/
theorem Loop.of_kept {P : Run α σ → Prop} (hP : Kept s P) {turns : List (Run α σ)}
    {q last : Run α σ} {result : Except Fault ExitCondition} (h : Loop s turns q last result)
    (hq : P q) : (∀ turn ∈ turns, P turn) ∧ P last := by
  induction h with
  | failed | ended | exhausted =>
      exact ⟨List.forall_mem_singleton.2 hq, hP.keeps_round _ hq⟩
  | again _ _ _ ih =>
      obtain ⟨hturns, hlast⟩ := ih (hP.keeps_round _ hq)
      exact ⟨List.forall_mem_cons.2 ⟨hq, hturns⟩, hlast⟩

/-- A loop that has not run out of iterations ends with the round that says why. -/
theorem Loop.last_round {turns : List (Run α σ)} {q last : Run α σ}
    {result : Except Fault ExitCondition} (h : Loop s turns q last result) {exit : ExitCondition}
    (hresult : result = .ok exit) (hexit : exit ≠ .noConvergence) : ∃ before turn,
      turns = before ++ [turn] ∧ (round s turn).result = .ok (some exit) ∧
      last = (round s turn).state := by
  induction h with
  | failed => cases hresult
  | @ended q _ hround =>
      cases hresult
      exact ⟨[], q, rfl, hround, rfl⟩
  | exhausted =>
      cases hresult
      exact absurd rfl hexit
  | @again _ q _ _ _ _ _ ih =>
      obtain ⟨before, turn, rfl, hround, hlast⟩ := ih hresult
      exact ⟨q :: before, turn, rfl, hround, hlast⟩

/-- The loop has one course. -/
theorem Loop.unique {turns turns' : List (Run α σ)} {q last last' : Run α σ}
    {result result' : Except Fault ExitCondition} (h : Loop s turns q last result)
    (h' : Loop s turns' q last' result') : turns' = turns ∧ last' = last ∧ result' = result := by
  induction h generalizing turns' with
  | failed hround =>
      cases h' with
      | failed hround' => cases hround.symm.trans hround'; exact ⟨rfl, rfl, rfl⟩
      | ended hround' => cases hround.symm.trans hround'
      | exhausted hround' => cases hround.symm.trans hround'
      | again hround' => cases hround.symm.trans hround'
  | ended hround =>
      cases h' with
      | failed hround' => cases hround.symm.trans hround'
      | ended hround' => cases hround.symm.trans hround'; exact ⟨rfl, rfl, rfl⟩
      | exhausted hround' => cases hround.symm.trans hround'
      | again hround' => cases hround.symm.trans hround'
  | exhausted hround hlimit =>
      cases h' with
      | failed hround' => cases hround.symm.trans hround'
      | ended hround' => cases hround.symm.trans hround'
      | exhausted => exact ⟨rfl, rfl, rfl⟩
      | again _ hlimit' => exact absurd hlimit hlimit'
  | again hround hlimit _ ih =>
      cases h' with
      | failed hround' => cases hround.symm.trans hround'
      | ended hround' => cases hround.symm.trans hround'
      | exhausted _ hlimit' => exact absurd hlimit' hlimit
      | again _ _ hrest' =>
          obtain ⟨rfl, hlast, hresult⟩ := ih hrest'
          exact ⟨rfl, hlast, hresult⟩

/-- A round that does not lead on is the last one. -/
theorem rounds_of_last {q : Run α σ} (hround : ¬ (round s q).result = .ok none) (left : Nat) :
    (rounds s left q).state = (round s q).state ∧
      (rounds s left q).result = (round s q).result.map (·.getD .noConvergence) := by
  cases hresult : (round s q).result with
  | error fault =>
      cases left <;> unfold rounds <;>
        rw [Action.state_bind_of_error hresult, Action.result_bind_of_error hresult] <;>
        exact ⟨rfl, rfl⟩
  | ok exit =>
      cases exit with
      | none => exact absurd hresult hround
      | some exit =>
          cases left <;> unfold rounds <;>
            rw [Action.state_bind_of_ok hresult, Action.result_bind_of_ok hresult] <;>
            exact ⟨rfl, rfl⟩

/-- A round that does not lead on is the loop. -/
theorem loop_of_last {q : Run α σ} (hround : ¬ (round s q).result = .ok none) :
    Loop s [q] q (round s q).state ((round s q).result.map (·.getD .noConvergence)) := by
  cases hresult : (round s q).result with
  | error fault => exact .failed hresult
  | ok exit =>
      cases exit with
      | none => exact absurd hresult hround
      | some exit => exact .ended hresult

/-- The rounds that the limit allows, the first of them in any case, are the unbounded loop. -/
theorem loop_of_rounds (left : Nat) {q : Run α σ}
    (hleft : q.problem.outer.iterations + left + 1 =
      max (q.problem.outer.iterations + 1) q.problem.config.maxIterations.toNat) :
    ∃ turns, turns.length ≤ left + 1 ∧
      Loop s turns q (rounds s left q).state (rounds s left q).result := by
  induction left generalizing q with
  | zero =>
      refine ⟨[q], Nat.le_refl 1, ?_⟩
      by_cases hround : (round s q).result = .ok none
      · obtain ⟨hconfig, hiterations⟩ := counted_of_round hround
        have hlimit : (round s q).state.Exhausted := by
          rw [Exhausted, hconfig, hiterations]
          omega
        unfold rounds
        rw [Action.state_bind_of_ok hround, Action.result_bind_of_ok hround]
        exact .exhausted hround hlimit
      · obtain ⟨hstate, hresult⟩ := rounds_of_last hround 0
        rw [hstate, hresult]
        exact loop_of_last hround
  | succ left ih =>
      by_cases hround : (round s q).result = .ok none
      · obtain ⟨hconfig, hiterations⟩ := counted_of_round hround
        have hlimit : ¬ (round s q).state.Exhausted := by
          rw [Exhausted, hconfig, hiterations]
          omega
        obtain ⟨turns, hlength, hloop⟩ := ih (q := (round s q).state) (by
          rw [hconfig, hiterations]
          omega)
        refine ⟨q :: turns, Nat.succ_le_succ hlength, ?_⟩
        unfold rounds
        rw [Action.state_bind_of_ok hround, Action.result_bind_of_ok hround]
        exact .again hround hlimit hloop
      · obtain ⟨hstate, hresult⟩ := rounds_of_last hround (left + 1)
        rw [hstate, hresult]
        exact ⟨[q], Nat.succ_le_succ (Nat.zero_le _), loop_of_last hround⟩

/-! ## The beginning and the end of a solve -/

/-- A solve whose first round is about to start. -/
def restarted (r : Run α σ) : Run α σ :=
  { r with
    problem := { r.problem with
      constraints := r.problem.constraints.map fun c => { c with dual := 0 }
      outer := .fresh }
    results := { r.results with exit := .internalError } }

/-- A solve with the reason for which its loop has ended on record, if the loop has not failed. -/
def noted (r : Run α σ) : Except Fault ExitCondition → Run α σ
  | .ok exit => { r with results := { r.results with exit := exit } }
  | .error _ => r

omit [Backend α] in
theorem state_noted (loop : Action (Run α σ) α ExitCondition) (q : Run α σ) :
    ((loop >>= fun exit => modifyResults fun results => { results with exit := exit }) q :
      Outcome (Run α σ) α Unit).state = noted (loop q).state (loop q).result ∧
    ((loop >>= fun exit => modifyResults fun results => { results with exit := exit }) q :
      Outcome (Run α σ) α Unit).result = (loop q).result.map fun _ => () := by
  cases hloop : (loop q).result with
  | error fault =>
      rw [Action.state_bind_of_error hloop, Action.result_bind_of_error hloop]
      exact ⟨rfl, rfl⟩
  | ok exit =>
      rw [Action.state_bind_of_ok hloop, Action.result_bind_of_ok hloop]
      exact ⟨rfl, rfl⟩

/-- To put the outer state back changes it in the same way whatever it was. -/
theorem reset_eq {q : Run α σ} {nu : α}
    (hpower : power (initialPenalty : α) violationExponent = .ok nu) :
    (reset q).result = .ok () ∧ (reset q).state = { q with problem := { q.problem with
      constraints := q.problem.constraints.map fun c => { c with dual := 0 }
      outer := ⟨initialPenalty, nu, 0, none⟩ } } := by
  have hfirst : (modifyOuter (fun o => { o with mu := initialPenalty }) q).result = .ok () := rfl
  unfold reset
  rw [Action.state_bind_of_ok hfirst, Action.result_bind_of_ok hfirst,
    Action.state_bind_of_ok (b := nu) hpower, Action.result_bind_of_ok (b := nu) hpower]
  exact ⟨rfl, rfl⟩

theorem of_power_eq_ok {a b c : α} (h : power a b = .ok c) : c = pow a b := by
  unfold power at h
  dsimp only at h
  split at h
  · cases h
  · exact (Except.ok.inj h).symm

/-- What a solve of a problem with variables does once it has marked its results. -/
theorem solve_of_vars {r q : Run α σ} (hvars : r.problem.combined.registry.vars ≠ [])
    (hmarked : q = { r with results := { r.results with exit := .internalError } }) :
    (solve s r).state = ((reset >>= fun _ =>
        rounds s (r.problem.config.maxIterations.toNat - 1) >>= fun exit =>
          modifyResults fun results => { results with exit := exit }) q :
            Outcome (Run α σ) α Unit).state ∧
      (solve s r).result = ((reset >>= fun _ =>
        rounds s (r.problem.config.maxIterations.toNat - 1) >>= fun exit =>
          modifyResults fun results => { results with exit := exit }) q :
            Outcome (Run α σ) α Unit).result := by
  have hslots : ¬ r.problem.combined.registry.slots.isEmpty = true := by
    intro hempty
    rw [List.isEmpty_iff] at hempty
    exact hvars (by rw [Registry.vars, hempty, List.map_nil])
  have hstate : (modifyResults (fun results => { results with exit := .internalError }) r).state =
      q := hmarked.symm
  have hsame : q.problem = r.problem := by rw [hmarked]
  unfold solve
  rw [Action.state_bind_of_ok (result_modifyResults _ _),
    Action.result_bind_of_ok (result_modifyResults _ _), hstate,
    Action.state_bind_of_ok (Action.result_get _), Action.result_bind_of_ok (Action.result_get _),
    Action.state_get, hsame, if_neg hslots]
  exact ⟨rfl, rfl⟩

/-- A solve of a problem with variables is its loop, and it notes how the loop has ended. -/
theorem solve_of_restarted {r : Run α σ} (hvars : r.problem.combined.registry.vars ≠ [])
    (hpower : ∃ nu : α, power initialPenalty violationExponent = .ok nu) :
    ∃ left, left = r.problem.config.maxIterations.toNat - 1 ∧
      (solve s r).state =
        noted (rounds s left (restarted r)).state (rounds s left (restarted r)).result ∧
      (solve s r).result = (rounds s left (restarted r)).result.map fun _ => () := by
  obtain ⟨nu, hnu⟩ := hpower
  obtain ⟨hstate, hresult⟩ := solve_of_vars (s := s) hvars rfl
  obtain ⟨hreset, hrestarted⟩ :=
    reset_eq (q := { r with results := { r.results with exit := .internalError } }) hnu
  rw [of_power_eq_ok hnu] at hrestarted
  rw [hstate, hresult, Action.state_bind_of_ok hreset, Action.result_bind_of_ok hreset, hrestarted]
  exact ⟨_, rfl, state_noted _ (restarted r)⟩

/-- A solve that cannot compute the violation that it accepts at the start ends before its loop. -/
theorem solve_of_no_power {r : Run α σ} (hvars : r.problem.combined.registry.vars ≠ [])
    {fault : Fault} (hpower : power (initialPenalty : α) violationExponent = .error fault) :
    (solve s r).result = .error fault ∧ (solve s r).state.memory = r.memory ∧
      (solve s r).state.results = { r.results with exit := .internalError } := by
  obtain ⟨hstate, hresult⟩ := solve_of_vars (s := s) hvars rfl
  have hfirst (q : Run α σ) :
      (modifyOuter (fun o => { o with mu := initialPenalty }) q).result = .ok () := rfl
  have hsecond (q : Run α σ) : (Action.ofExcept (power (initialPenalty : α) violationExponent) q :
      Outcome (Run α σ) α α).result = .error fault := hpower
  have hreset (q : Run α σ) : (reset q).result = .error fault ∧
      (reset q).state = (modifyOuter (fun o => { o with mu := initialPenalty }) q).state := by
    unfold reset
    rw [Action.result_bind_of_ok (hfirst q), Action.state_bind_of_ok (hfirst q),
      Action.result_bind_of_error (hsecond _), Action.state_bind_of_error (hsecond _)]
    exact ⟨rfl, rfl⟩
  rw [hstate, hresult, Action.state_bind_of_error (hreset _).1,
    Action.result_bind_of_error (hreset _).1, (hreset _).2]
  exact ⟨rfl, rfl, rfl⟩

/-- A solve of a problem with variables is the unbounded loop, which ends after at most as many
rounds as the limit allows, but not before the first. -/
theorem loop_of_solve (s : Solver α σ) {r : Run α σ}
    (hvars : r.problem.combined.registry.vars ≠ [])
    (hpower : ∃ nu : α, power initialPenalty violationExponent = .ok nu) :
    ∃ turns last result, Loop s turns (restarted r) last result ∧ 1 ≤ turns.length ∧
      (turns.length : Int) ≤ max 1 r.problem.config.maxIterations ∧
      (solve s r).state = noted last result ∧ (solve s r).result = result.map fun _ => () := by
  obtain ⟨left, rfl, hstate, hresult⟩ := solve_of_restarted (s := s) hvars hpower
  have hrestarted : (restarted r).problem.outer.iterations = 0 ∧
      (restarted r).problem.config = r.problem.config := ⟨rfl, rfl⟩
  obtain ⟨turns, hlength, hloop⟩ := loop_of_rounds (s := s) (q := restarted r)
    (r.problem.config.maxIterations.toNat - 1) (by rw [hrestarted.1, hrestarted.2]; omega)
  exact ⟨turns, _, _, hloop, List.length_pos_iff.2 hloop.ne_nil, by omega, hstate, hresult⟩

/-- A solve that does not fail is the loop, which does not fail either. -/
theorem loop_of_solve_eq_ok {r : Run α σ} (hvars : r.problem.combined.registry.vars ≠ [])
    (hok : (solve s r).result = .ok ()) :
    ∃ turns last exit, Loop s turns (restarted r) last (.ok exit) ∧
      (solve s r).state = noted last (.ok exit) := by
  cases hpower : power (initialPenalty : α) violationExponent with
  | error fault => cases hok.symm.trans (solve_of_no_power (s := s) hvars hpower).1
  | ok nu =>
      obtain ⟨turns, last, result, hloop, _, _, hstate, hresult⟩ :=
        loop_of_solve s hvars ⟨nu, hpower⟩
      obtain ⟨exit, rfl, _⟩ := Action.of_map_eq_ok (hresult.symm.trans hok)
      exact ⟨turns, last, exit, hloop, hstate⟩

end Run

end Separable
