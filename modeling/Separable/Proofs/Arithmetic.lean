import Separable.Proofs.Failure
import Separable.Proofs.Signs
import Separable.Term.Elementary

/-!
# Where the arithmetic of a solve fails

Two operations on doubles can fail, a quotient by zero and a power that leaves the finite range. The
loop of a solve takes four quotients and three powers, the penalty of a constraint two quotients and
one power. Most of them cannot fail, whatever the problem and the solver do: the penalty parameter
is one of the numbers `10`, `1000`, `100000` and so on, or infinite after 154 steps. It is never
zero, its powers to the two exponents that the loop uses are never too large, and the one that
divides is never zero.

What is left are two divisors and one power. A divisor that is the sum of a magnitude and a
tolerance is zero if both are, so a tolerance of zero makes the loop fail at an objective of zero,
or once all multipliers are zero. The penalty of a constraint that is not active squares the
multiplier, and the square of a finite number can be too large, under any tolerances.

## Main results

* `Doubles.of_foldl_larger`: when the largest of some numbers is zero.
* `result_round_eq_error_iff`: a round fails before its observations are done, or in its arithmetic.
* `Penalty.value_eq_error_iff`: when a penalty fails.
* `arithmetic_of_solve`: where the arithmetic of a solve can fail, and that it then does.
-/

namespace Separable

open Scalar

namespace Doubles

variable {pow : Float → Float → Float} {x y : Doubles pow}

/-! ## Sums of magnitudes -/

theorem eq_add_zero_iff (hx : ¬ lt x 0 = true) (hy : ¬ lt y 0 = true) :
    eq (x + y) 0 = true ↔ eq x 0 = true ∧ eq y 0 = true :=
  Double.add_eq_zero_iff (fun h => hx ((lt_iff x 0).2 h)) fun h => hy ((lt_iff y 0).2 h)

theorem eq_magnitude_zero_iff : eq (magnitude x) 0 = true ↔ eq x 0 = true :=
  Double.abs_eq_zero_iff

theorem not_magnitude_lt_zero : ¬ lt (magnitude x) 0 = true := fun h =>
  Double.not_abs_lt_zero ((lt_iff _ _).1 h)

theorem not_lt_zero_of_zero_lt (h : lt 0 x = true) : ¬ lt x 0 = true ∧ ¬ eq x 0 = true := by
  have hpositive : Double.sign x = some .gt := Double.zero_lt_iff.1 ((lt_iff 0 x).1 h)
  refine ⟨fun hlt => ?_, fun heq => ?_⟩
  · cases hpositive.symm.trans (Double.lt_zero_iff.1 ((lt_iff x 0).1 hlt))
  · cases hpositive.symm.trans (Double.eq_zero_iff.1 heq)

/-- What is above a number that is not below zero is positive. -/
theorem zero_lt_of_lt (hx : ¬ lt x 0 = true) (h : lt x y = true) : lt 0 y = true := by
  rcases Double.isNaN_or_lt ((lt_iff x y).1 h) fun hlt => hx ((lt_iff x 0).2 hlt) with hnan | hlt
  · have hzero : (0.0 : Float).isNaN = false := rfl
    exact absurd (hzero.symm.trans hnan) Bool.false_ne_true
  · exact (lt_iff 0 y).2 hlt

/-- What is positive is above zero in either sign. -/
theorem lt_of_eq_zero (hx : eq x 0 = true) (hy : lt 0 y = true) : lt x y = true := by
  have hzero : ¬ lt 0 x = true := fun h => (not_lt_zero_of_zero_lt h).2 hx
  rcases Double.isNaN_or_lt ((lt_iff 0 y).1 hy) fun h => hzero ((lt_iff 0 x).2 h) with hnan | hlt
  · have hnone : Double.sign x = none := congrArg Double.signum (Double.unpack_of_isNaN hnan)
    cases hnone.symm.trans (Double.eq_zero_iff.1 hx)
  · exact (lt_iff x y).2 hlt

/-- The largest of some numbers, from one that is not below zero on, is not below zero, and is zero
only if none of them is positive. -/
theorem of_foldl_larger (xs : List (Doubles pow)) {start : Doubles pow}
    (hstart : ¬ lt start 0 = true) : ¬ lt (xs.foldl larger start) 0 = true ∧
      (eq (xs.foldl larger start) 0 = true ↔
        eq start 0 = true ∧ ∀ x ∈ xs, ¬ lt 0 x = true) := by
  induction xs generalizing start with
  | nil => exact ⟨hstart, by simp⟩
  | cons x rest ih =>
      rw [List.foldl_cons, List.forall_mem_cons]
      unfold larger
      split
      · next hlt =>
        have hx := zero_lt_of_lt hstart hlt
        obtain ⟨hnonneg, hzero⟩ := not_lt_zero_of_zero_lt hx
        exact ⟨(ih hnonneg).1, iff_of_false (fun h => hzero ((ih hnonneg).2.1 h).1)
          fun h => h.2.1 hx⟩
      · next hlt =>
        refine ⟨(ih hstart).1, (ih hstart).2.trans ?_⟩
        exact ⟨fun h => ⟨h.1, fun hx => hlt (lt_of_eq_zero h.1 hx), h.2⟩, fun h => ⟨h.1, h.2.2⟩⟩

/-! ## Powers -/

/-- What is documented of the power function: a number that is at least one has powers between zero
and one to exponents that are not positive, and powers between one and itself to exponents between
zero and one. -/
structure Bounded (pow : Float → Float → Float) : Prop where
  falls : ∀ x y, 1.0 ≤ x → y ≤ 0.0 → 0.0 ≤ pow x y ∧ pow x y ≤ 1.0
  grows : ∀ x y, 1.0 ≤ x → 0.0 ≤ y → y ≤ 1.0 → 1.0 ≤ pow x y ∧ pow x y ≤ x

theorem power_of_isFinite (h : isFinite x = true → isFinite (Scalar.pow x y) = true) :
    power x y = .ok (Scalar.pow x y) := by
  unfold power
  dsimp only
  cases hx : isFinite x with
  | false => rfl
  | true => simp [h hx]

theorem Bounded.power_of_falls (h : Bounded pow) (hx : le 1 x = true) (hy : le y 0 = true) :
    power x y = .ok (Scalar.pow x y) := by
  obtain ⟨hlow, hhigh⟩ := h.falls x y ((le_iff 1 x).1 hx) ((le_iff y 0).1 hy)
  exact power_of_isFinite fun _ => Double.isFinite_of_le_of_le hlow hhigh rfl rfl

theorem not_eq_zero_of_one_le (hx : le 1 x = true) : eq x 0 = false := by
  have hpositive : lt 0 x = true := (lt_iff 0 x).2 (Double.zero_lt_of_one_le ((le_iff 1 x).1 hx))
  exact Bool.eq_false_iff.2 (not_lt_zero_of_zero_lt hpositive).2

theorem Bounded.power_of_grows (h : Bounded pow) (hx : le 1 x = true) (hy : le 0 y = true)
    (hy' : le y 1 = true) :
    power x y = .ok (Scalar.pow x y) ∧ eq (Scalar.pow x y) 0 = false := by
  obtain ⟨hlow, hhigh⟩ :=
    h.grows x y ((le_iff 1 x).1 hx) ((le_iff 0 y).1 hy) ((le_iff y 1).1 hy')
  exact ⟨power_of_isFinite fun hfinite => Double.isFinite_of_le_of_le hlow hhigh rfl hfinite,
    not_eq_zero_of_one_le ((le_iff 1 _).2 hlow)⟩

/-! ## The penalty parameter -/

/-- The penalty parameter after some steps. -/
def grown : (steps : Nat) → Float
  | 0 => 10.0
  | steps + 1 => grown steps * 100.0

/-- The penalty parameter is infinite from the 154th step on. -/
theorem grown_add (steps : Nat) : grown (154 + steps) = 1.0 / 0.0 := by
  induction steps with
  | zero => decide +kernel
  | succ steps ih =>
      rw [← Nat.add_assoc, grown, ih]
      decide +kernel

/-- The penalty parameter is never below one, and twice the penalty parameter is not zero. -/
theorem one_le_grown (steps : Nat) : 1.0 ≤ grown steps ∧ (2.0 * grown steps == 0.0) = false := by
  have hfinite : ∀ n < 154, 1.0 ≤ grown n ∧ (2.0 * grown n == 0.0) = false := by decide +kernel
  by_cases hsteps : steps < 154
  · exact hfinite steps hsteps
  · obtain ⟨more, rfl⟩ := Nat.exists_eq_add_of_le (Nat.le_of_not_lt hsteps)
    rw [grown_add]
    decide +kernel

/-- The number can be the penalty parameter of a round. -/
def Grown (mu : Doubles pow) : Prop := ∃ steps, mu = grown steps

namespace Grown

variable {mu : Doubles pow}

theorem initial : Grown (initialPenalty : Doubles pow) := ⟨0, rfl⟩

theorem grow (h : Grown mu) : Grown (mu * Run.penaltyFactor) := by
  obtain ⟨steps, rfl⟩ := h
  exact ⟨steps + 1, rfl⟩

theorem one_le (h : Grown mu) : le 1 mu = true := by
  obtain ⟨steps, rfl⟩ := h
  exact (le_iff _ _).2 (one_le_grown steps).1

theorem not_eq_zero (h : Grown mu) : eq mu 0 = false := not_eq_zero_of_one_le h.one_le

theorem not_double_eq_zero (h : Grown mu) : eq (2.0 * mu) 0 = false := by
  obtain ⟨steps, rfl⟩ := h
  exact (one_le_grown steps).2

/-- The accepted violation that goes with the penalty parameter can be computed. -/
theorem power_violation (h : Grown mu) (hpow : Bounded pow) :
    power mu violationExponent = .ok (Scalar.pow mu violationExponent) := by
  have hexponent : (-0.1 : Float) ≤ 0.0 := by decide +kernel
  exact hpow.power_of_falls h.one_le ((le_iff _ _).2 hexponent)

/-- So can what divides the accepted violation, and it is not zero. -/
theorem power_shrink (h : Grown mu) (hpow : Bounded pow) :
    power mu Run.shrinkExponent = .ok (Scalar.pow mu Run.shrinkExponent) ∧
      eq (Scalar.pow mu Run.shrinkExponent) 0 = false := by
  have hlow : (0.0 : Float) ≤ 0.9 := by decide +kernel
  have hhigh : (0.9 : Float) ≤ 1.0 := by decide +kernel
  exact hpow.power_of_grows h.one_le ((le_iff _ _).2 hlow) ((le_iff _ _).2 hhigh)

end Grown

end Doubles

/-! ## Quotients -/

section Quotients

variable {α : Type} [Backend α]

theorem divide_eq_error {a b : α} {fault : Fault} :
    divide a b = .error fault ↔ fault = .divisionByZero ∧ eq b 0 = true := by
  unfold divide
  split
  · next h => simp [h, eq_comm]
  · next h => simp [h]

theorem map_eq_error_iff {β γ : Type} {result : Except Fault β} {f : β → γ} {fault : Fault} :
    result.map f = .error fault ↔ result = .error fault := by
  cases result <;> simp [Except.map]

theorem isStalled_eq_error_iff {tolerance f : α} {previous : Option α} {fault : Fault} :
    Run.isStalled tolerance f previous = .error fault ↔
      fault = .divisionByZero ∧ eq (magnitude f + tolerance) 0 = true := by
  cases previous <;> exact map_eq_error_iff.trans divide_eq_error

/-- The multipliers move if the penalty parameter is not zero. -/
theorem Constraint.exists_moveDuals {mu : α} (hmu : eq mu 0 = false)
    (constraints : List (Constraint α)) :
    ∃ moved, moveDuals mu constraints = (moved, .ok ()) := by
  induction constraints with
  | nil => exact ⟨[], rfl⟩
  | cons c rest ih =>
      obtain ⟨moved, hmoved⟩ := ih
      have hdual : ∃ dual, c.movedDual mu = .ok dual := by
        unfold movedDual
        rw [divide_of_ne hmu]
        exact ⟨_, rfl⟩
      obtain ⟨dual, hdual⟩ := hdual
      rw [moveDuals, hdual, hmoved]
      exact ⟨_, rfl⟩

end Quotients

/-! ## Penalties -/

section Penalties

variable {α : Type} [Backend α] {dual mu : α} {fault : Fault}

/-- Whether a multiplier is finite and its square is too large. -/
def Oversized (dual : α) : Prop := power dual 2.0 = .error .overflow

theorem power_eq_error {a b : α} : power a b = .error fault ↔
    fault = .overflow ∧ power a b = .error .overflow := by
  unfold power
  dsimp only
  split
  · simp [eq_comm]
  · simp

/-- A penalty fails where it is not active and squares a multiplier that is too large. -/
theorem Penalty.value_eq_error_iff (hmu : eq mu 0 = false) (htwice : eq (2.0 * mu) 0 = false)
    {t : α} : Penalty.value dual mu t = .error fault ↔
      fault = .overflow ∧ Oversized dual ∧ le (-t - dual / mu) 0 = false := by
  have hinactive : inactiveValue dual mu = .error fault ↔ fault = .overflow ∧ Oversized dual := by
    unfold inactiveValue
    rw [Oversized, ← power_eq_error]
    cases power dual 2.0 with
    | error first => exact Iff.rfl
    | ok square =>
        show divide (-square) (2.0 * mu) = .error fault ↔ _
        rw [divide_of_ne htwice]
        simp
  unfold value isActive
  rw [divide_of_ne hmu, ← and_assoc, ← hinactive]
  show (if le (-t - dual / mu) 0 then _ else _) = _ ↔ _
  split
  · next hactive => simp [hactive]
  · next hactive => simp [hactive]

theorem Penalty.bind_value_eq_error_iff (hmu : eq mu 0 = false)
    (htwice : eq (2.0 * mu) 0 = false) {t : Except Fault α} :
    t.bind (value dual mu) = .error fault ↔ t = .error fault ∨
      fault = .overflow ∧ Oversized dual ∧ ∃ v, t = .ok v ∧ le (-v - dual / mu) 0 = false := by
  cases t with
  | error first => simp [Except.bind]
  | ok v => simp [Except.bind, value_eq_error_iff hmu htwice]

end Penalties

namespace Run

section Rounds

variable {α σ : Type} [Backend α] {s : Solver α σ} {q : Run α σ} {fault : Fault}

/-! ## The two moves -/

/-- The largest multiplier. -/
def largestDual (constraints : List (Constraint α)) : α :=
  (constraints.map fun c => magnitude c.dual).foldl larger 0

/-- An update of the multipliers fails in the test for whether they have come to rest, if nothing
fails that depends on the penalty parameter alone. -/
theorem result_moveMultipliers_eq_error_iff (s : Solver α σ) (q : Run α σ) (fault : Fault)
    (violation : α) {moved : List (Constraint α)}
    (hmoved : Constraint.moveDuals q.problem.outer.mu q.problem.constraints = (moved, .ok ()))
    {shrink : α} (hshrink : power q.problem.outer.mu shrinkExponent = .ok shrink)
    (hnonzero : eq shrink 0 = false) :
    (moveMultipliers s violation q).result = .error fault ↔
      fault = .divisionByZero ∧
        eq (largestDual moved + q.problem.config.dualTolerance) 0 = true := by
  have hresult : (onProblem (Problem.onConstraints
      (Action.run (Constraint.moveDuals q.problem.outer.mu))) q).result = .ok () :=
    congrArg Prod.snd hmoved
  have hconstraints : (onProblem (Problem.onConstraints
      (Action.run (Constraint.moveDuals q.problem.outer.mu))) q).state.problem.constraints =
        moved := congrArg Prod.fst hmoved
  unfold moveMultipliers
  rw [Action.result_bind_of_ok (Action.result_get _), Action.state_get,
    Action.result_bind_of_ok hresult, Action.result_bind_of_ok (Action.result_get _),
    Action.state_get, hconstraints, Action.result_bind_of_ok (Action.result_emit _ _ _),
    Action.result_bind_of_ok (result_say _ _ _)]
  cases hrelative : divide ((q.problem.constraints.zipWith (fun c d => magnitude (c.dual - d.dual))
      moved).foldl larger 0) (largestDual moved + q.problem.config.dualTolerance) with
  | error first =>
      rw [Action.result_bind_of_error hrelative]
      obtain ⟨rfl, hzero⟩ := divide_eq_error.1 hrelative
      simp [hzero, eq_comm]
  | ok relative =>
      have hdivisor : ¬ eq (largestDual moved + q.problem.config.dualTolerance) 0 = true := by
        intro hzero
        cases hrelative.symm.trans (divide_eq_error.2 ⟨rfl, hzero⟩)
      rw [Action.result_bind_of_ok (b := relative) hrelative]
      refine iff_of_false ?_ fun h => hdivisor h.2
      split
      · exact nofun
      · rw [Action.result_bind_of_ok (b := shrink) hshrink,
          Action.result_bind_of_ok (divide_of_ne hnonzero)]
        exact nofun

/-- To raise the penalty parameter does not fail if the accepted violation can be computed. -/
theorem result_raisePenalty {nu : α}
    (hnu : power (q.problem.outer.mu * penaltyFactor) violationExponent = .ok nu) :
    (raisePenalty s q).result = .ok () := by
  have hgrown : (modifyOuter (fun o => { o with mu := o.mu * penaltyFactor }) q :
      Outcome (Run α σ) α Unit).result = .ok () := rfl
  unfold raisePenalty
  rw [Action.result_bind_of_ok hgrown, Action.result_bind_of_ok (Action.result_get _),
    Action.result_bind_of_ok (b := nu) hnu]
  rfl

/-! ## One round -/

/-- What a round observes that is not interrupted: what the solver reports, the value of the
objective, and the values of the constraints. -/
structure Observes (s : Solver α σ) (q : Run α σ) (inner : Results α) (f : α) (values : List α) :
    Prop where
  inner : (minimize s q).result = .ok inner
  objective : (Graph.valueAtStorage Multipliers.none (minimize s q).state.memory
    q.problem.objective).result = .ok f
  constraints : (Constraint.evaluateAll (minimize s q).state.memory
    q.problem.constraints).result = .ok values

/-- A round is interrupted, or observes everything. -/
theorem raises_or_observes (s : Solver α σ) (q : Run α σ) :
    (∃ fault, Raises s q fault) ∨ ∃ inner f values, Observes s q inner f values := by
  cases hinner : (minimize s q).result with
  | error fault => exact .inl ⟨fault, .solver hinner⟩
  | ok inner =>
      cases hf : (Graph.valueAtStorage Multipliers.none (minimize s q).state.memory
          q.problem.objective).result with
      | error fault => exact .inl ⟨fault, .objective hinner hf⟩
      | ok f =>
          cases hvalues : (Constraint.evaluateAll (minimize s q).state.memory
              q.problem.constraints).result with
          | error fault => exact .inl ⟨fault, .constraint hinner hf hvalues⟩
          | ok values => exact .inr ⟨inner, f, values, hinner, hf, hvalues⟩

namespace Observes

variable {inner : Results α} {f : α} {values : List α}

theorem not_raises (h : Observes s q inner f values) : ¬ Raises s q fault := by
  intro hraises
  cases hraises with
  | solver hfault => cases h.inner.symm.trans hfault
  | objective _ hfault => cases h.objective.symm.trans hfault
  | constraint _ _ hfault => cases h.constraints.symm.trans hfault

theorem unique {inner' : Results α} {f' : α} {values' : List α} (h : Observes s q inner f values)
    (h' : Observes s q inner' f' values') : inner = inner' ∧ f = f' ∧ values = values' :=
  ⟨Except.ok.inj (h.inner.symm.trans h'.inner),
    Except.ok.inj (h.objective.symm.trans h'.objective),
    Except.ok.inj (h.constraints.symm.trans h'.constraints)⟩

/-- A round that has observed everything fails in its test for whether the objective has stalled, or
in one of the two moves. -/
theorem result_round_eq_error_iff (h : Observes s q inner f values) :
    (round s q).result = .error fault ↔
      isStalled q.problem.config.improvementTolerance f q.problem.outer.previous = .error fault ∨
      isStalled q.problem.config.improvementTolerance f q.problem.outer.previous = .ok false ∧
        (le (largestViolation values) q.problem.outer.nu = true ∧
            (moveMultipliers s (largestViolation values) (observed s inner f q)).result =
              .error fault ∨
          ¬ le (largestViolation values) q.problem.outer.nu = true ∧
            (raisePenalty s (observed s inner f q)).result = .error fault) := by
  have hobjective : (objectiveValue (minimize s q).state).result = .ok f := h.objective
  have hconstraints (number : Int) : (constraintValues (modifyResults (fun r =>
      { r with iterations := number }) (objectiveValue (minimize s q).state).state).state).result =
        .ok values := h.constraints
  unfold round
  rw [Action.result_bind_of_ok h.inner, Action.result_bind_of_ok hobjective,
    Action.result_bind_of_ok (Action.result_get _), Action.state_get,
    Action.result_bind_of_ok (result_modifyResults _ _),
    Action.result_bind_of_ok (hconstraints _), Action.result_bind_of_ok (Action.result_get _),
    Action.state_get, Action.result_bind_of_ok (result_say _ _ _),
    Action.result_bind_of_ok (result_modifyResults _ _)]
  cases hstalled : isStalled q.problem.config.improvementTolerance f q.problem.outer.previous with
  | error first =>
      rw [Action.result_bind_of_error hstalled]
      simp
  | ok stalled =>
      rw [Action.result_bind_of_ok (b := stalled) hstalled]
      -- What follows a move cannot fail.
      have hlast (q : Run α σ) : ¬ ((do
          listMultipliers s
          modifyOuter fun o => { o with previous := some f, iterations := o.iterations + 1 }
          return none : Action (Run α σ) α (Option ExitCondition)) q).result = .error fault := by
        rw [Action.result_bind_of_ok (result_listMultipliers s q)]
        exact nofun
      cases stalled with
      | true => exact iff_of_false nofun (by simp)
      | false =>
          rw [if_neg (by decide)]
          split
          · next hle =>
            refine (Action.result_bind_eq_error_iff.trans (or_iff_left ?_)).trans ?_
            · rintro ⟨rested, _, hrest⟩
              cases rested with
              | true => cases hrest
              | false => exact hlast _ hrest
            · refine ⟨fun hfault => .inr ⟨rfl, .inl ⟨hle, hfault⟩⟩, ?_⟩
              rintro (hfault | ⟨_, ⟨_, hfault⟩ | ⟨hgt, _⟩⟩)
              · cases hfault
              · exact hfault
              · exact absurd hle hgt
          · next hle =>
            refine (Action.result_bind_eq_error_iff.trans (or_iff_left ?_)).trans ?_
            · rintro ⟨_, _, hrest⟩
              exact hlast _ hrest
            · refine ⟨fun hfault => .inr ⟨rfl, .inr ⟨hle, hfault⟩⟩, ?_⟩
              rintro (hfault | ⟨_, ⟨hgt, _⟩ | ⟨_, hfault⟩⟩)
              · cases hfault
              · exact absurd hgt hle
              · exact hfault

end Observes

/-- Whether a round that has observed everything divides by zero: because the objective and its
tolerance are zero, or because the tolerance for the multipliers is zero and so are, up to those
that are no numbers, all multipliers after their update. -/
inductive DividesByZero (s : Solver α σ) (q : Run α σ) : Prop
  | objective {inner : Results α} {f : α} {values : List α} (hseen : Observes s q inner f values)
      (htolerance : eq q.problem.config.improvementTolerance 0 = true) (hzero : eq f 0 = true)
  | multipliers {inner : Results α} {f : α} {values : List α} {moved : List (Constraint α)}
      (hseen : Observes s q inner f values)
      (hstalled : isStalled q.problem.config.improvementTolerance f q.problem.outer.previous =
        .ok false)
      (hle : le (largestViolation values) q.problem.outer.nu = true)
      (hmoved : Constraint.moveDuals q.problem.outer.mu
        (Constraint.evaluateAll (minimize s q).state.memory q.problem.constraints).state =
          (moved, .ok ()))
      (htolerance : eq q.problem.config.dualTolerance 0 = true)
      (hzero : ∀ c ∈ moved, ¬ lt 0 (magnitude c.dual) = true)

end Rounds

section Doubles

variable {pow : Float → Float → Float} {σ : Type} {s : Solver (Doubles pow) σ}
  {q : Run (Doubles pow) σ} {fault : Fault}

/-- What the loop keeps: the settings, and a penalty parameter with which its arithmetic works. -/
structure Solid (config : Config (Doubles pow)) (q : Run (Doubles pow) σ) : Prop where
  config : q.problem.config = config
  penalty : Doubles.Grown q.problem.outer.mu

theorem kept_solid (s : Solver (Doubles pow) σ) (config : Config (Doubles pow)) :
    Kept s (Solid config) where
  minimize := fun _ h => ⟨h.config, h.penalty⟩
  objective := fun _ h => ⟨h.config, h.penalty⟩
  constraints := fun _ h => ⟨h.config, h.penalty⟩
  duals := fun _ h => ⟨h.config, h.penalty⟩
  penalty := fun _ h => ⟨h.config, h.penalty.grow⟩
  outer := fun _ hmu r h => ⟨h.config, (hmu r.problem.outer).symm ▸ h.penalty⟩
  results := fun _ _ h => ⟨h.config, h.penalty⟩

theorem isStalled_eq_error_iff_zero {tolerance f : Doubles pow} {previous : Option (Doubles pow)}
    (htolerance : ¬ lt tolerance 0 = true) : isStalled tolerance f previous = .error fault ↔
      fault = .divisionByZero ∧ eq tolerance 0 = true ∧ eq f 0 = true := by
  rw [isStalled_eq_error_iff, Doubles.eq_add_zero_iff Doubles.not_magnitude_lt_zero htolerance,
    Doubles.eq_magnitude_zero_iff, and_comm (a := eq f 0 = true)]

theorem largestDual_add_eq_zero_iff {constraints : List (Constraint (Doubles pow))}
    {tolerance : Doubles pow} (htolerance : ¬ lt tolerance 0 = true) :
    eq (largestDual constraints + tolerance) 0 = true ↔
      eq tolerance 0 = true ∧ ∀ c ∈ constraints, ¬ lt 0 (magnitude c.dual) = true := by
  have hstart : ¬ (0.0 : Float) < 0.0 := by decide +kernel
  have heq : ((0.0 : Float) == 0.0) = true := by decide +kernel
  have hzero : eq (0 : Doubles pow) 0 = true := heq
  have hnonneg : ¬ lt (0 : Doubles pow) 0 = true := fun h => hstart ((Doubles.lt_iff 0 0).1 h)
  obtain ⟨hnonneg, hlargest⟩ :=
    Doubles.of_foldl_larger (constraints.map fun c => magnitude c.dual) hnonneg
  rw [largestDual, Doubles.eq_add_zero_iff hnonneg htolerance, hlargest, and_comm,
    and_iff_right hzero, List.forall_mem_map]

/-- A round fails if it is interrupted, or divides by zero; all its other arithmetic works. -/
theorem result_round_eq_error_iff (hpow : Doubles.Bounded pow) {config : Config (Doubles pow)}
    (hq : Solid config q) (himprovement : ¬ lt config.improvementTolerance 0 = true)
    (hdual : ¬ lt config.dualTolerance 0 = true) :
    (round s q).result = .error fault ↔
      Raises s q fault ∨ fault = .divisionByZero ∧ DividesByZero s q := by
  obtain ⟨rfl, hpenalty⟩ := hq
  rcases raises_or_observes s q with ⟨first, hraises⟩ | ⟨inner, f, values, hseen⟩
  · have hdivides : ¬ DividesByZero s q := by
      rintro (⟨hseen, _, _⟩ | ⟨hseen, _, _, _, _, _⟩)
      · exact hseen.not_raises hraises
      · exact hseen.not_raises hraises
    rw [or_iff_left fun h => hdivides h.2, hraises.round.1]
    refine ⟨fun h => Except.error.inj h ▸ hraises, fun h => ?_⟩
    rw [← h.round.1, hraises.round.1]
  · obtain ⟨moved, hmoved⟩ := Constraint.exists_moveDuals hpenalty.not_eq_zero
      (observed s inner f q).problem.constraints
    obtain ⟨hshrink, hnonzero⟩ := hpenalty.power_shrink hpow
    have hraise : (raisePenalty s (observed s inner f q)).result = .ok () :=
      result_raisePenalty (hpenalty.grow.power_violation hpow)
    have hmove := result_moveMultipliers_eq_error_iff s (observed s inner f q) fault
      (largestViolation values) hmoved hshrink hnonzero
    have hconfig : (observed s inner f q).problem.config = q.problem.config := rfl
    rw [hconfig, largestDual_add_eq_zero_iff hdual] at hmove
    rw [or_iff_right hseen.not_raises, hseen.result_round_eq_error_iff,
      isStalled_eq_error_iff_zero himprovement, hraise, hmove]
    constructor
    · rintro (⟨rfl, htolerance, hzero⟩ | ⟨hstalled, ⟨hle, rfl, htolerance, hzero⟩ | ⟨_, hraised⟩⟩)
      · exact ⟨rfl, .objective hseen htolerance hzero⟩
      · exact ⟨rfl, .multipliers hseen hstalled hle hmoved htolerance hzero⟩
      · cases hraised
    · rintro ⟨rfl, ⟨hseen', htolerance, hzero⟩ |
        ⟨hseen', hstalled, hle, hmoved', htolerance, hzero⟩⟩
      · obtain ⟨rfl, rfl, rfl⟩ := hseen.unique hseen'
        exact .inl ⟨rfl, htolerance, hzero⟩
      · obtain ⟨rfl, rfl, rfl⟩ := hseen.unique hseen'
        cases hmoved.symm.trans hmoved'
        exact .inr ⟨hstalled, .inl ⟨hle, rfl, htolerance, hzero⟩⟩

/-! ## The solve -/

/-- A round of a solve fails if it is interrupted, or if it divides by zero, for which one of the
two tolerances has to be zero. A penalty fails where its term does, or where it is not active and
the square of the multiplier is too large. -/
theorem arithmetic_of_solve (hpow : Doubles.Bounded pow) (s : Solver (Doubles pow) σ)
    (r : Run (Doubles pow) σ) (hvars : r.problem.combined.registry.vars ≠ [])
    (himprovement : ¬ lt r.problem.config.improvementTolerance 0 = true)
    (hdual : ¬ lt r.problem.config.dualTolerance 0 = true) :
    ∃ turns last result, Loop s turns (restarted r) last result ∧
      (solve s r).state = noted last result ∧ (solve s r).result = result.map (fun _ => ()) ∧
      ∀ q ∈ turns, q.problem.config = r.problem.config ∧
        (∀ fault, (round s q).result = .error fault ↔
          Raises s q fault ∨ fault = .divisionByZero ∧ DividesByZero s q) ∧
        ∀ (t : Term (Doubles pow)) (dual : Doubles pow) (args : List (List (Doubles pow))) (fault),
          ((t.penalized dual q.problem.outer.mu).value args = .error fault ↔
            t.value args = .error fault ∨ fault = .overflow ∧ Oversized dual ∧
              ∃ v, t.value args = .ok v ∧ le (-v - dual / q.problem.outer.mu) 0 = false) ∧
          ∀ rows, ((t.penalized dual q.problem.outer.mu).gradient args rows).2 = .error fault ↔
            (t.gradient args rows).2 = .error fault ∨ fault = .overflow ∧ Oversized dual ∧
              ∃ v, (t.gradient args rows).2 = .ok v ∧
                le (-v - dual / q.problem.outer.mu) 0 = false := by
  obtain ⟨turns, last, result, hloop, _, _, hstate, hresult⟩ := loop_of_solve s hvars
    ⟨_, Doubles.Grown.initial.power_violation hpow⟩
  have hrestarted : Solid r.problem.config (restarted r) := ⟨rfl, .initial⟩
  have hsolid := (hloop.of_kept (kept_solid s r.problem.config) hrestarted).1
  refine ⟨turns, last, result, hloop, hstate, hresult, fun q hq => ?_⟩
  have hmu := (hsolid q hq).penalty
  refine ⟨(hsolid q hq).config, fun fault => ?_, fun t dual args fault => ⟨?_, fun rows => ?_⟩⟩
  · exact result_round_eq_error_iff hpow (hsolid q hq) himprovement hdual
  · exact Penalty.bind_value_eq_error_iff hmu.not_eq_zero hmu.not_double_eq_zero
  · show (Penalty.gradient dual _ _ _).2 = _ ↔ _
    rw [Penalty.result_gradient]
    exact Penalty.bind_value_eq_error_iff hmu.not_eq_zero hmu.not_double_eq_zero

end Doubles

/-! ## A solve with one variable -/

/-- A power function that squares, that gives one for all other exponents which are not negative,
and `10 ^ -0.1` for those which are. -/
def squaring (x y : Float) : Float :=
  if 0.0 ≤ y then if y = 2.0 then x * x else 1.0 else 0.7943282347242815

theorem bounded_squaring : Doubles.Bounded squaring where
  falls x y _ hy := by
    unfold squaring
    split
    · split
      · next htwo =>
        subst htwo
        exact absurd hy (by decide +kernel)
      · decide +kernel
    · decide +kernel
  grows x y hx hy hy' := by
    unfold squaring
    rw [if_pos hy]
    split
    · next htwo =>
      subst htwo
      exact absurd hy' (by decide +kernel)
    · exact ⟨by decide +kernel, hx⟩

/-- Doubles with these powers. -/
abbrev Squaring : Type := Doubles squaring

/-- To minimize one variable that is at most zero, from zero on. -/
def bounded (config : Config Squaring) : Run Squaring Nat where
  problem := ((do
    let _ ← Problem.addVariable soleStorage none none
    Problem.addTerm (.affine [[1]] 0) [.handle 0]
    let _ ← Problem.addConstraint "c" (.affine [[1]] 0) [.handle 0] :
      Action (Problem Squaring) Squaring Unit)
        ⟨config, 1, .empty false 1, .empty false 1, [], .fresh⟩).state
  memory := ⟨[[0]]⟩
  solver := 0
  results := .fresh

/-- A solver that leaves everything as it is. -/
def resting : Solver Squaring Nat := .visiting [.ok none] ⟨.gradientTolerance, 0, none, false⟩

/-- With the standard tolerances the first round ends the solve, and divides by nothing that is
zero. A penalty of its parameter fails where it squares `10 ^ 200`. -/
theorem arithmetic_resting :
    (∀ fault, ¬ Raises resting (restarted (bounded .standard)) fault) ∧
    ¬ DividesByZero resting (restarted (bounded .standard)) ∧
    ((Term.affine [[1]] 0).penalized (1e200 : Squaring) 10.0).value [[-1e300]] =
      .error .overflow := by
  have hvars : (bounded .standard).problem.combined.registry.vars ≠ [] := List.cons_ne_nil _ _
  have hround : (round resting (restarted (bounded .standard))).result =
      .ok (some .gradientTolerance) := Action.of_toOption_eq_some (by decide +kernel)
  obtain ⟨turns, last, result, hloop, _, _, hturns⟩ := arithmetic_of_solve bounded_squaring resting
    (bounded .standard) hvars (by decide +kernel) (by decide +kernel)
  obtain ⟨rfl, -, -⟩ := (Loop.ended hround).unique hloop
  obtain ⟨_, hfails, hpenalty⟩ := hturns _ (List.mem_singleton_self _)
  refine ⟨fun fault hraises => ?_, fun hdivides => ?_, ?_⟩
  · cases hround.symm.trans ((hfails fault).2 (.inl hraises))
  · cases hround.symm.trans ((hfails _).2 (.inr ⟨rfl, hdivides⟩))
  · have hterm : (Term.affine [[1]] 0).value [[-1e300]] = .ok (-1e300 : Squaring) :=
      Action.of_toOption_eq_some (by decide +kernel)
    have hsquare : Oversized (1e200 : Squaring) := of_faultOf_eq_some (by decide +kernel)
    have hinactive : le (-(-1e300) - 1e200 / 10.0 : Squaring) 0 = false := by decide +kernel
    have hmu : (restarted (bounded .standard)).problem.outer.mu = 10.0 := rfl
    have hvalue := (hpenalty (.affine [[1]] 0) 1e200 [[-1e300]] .overflow).1.2
    rw [hmu] at hvalue
    exact hvalue (.inr ⟨rfl, hsquare, _, hterm, hinactive⟩)

/-- A solver that goes to points at which the constraint is violated in its first turns, then to one
at which it nearly holds, and then asks for the value at a point where it holds. -/
def rising : Solver Squaring Nat where
  takesLines := false
  solve := fun call results =>
    if call < 86 then
      .ask (.store (.ofVector [if call % 2 = 0 then 1 else 2.0])) fun stored =>
        .done (call + 1, results, stored)
    else if call = 86 then
      .ask (.store (.ofVector [5e-18])) fun stored => .done (call + 1, results, stored)
    else
      .ask (.value (.ofVector [-1])) fun value => .done (call + 1, results, value.map fun _ => ())

/-- With tolerances of zero a solve divides by zero. With the standard tolerances one squares a
multiplier that is too large, once its penalty parameter has been raised 86 times. -/
theorem fails_in_arithmetic :
    (solve resting (bounded ⟨100, 0, 0, false⟩)).result = .error .divisionByZero ∧
    (solve rising (bounded .standard)).result = .error (.concurrent .overflow) :=
  ⟨of_faultOf_eq_some (by decide +kernel), of_faultOf_eq_some (by decide +kernel)⟩

end Run

end Separable
