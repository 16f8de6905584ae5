import Separable.Proofs.DoubleOrder
import Separable.Proofs.Gradient
import Separable.Proofs.Rest

/-!
# Solves with values that are no numbers

The loop takes the largest violation, the largest change and the largest multiplier by comparisons,
and a value that is no number is never the larger one. A constraint with such a value is therefore
passed over by the test that ends the loop; but its multiplier has then been updated with it, and is
no number either. So what a solve that ended with a gradient tolerance has found can be told from
its multipliers: if they are all numbers, then no value was passed over, and every constraint is
satisfied up to a negligible violation.

Doubles are taken here with any power function. The loop raises the penalty parameter to a power
before its first round, and nothing depends on what comes out.

## Main results

* `isNaN_or_lt_of_foldl`: what a bound on the largest element says of all elements.
* `isNaN_movedDual`: a value that is no number leaves a multiplier that is none.
* `negligible_or_isNaN`: the values and multipliers after a solve that ended with a gradient
  tolerance.
* `passed_over`: a value that is passed over.
-/

namespace Separable

open Scalar

/-! ## Doubles with any power function -/

/-- Double-precision numbers with this power function. -/
def Doubles (_pow : Float → Float → Float) : Type := Float

namespace Doubles

variable {pow : Float → Float → Float}

instance scalar : Scalar (Doubles pow) := { (inferInstance : Scalar Float) with pow }

instance backend : Backend (Doubles pow) where
  sparse := .standard

/-- With the power function of the platform they are the doubles. -/
theorem backend_eq :
    (backend : Backend (Doubles Float.pow)) = (inferInstance : Backend Float) := rfl

instance decidableEq : DecidableEq (Doubles pow) := inferInstanceAs (DecidableEq Float)

/-- Whether it is no number. -/
def isNaN (x : Doubles pow) : Bool := Float.isNaN x

theorem lt_iff (x y : Doubles pow) : lt x y = true ↔ @LT.lt Float _ x y :=
  @decide_eq_true_iff (@LT.lt Float _ x y) (Float.decLt x y)

theorem le_iff (x y : Doubles pow) : le x y = true ↔ @LE.le Float _ x y :=
  @decide_eq_true_iff (@LE.le Float _ x y) (Float.decLe x y)

/-- If the largest element that comparisons find is below a bound, then so are all elements that are
numbers. -/
theorem isNaN_or_lt_of_foldl {xs : List (Doubles pow)} {start bound : Doubles pow}
    (h : lt (xs.foldl larger start) bound = true) :
    lt start bound = true ∧ ∀ x ∈ xs, x.isNaN = true ∨ lt x bound = true := by
  -- The maximum so far is where the rest of the list starts from.
  induction xs generalizing start with
  | nil => exact ⟨h, by simp⟩
  | cons x rest ih =>
      obtain ⟨hhead, hrest⟩ := ih h
      rw [List.forall_mem_cons]
      unfold larger at hhead
      split at hhead
      · next hlt =>
        have hstart := Double.lt_trans ((lt_iff _ _).1 hlt) ((lt_iff _ _).1 hhead)
        exact ⟨(lt_iff _ _).2 hstart, Or.inr hhead, hrest⟩
      · next hlt =>
        have hx := Double.isNaN_or_lt ((lt_iff _ _).1 hhead) fun h => hlt ((lt_iff _ _).2 h)
        exact ⟨hhead, hx.imp id (lt_iff _ _).2, hrest⟩

/-- A value that is no number leaves a multiplier that is none. -/
theorem isNaN_movedDual {mu dual : Doubles pow} {c : Constraint (Doubles pow)}
    (hvalue : c.value.isNaN = true) (h : c.movedDual mu = .ok dual) : dual.isNaN = true := by
  obtain ⟨threshold, _, hdual⟩ := Action.of_map_eq_ok h
  have hactive : ¬le (c.value + threshold) 0 = true := fun hle =>
    Double.not_le_of_isNaN (Double.isNaN_add (Or.inl hvalue)) ((le_iff _ _).1 hle)
  rw [if_neg hactive] at hdual
  rw [← hdual]
  exact Double.isNaN_add (Or.inr (Double.isNaN_mul hvalue))

end Doubles

namespace Run

variable {pow : Float → Float → Float} {σ : Type}

/-! ## A constant constraint -/

/-- Doubles with the one power that is taken before the first round ends, `10 ^ -0.1`. -/
abbrev OnePower : Type := Doubles fun _ _ => 0.7943282347242815

/-- A solver that leaves everything as it is. -/
def unmoved : Solver OnePower Unit := ⟨false, fun s results => .done (s, results, .ok ())⟩

/-- A problem with one variable, a constant objective, and a constant constraint. -/
def constrained (v : OnePower) : Action (Problem OnePower) OnePower Unit := do
  let _ ← Problem.addVariable soleStorage none none
  Problem.addTerm (.constant 1) []
  let _ ← Problem.addConstraint "c" (.constant v) []

/-- Its solve, before it has begun. -/
def constant (v : OnePower) : Run OnePower Unit where
  problem := (constrained v ⟨.standard, 1, .empty false 1, .empty false 1, [], .fresh⟩).state
  memory := ⟨[[0]]⟩
  solver := ()
  results := .fresh

/-! ## After a solve -/

/-- If a solve ends with a gradient tolerance, then the value of every constraint is below the
negligible violation, or neither the value nor the multiplier is a number. So the values are all
below it and the multipliers are all numbers exactly if the multipliers are all numbers. -/
theorem negligible_or_isNaN (s : Solver (Doubles pow) σ) (r : Run (Doubles pow) σ)
    (hok : (solve s r).result = .ok ())
    (hexit : (solve s r).state.results.exit = .gradientTolerance) :
    (∀ c ∈ (solve s r).state.problem.constraints,
      (Graph.valueAtStorage Multipliers.none (solve s r).state.memory c.graph).result =
          .ok c.value ∧
        (lt c.value 1e-8 = true ∨ c.value.isNaN = true ∧ c.dual.isNaN = true)) ∧
    ((∀ c ∈ (solve s r).state.problem.constraints, lt c.value 1e-8 = true ∧ c.dual.isNaN = false) ↔
      ∀ c ∈ (solve s r).state.problem.constraints, c.dual.isNaN = false) := by
  -- The last round says everything, so nothing has to be kept until then.
  have htrivial : Kept s fun _ : Run (Doubles pow) σ => True :=
    ⟨fun _ _ => trivial, fun _ _ => trivial, fun _ _ => trivial, fun _ _ => trivial,
      fun _ _ => trivial, fun _ _ _ _ => trivial, fun _ _ _ => trivial⟩
  obtain ⟨f, values, q, _, hseen, hrested, hproblem, hmemory⟩ :=
    of_solve_rested htrivial (fun _ _ _ => trivial) hok hexit
  obtain ⟨hmoved, hstate, hviolation, _⟩ := of_moveMultipliers_rested rfl hrested
  rw [hstate] at hproblem hmemory
  rw [hproblem, hmemory]
  have hvalues := (Doubles.isNaN_or_lt_of_foldl hviolation).2
  rw [hseen.values] at hvalues
  have hall : ∀ d ∈ (Constraint.moveDuals q.problem.outer.mu q.problem.constraints).1,
      (Graph.valueAtStorage Multipliers.none q.memory d.graph).result = .ok d.value ∧
        (lt d.value 1e-8 = true ∨ d.value.isNaN = true ∧ d.dual.isNaN = true) := by
    intro d hd
    obtain ⟨c, hc, dual, hdual, rfl⟩ := Constraint.of_moveDuals_eq_ok hmoved d hd
    refine ⟨hseen.constraints c hc, ?_⟩
    rcases hvalues c.value (List.mem_map_of_mem hc) with hnan | hlt
    · exact Or.inr ⟨hnan, Doubles.isNaN_movedDual hnan hdual⟩
    · exact Or.inl hlt
  refine ⟨hall, fun h c hc => (h c hc).2, fun h c hc => ⟨?_, h c hc⟩⟩
  rcases (hall c hc).2 with hlt | ⟨_, hdual⟩
  · exact hlt
  · rw [h c hc] at hdual
    cases hdual

/-- A slack constraint is satisfied when the loop has come to rest. -/
theorem negligible_slack : (solve unmoved (constant (-1))).result = .ok () ∧
    (solve unmoved (constant (-1))).state.results.exit = .gradientTolerance ∧
    ∀ c ∈ (solve unmoved (constant (-1))).state.problem.constraints,
      lt c.value 1e-8 = true ∧ c.dual.isNaN = false := by
  have hok : (solve unmoved (constant (-1))).result = .ok () :=
    Action.of_toOption_eq_some (by decide +kernel)
  have hexit : (solve unmoved (constant (-1))).state.results.exit = .gradientTolerance := by
    decide +kernel
  refine ⟨hok, hexit, (negligible_or_isNaN unmoved (constant (-1)) hok hexit).2.2 ?_⟩
  decide +kernel

/-- A constraint whose value is no number is passed over: the loop ends with a gradient tolerance,
and leaves a multiplier that is no number. -/
theorem passed_over : (solve unmoved (constant (0 / 0))).result = .ok () ∧
    (solve unmoved (constant (0 / 0))).state.results.exit = .gradientTolerance ∧
    ∃ c ∈ (solve unmoved (constant (0 / 0))).state.problem.constraints,
      c.value.isNaN = true ∧ lt c.value 1e-8 = false ∧ c.dual.isNaN = true := by
  have hok : (solve unmoved (constant (0 / 0))).result = .ok () :=
    Action.of_toOption_eq_some (by decide +kernel)
  exact ⟨hok, by decide +kernel, by decide +kernel⟩

end Run

end Separable
