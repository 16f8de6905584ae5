import Separable.Proofs.Coupling
import Separable.Proofs.Evaluation
import Separable.Proofs.Loop

/-!
# How a loop comes to rest

When the multipliers have come to rest, the round has just seen the objective and the constraints,
and nothing that was seen has moved since: a second look at the same storage gives the same numbers.
What the last comparisons have compared can therefore be read off the final state. All this holds of
any scalars; what follows from the comparisons depends on the arithmetic.

## Main results

* `valueAtStorage_again`: a second look at the same storage gives the same value.
* `of_moveMultipliers_rested`: what the test that ends the loop has compared.
* `of_solve_rested`: a solve that ends with a gradient tolerance ends with this test.
-/

namespace Separable

open Scalar

/-! ## A second look at the same storage -/

section Again

variable {α : Type}

theorem overwrite_overwrite (start : Nat) (new old : List α) :
    overwrite start new (overwrite start new old) = overwrite start new old := by
  apply List.ext_getElem? fun i => ?_
  rw [getElem?_overwrite, getElem?_overwrite, Option.map_map]
  congr 1
  funext a
  by_cases hstart : start ≤ i
  · cases hnew : new[i - start]? <;> simp [hstart, hnew]
  · simp [hstart]

theorem Registry.loadStorage_again (m : Memory α) (r : Registry α) :
    (r.loadStorage m).loadStorage m = r.loadStorage m := by
  simp [loadStorage, Slot.loadStorage, Function.comp_def, overwrite_overwrite]

variable [Backend α]

theorem Graph.current_of_pool {g : Graph α} {p : Pool α} (hpool : g.pool = some p)
    (hversion : p.version = g.version) : g.current = p := by
  simp [current, hpool, hversion]

/-- A second look at the same storage gives the same value. -/
theorem Graph.valueAtStorage_again (m : Multipliers α) (memory : Memory α) (g : Graph α) :
    (valueAtStorage m memory (valueAtStorage m memory g).state).result =
      (valueAtStorage m memory g).result := by
  obtain ⟨hstate, hresult⟩ := valueAtStorage_eq m memory g
  have hcurrent : (valueAtStorage m memory g).state.current = g.current := by
    rw [hstate]
    exact current_of_pool rfl g.version_current
  rw [(valueAtStorage_eq m memory (valueAtStorage m memory g).state).2, hcurrent, hresult, hstate]
  dsimp only
  rw [Registry.loadStorage_again]

namespace Constraint

/-- An observation changes nothing of the constraints but what it has to change. -/
theorem map_evaluateAll {β : Type} (f : Constraint α → β)
    (hgraph : ∀ c g, f { c with graph := g } = f c) (hvalue : ∀ c v, f { c with value := v } = f c)
    (memory : Memory α) (constraints : List (Constraint α)) :
    (evaluateAll memory constraints).state.map f = constraints.map f := by
  refine (forall₂_map_eq_iff.1 (forall₂_evaluateAll_of memory (fun _ _ => rfl) fun c _ => ?_)).symm
  have hseen := hgraph c (Graph.valueAtStorage Multipliers.none memory c.graph).state
  unfold evaluate
  dsimp only
  split
  · exact hseen.symm
  · exact ((hvalue _ _).trans hseen).symm

theorem map_dual_evaluateAll (memory : Memory α) (constraints : List (Constraint α)) :
    (evaluateAll memory constraints).state.map (·.dual) = constraints.map (·.dual) :=
  map_evaluateAll _ (fun _ _ => rfl) (fun _ _ => rfl) memory constraints

/-- The values of an evaluation are remembered, and a second look gives the same. -/
theorem of_evaluateAll_eq_ok {memory : Memory α} {constraints : List (Constraint α)}
    {values : List α} (h : (evaluateAll memory constraints).result = .ok values) :
    values = (evaluateAll memory constraints).state.map (·.value) ∧
      ∀ c ∈ (evaluateAll memory constraints).state,
        (Graph.valueAtStorage Multipliers.none memory c.graph).result = .ok c.value := by
  obtain ⟨value, hvalue, rfl, hstate⟩ := exists_value_of_evaluateAll h
  rw [hstate]
  refine ⟨by simp, List.forall_mem_map.2 fun c hc => ?_⟩
  exact (Graph.valueAtStorage_again _ _ _).trans (hvalue c hc)

end Constraint

end Again

namespace Constraint

variable {α : Type} [Backend α]

/-- To move the multipliers changes nothing of the constraints but their multipliers. -/
theorem map_moveDuals {β : Type} (f : Constraint α → β)
    (hdual : ∀ c dual, f { c with dual := dual } = f c) (mu : α)
    (constraints : List (Constraint α)) :
    (moveDuals mu constraints).1.map f = constraints.map f :=
  (forall₂_map_eq_iff.1 (forall₂_moveDuals_of mu (fun _ _ => rfl) fun c _ dual =>
    (hdual c dual).symm)).symm

/-- If all multipliers can be updated, then nothing but the multipliers has changed. -/
theorem of_moveDuals_eq_ok {mu : α} {constraints : List (Constraint α)}
    (h : (moveDuals mu constraints).2 = .ok ()) : ∀ d ∈ (moveDuals mu constraints).1,
      ∃ c ∈ constraints, ∃ dual, c.movedDual mu = .ok dual ∧ d = { c with dual := dual } := by
  induction constraints with
  | nil => simp [moveDuals]
  | cons c rest ih =>
      simp only [moveDuals] at h ⊢
      cases hdual : c.movedDual mu with
      | error fault =>
          rw [hdual] at h
          cases h
      | ok dual =>
          rw [hdual] at h
          intro d hd
          rcases List.mem_cons.1 hd with rfl | hd
          · exact ⟨c, List.mem_cons_self, dual, hdual, rfl⟩
          · obtain ⟨c', hc', hmoved⟩ := ih h d hd
            exact ⟨c', List.mem_cons_of_mem c hc', hmoved⟩

end Constraint

namespace Run

variable {α σ : Type} [Backend α] {s : Solver α σ}

/-! ## The test that ends the loop -/

/-- What a true verdict on the multipliers has compared. -/
theorem of_moveMultipliers_rested {violation : α} {r : Run α σ} {moved : List (Constraint α)}
    (hmoved : moved = (Constraint.moveDuals r.problem.outer.mu r.problem.constraints).1)
    (h : (moveMultipliers s violation r).result = .ok true) :
    (Constraint.moveDuals r.problem.outer.mu r.problem.constraints).2 = .ok () ∧
      (moveMultipliers s violation r).state =
        { r with problem := { r.problem with constraints := moved } } ∧
      lt violation negligibleViolation = true ∧
      ∃ relative, divide
          ((r.problem.constraints.zipWith (fun c d => magnitude (c.dual - d.dual))
            moved).foldl larger 0)
          ((moved.map fun d => magnitude d.dual).foldl larger 0 + r.problem.config.dualTolerance) =
            .ok relative ∧
        lt relative r.problem.config.dualTolerance = true := by
  subst hmoved
  unfold moveMultipliers at h ⊢
  obtain ⟨before, hbefore, h, hstate₁⟩ := Action.of_result_bind_eq_ok h
  cases hbefore
  rw [Action.state_get] at h hstate₁
  obtain ⟨_, hduals, h, hstate₂⟩ := Action.of_result_bind_eq_ok h
  obtain ⟨after, hafter, h, hstate₃⟩ := Action.of_result_bind_eq_ok h
  cases hafter
  obtain ⟨_, _, h, hstate₄⟩ := Action.of_result_bind_eq_ok h
  obtain ⟨_, _, h, hstate₅⟩ := Action.of_result_bind_eq_ok h
  obtain ⟨relative, hrelative, h, hstate₆⟩ := Action.of_result_bind_eq_ok h
  rw [hstate₁, hstate₂, hstate₃, hstate₄, hstate₅, hstate₆]
  clear hstate₁ hstate₂ hstate₃ hstate₄ hstate₅ hstate₆
  split at h
  · next hcompared =>
    rw [if_pos hcompared]
    rw [Bool.and_eq_true] at hcompared
    exact ⟨hduals, rfl, hcompared.2, relative, hrelative, hcompared.1⟩
  · obtain ⟨_, _, h, _⟩ := Action.of_result_bind_eq_ok h
    obtain ⟨_, _, h, _⟩ := Action.of_result_bind_eq_ok h
    obtain ⟨_, _, h, _⟩ := Action.of_result_bind_eq_ok h
    cases h

/-! ## What the last round has seen -/

/-- Whether a solve remembers what is at the caller's storage: `f` for the objective, and `values`
for the constraints. -/
structure Seen (f : α) (values : List α) (r : Run α σ) : Prop where
  values : values = r.problem.constraints.map (·.value)
  constraints : ∀ c ∈ r.problem.constraints,
    (Graph.valueAtStorage Multipliers.none r.memory c.graph).result = .ok c.value
  objective : (Graph.valueAtStorage Multipliers.none r.memory r.problem.objective).result = .ok f
  result : r.results.value = some f

section Rested

variable {P : Run α σ → Prop} (hP : Kept s P)

include hP

/-- A round that ends the loop because the multipliers have come to rest ends with the test of the
multipliers, at a solve that has seen everything. -/
theorem of_round_rested {r : Run α σ} (hr : P r)
    (h : (round s r).result = .ok (some .gradientTolerance)) :
    ∃ f values q, P q ∧ Seen f values q ∧
      (moveMultipliers s (largestViolation values) q).result = .ok true ∧
      (round s r).state = (moveMultipliers s (largestViolation values) q).state := by
  obtain ⟨inner, f, values, _, hf, hvalues, hverdict⟩ := of_round_eq_ok h
  obtain ⟨heq, hall⟩ := Constraint.of_evaluateAll_eq_ok hvalues
  have hagain := (Graph.valueAtStorage_again Multipliers.none (minimize s r).state.memory
    r.problem.objective).trans hf
  have hobserved : P (observed s inner f r) :=
    hP.results (fun results => { results with
        value := some f, evaluations := results.evaluations + inner.evaluations }) _
      (hP.constraints _ (hP.results (fun results => { results with
        iterations := r.problem.outer.iterations + 1 }) _ (hP.objective _ (hP.minimize r hr))))
  generalize (round s r).state = last at hverdict
  cases hverdict with
  | rested _ _ hrested =>
      exact ⟨f, values, observed s inner f r, hobserved, ⟨heq, hall, hagain, rfl⟩, hrested, rfl⟩

/-- Rounds that end the loop for this reason end it with such a round. -/
theorem of_rounds_rested {left : Nat} {r : Run α σ} (hr : P r)
    (h : (rounds s left r).result = .ok .gradientTolerance) :
    ∃ q, P q ∧ (round s q).result = .ok (some .gradientTolerance) ∧
      (rounds s left r).state = (round s q).state := by
  induction left generalizing r with
  | zero =>
      unfold rounds at h ⊢
      obtain ⟨exit, hround, h, hstate⟩ := Action.of_result_bind_eq_ok h
      rw [hstate]
      cases exit with
      | none => cases h
      | some exit =>
          cases h
          exact ⟨r, hr, hround, rfl⟩
  | succ left ih =>
      unfold rounds at h ⊢
      obtain ⟨exit, hround, h, hstate⟩ := Action.of_result_bind_eq_ok h
      rw [hstate]
      cases exit with
      | none => exact ih (hP.keeps_round r hr) h
      | some exit =>
          cases h
          exact ⟨r, hr, hround, rfl⟩

/-- A solve that ends for this reason ends with the test of the multipliers, at a solve that has
seen everything. -/
theorem of_solve_rested {r : Run α σ}
    (hreset : ∀ q : Run α σ, q.problem = r.problem → (reset q).result = .ok () → P (reset q).state)
    (hok : (solve s r).result = .ok ())
    (hexit : (solve s r).state.results.exit = .gradientTolerance) :
    ∃ f values q, P q ∧ Seen f values q ∧
      (moveMultipliers s (largestViolation values) q).result = .ok true ∧
      (solve s r).state.problem = (moveMultipliers s (largestViolation values) q).state.problem ∧
      (solve s r).state.memory = (moveMultipliers s (largestViolation values) q).state.memory := by
  unfold solve at hok hexit ⊢
  obtain ⟨_, _, hok, hstate₁⟩ := Action.of_result_bind_eq_ok hok
  obtain ⟨q, hq, hok, hstate₂⟩ := Action.of_result_bind_eq_ok hok
  cases hq
  rw [hstate₁, hstate₂] at hexit ⊢
  clear hstate₁ hstate₂
  rw [Action.state_get] at hok hexit ⊢
  dsimp only at hok hexit ⊢
  split at hok
  · next hempty =>
    rw [if_pos hempty] at hexit
    cases hexit
  · next hempty =>
    rw [if_neg hempty] at hexit ⊢
    obtain ⟨_, hbegun, hok, hstate₃⟩ := Action.of_result_bind_eq_ok hok
    obtain ⟨exit, hrounds, hok, hstate₄⟩ := Action.of_result_bind_eq_ok hok
    rw [hstate₃, hstate₄] at hexit ⊢
    have hend : exit = .gradientTolerance := hexit
    subst hend
    obtain ⟨q₁, hq₁, hround, hstate₅⟩ := of_rounds_rested hP (hreset _ (by rfl) hbegun) hrounds
    obtain ⟨f, values, q₂, hq₂, hseen, hrested, hstate₆⟩ := of_round_rested hP hq₁ hround
    refine ⟨f, values, q₂, hq₂, hseen, hrested, ?_, ?_⟩
    · rw [← hstate₆, ← hstate₅]
      rfl
    · rw [← hstate₆, ← hstate₅]
      rfl

end Rested

end Run

end Separable
