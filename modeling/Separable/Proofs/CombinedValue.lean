import Separable.Proofs.Lagrangian

/-!
# The value of the combined graph

The combined graph adds up the objective and the penalties. The value of a penalty is `Penalty.phi`
of the value that the graph of the constraint has at the slices of the same state that belong to its
variables. So while the multipliers are not negative and every constraint is met, the combined value
is a lower bound of the objective.

## Main results

* `value_of_constraint`: the graph of a constraint has the value of the term that its penalty wraps.
* `value_combined`: the combined value is that of the objective, plus the penalties.
-/

namespace Separable

open Scalar

/-- The value of a summand whose term has this value. -/
noncomputable def Summand.total (m : Multipliers ℝ) (value : ℝ) : Summand ℝ → ℝ
  | plain _ => value
  | penalty constraint _ => Penalty.phi m.mu (m.dual constraint) value

theorem Summand.value_resolve {m : Multipliers ℝ} (hmu : 0 < m.mu) (s : Summand ℝ)
    {args : List (List ℝ)} {value : ℝ} (h : s.term.value args = .ok value) :
    (s.resolve m).value args = .ok (s.total m value) := by
  cases s with
  | plain t => exact h
  | penalty constraint t =>
      show (t.value args).bind (Penalty.value (m.dual constraint) m.mu) = _
      rw [show t.value args = .ok value from h]
      exact Penalty.value_real hmu _ _

theorem sum_map_nonpos {β : Type} {f : β → ℝ} {bs : List β} (h : ∀ b ∈ bs, f b ≤ 0) :
    sum (bs.map f) ≤ 0 := by
  induction bs with
  | nil => exact le_refl 0
  | cons b rest ih =>
      rw [List.map_cons, sum_cons]
      have hhead := h b (by simp)
      have htail := ih fun c hc => h c (List.mem_cons_of_mem b hc)
      linarith

namespace Problem

section Values

variable {p : Problem ℝ} (hp : p.Coherent) {x : List ℝ} (hx : x.length = p.combined.scalars)
  {point : Storage → List ℝ}
  (hpoint : ∀ v ∈ p.combined.registry.vars, v.StandsFor x (point v.storage))
  {value : Summand ℝ × List (Variable ℝ) → ℝ}
  (hterms : ∀ b ∈ p.combined.terms.map Bound.binding,
    b.1.term.value (pointsOf point b.2) = .ok (value b))

include hp hx hpoint hterms

/-- The graph of a constraint has the value of the term that its penalty wraps. -/
theorem value_of_constraint {c : Constraint ℝ} {i : Nat} {b : Summand ℝ × List (Variable ℝ)}
    (hb : b ∈ p.combined.terms.map Bound.binding) (h : c.Enforced i b) :
    (Graph.value Multipliers.none (.ofVector (p.seenBy c x)) c.graph).result = .ok (value b) := by
  obtain ⟨d, hd, rfl⟩ := List.mem_map.1 hb
  have hvars := (hp.combined.terms d hd).vars
  obtain ⟨t, ws, hsummand, hws, hsingle⟩ := h.term
  have htwins : ∀ w ∈ c.graph.registry.vars, ∃ v ∈ p.combined.registry.vars, v.Twin w := by
    intro w hw
    obtain ⟨v, hv, htwin⟩ := h.twins w hw
    exact ⟨v, hvars v hv, htwin⟩
  have hevaluated := hterms _ hb
  rw [hsummand] at hevaluated
  exact value_of_points_of_twins hp.combined.registry hx h.sound htwins hws hsingle
    Multipliers.none hpoint hevaluated

/-- The value of the objective. -/
theorem value_objective :
    (Graph.value Multipliers.none (.ofVector x) p.objective).result =
      .ok (sum (((p.combined.terms.map Bound.binding).filter (·.1.isPlain)).map value)) := by
  have hscalars : p.objective.scalars = p.combined.scalars :=
    hp.objective.registry.scalars_eq hp.combined.registry hp.vars
  have hresolved : ∀ b ∈ p.objective.terms,
      (b.summand.resolve Multipliers.none).value (pointsOf point b.vars) =
        .ok (value b.binding) := by
    intro b hb
    obtain ⟨⟨d, hd, heq⟩, hterm⟩ := hp.of_mem_objective hb Multipliers.none
    rw [hterm]
    exact hterms b.binding (heq ▸ List.mem_map_of_mem hd)
  rw [value_of_points hp.objective Multipliers.none (hx.trans hscalars.symm) (hp.vars ▸ hpoint)
    hresolved, ← hp.plain, List.map_map]
  rfl

/-- The value of the combined graph, term by term. -/
theorem value_of_summands (hmu : 0 < p.outer.mu) :
    (Graph.value p.multipliers (.ofVector x) p.combined).result =
      .ok (sum ((p.combined.terms.map Bound.binding).map fun b =>
        b.1.total p.multipliers (value b))) := by
  have hresolved : ∀ b ∈ p.combined.terms,
      (b.summand.resolve p.multipliers).value (pointsOf point b.vars) =
        .ok (b.summand.total p.multipliers (value b.binding)) := fun b hb =>
    b.summand.value_resolve hmu (hterms b.binding (List.mem_map_of_mem hb))
  rw [value_of_points hp.combined p.multipliers hx hpoint hresolved, List.map_map]
  rfl

/-- What a constraint gives does not depend on the penalty that it is compared with. -/
theorem exists_constraint_value : ∃ valueOf : Constraint ℝ → ℝ, ∀ c ∈ p.constraints,
    (Graph.value Multipliers.none (.ofVector (p.seenBy c x)) c.graph).result = .ok (valueOf c) := by
  have hevaluated : ∀ c ∈ p.constraints, ∃ t,
      (Graph.value Multipliers.none (.ofVector (p.seenBy c x)) c.graph).result = .ok t := by
    intro c hc
    obtain ⟨i, b, hb, henforced⟩ := hp.exists_enforced hc
    exact ⟨value b, value_of_constraint hp hx hpoint hterms hb henforced⟩
  choose! valueOf hvalueOf using hevaluated
  exact ⟨valueOf, hvalueOf⟩

/-- The sum over all summands is the sum over those of the objective, and the penalties. -/
theorem sum_totals {valueOf : Constraint ℝ → ℝ} (hvalueOf : ∀ c ∈ p.constraints,
    (Graph.value Multipliers.none (.ofVector (p.seenBy c x)) c.graph).result = .ok (valueOf c)) :
    sum ((p.combined.terms.map Bound.binding).map fun b => b.1.total p.multipliers (value b)) =
      sum (((p.combined.terms.map Bound.binding).filter (·.1.isPlain)).map value) +
      sum (p.constraints.map fun c => Penalty.phi p.outer.mu c.dual (valueOf c)) := by
  rw [sum_filter_add (·.1.isPlain)]
  congr 2
  · refine List.map_congr_left fun b hb => ?_
    have hplain := (List.mem_filter.1 hb).2
    cases hsummand : b.1 with
    | plain t => rfl
    | penalty i t =>
        rw [hsummand] at hplain
        cases hplain
  · refine map_penalties hp fun b hb c i hci henforced => ?_
    have hc : c ∈ p.constraints := List.fst_mem_of_mem_zipIdx hci
    have hsame : value b = valueOf c := Except.ok.inj
      ((value_of_constraint hp hx hpoint hterms hb henforced).symm.trans (hvalueOf c hc))
    obtain ⟨t, _, hsummand, _⟩ := henforced.term
    rw [hsummand, hsame]
    show Penalty.phi p.multipliers.mu (p.multipliers.dual i) (valueOf c) = _
    rw [dual_multipliers hci]
    rfl

end Values

/-- The value of the combined graph is that of the objective, plus a penalty for each constraint,
which depends on the value of the constraint's graph at the same state. With multipliers that are
not negative, and where every constraint is met, it is a lower bound of the objective. -/
theorem value_combined {p : Problem ℝ} (hp : p.Built) (hmu : 0 < p.outer.mu) {x : List ℝ}
    (hx : x.length = p.combined.scalars) {point : Storage → List ℝ}
    (hpoint : ∀ v ∈ p.combined.registry.vars, v.StandsFor x (point v.storage))
    (hterms : ∀ b ∈ p.combined.terms,
      ∃ value, b.summand.term.value (pointsOf point b.vars) = .ok value) :
    ∃ (combined objective : ℝ) (value : Constraint ℝ → ℝ),
      (Graph.value p.multipliers (.ofVector x) p.combined).result = .ok combined ∧
      (Graph.value Multipliers.none (.ofVector x) p.objective).result = .ok objective ∧
      (∀ c ∈ p.constraints,
        (Graph.value Multipliers.none (.ofVector (p.seenBy c x)) c.graph).result =
          .ok (value c)) ∧
      combined = objective +
        sum (p.constraints.map fun c => Penalty.phi p.outer.mu c.dual (value c)) ∧
      ((∀ c ∈ p.constraints, 0 ≤ c.dual ∧ value c ≤ 0) → combined ≤ objective) := by
  have hcoherent := hp.coherent
  have hevaluated : ∀ b ∈ p.combined.terms.map Bound.binding,
      ∃ t, b.1.term.value (pointsOf point b.2) = .ok t := by
    intro b hb
    obtain ⟨d, hd, rfl⟩ := List.mem_map.1 hb
    exact hterms d hd
  choose! value hvalues using hevaluated
  obtain ⟨valueOf, hvalueOf⟩ := exists_constraint_value hcoherent hx hpoint hvalues
  refine ⟨_, _, valueOf, value_of_summands hcoherent hx hpoint hvalues hmu,
    value_objective hcoherent hx hpoint hvalues, hvalueOf,
    sum_totals hcoherent hx hpoint hvalues hvalueOf, fun hmet => ?_⟩
  rw [sum_totals hcoherent hx hpoint hvalues hvalueOf]
  have hpenalties : sum (p.constraints.map fun c =>
      Penalty.phi p.outer.mu c.dual (valueOf c)) ≤ 0 :=
    sum_map_nonpos fun c hc => Penalty.phi_nonpos hmu (hmet c hc).1 (hmet c hc).2
  linarith

/-- At the point `3` the constraint `u - 1` has the value `2`, and its penalty is `2 + 2² / 2`. -/
theorem value_tightened : ∃ combined objective : ℝ,
    (Graph.value tightened.multipliers (.ofVector [1]) tightened.combined).result =
      .ok combined ∧
    (Graph.value Multipliers.none (.ofVector [1]) tightened.objective).result = .ok objective ∧
    combined = objective + 4 := by
  have hsound := built_tightened.coherent.combined.registry
  have hpoint : ∀ v ∈ tightened.combined.registry.vars, v.StandsFor [1] [3] := fun v hv =>
    hsound.standsFor_of_smooth rfl hv (smoothAt_tightened v hv)
  have hterms : ∀ b ∈ tightened.combined.terms,
      ∃ value, b.summand.term.value (pointsOf (fun _ => [3]) b.vars) = .ok value := by
    intro b hb
    rw [terms_tightened] at hb
    rcases List.mem_pair.1 hb with rfl | rfl
    · exact ⟨3, hasValue_objective.evaluated⟩
    · exact ⟨2, hasValue_tight.evaluated⟩
  have hmu : 0 < tightened.outer.mu := by
    exact one_pos
  obtain ⟨combined, objective, value, hcombined, hobjective, hvalues, htotal, _⟩ :=
    @value_combined tightened built_tightened hmu [1] rfl (fun _ => [3]) hpoint hterms
  have htwo : value tightConstraint = 2 :=
    Except.ok.inj ((hvalues tightConstraint mem_tightened).symm.trans value_tight)
  have hfour : Penalty.phi tightened.outer.mu tightConstraint.dual 2 = 4 := by
    show Penalty.phi 1 1 2 = 4
    unfold Penalty.phi
    norm_num
  refine ⟨combined, objective, hcombined, hobjective, ?_⟩
  rw [htotal, constraints_tightened, List.map_singleton, sum_cons, htwo, hfour]
  show _ + (_ + 0) = _
  rw [add_zero]

end Problem

end Separable
