import Separable.Proofs.Multipliers
import Separable.Proofs.Transfer

/-!
# Penalties and the Lagrangian

The gradient of the combined graph is that of the Lagrangian, with multipliers that were updated: it
is the gradient of the objective, plus the gradient of every constraint times the multiplier that
the outer loop would give to it at the same point. So a stationary point of the combined graph is a
stationary point of the Lagrangian for the updated multipliers.

The terms are looked at through the user-space points of the storages, since the three kinds of
graphs have nothing else in common. The graph of a constraint consists of one term at twins of
variables of the combined graph, so it sees the points that the penalty sees.

## Main results

* `derivatives_of_twins`, `value_of_twins`, `valueAtStorage_of_twins`: the graph of a constraint
  gives the constraint's value and gradient at the same point.
* `gradient_resolve`: the gradient of a summand is that of its term, times a factor.
* `gradient_combined`: the gradient of the combined graph.
-/

namespace Separable

open Scalar

variable {α : Type} [Backend α]

/-! ## Terms at user-space points -/

/-- The arguments that variables stand for. -/
def pointsOf (point : Storage → List α) (vars : List (Variable α)) : List (List α) :=
  vars.map fun v => point v.storage

/-- The gradients of a term at user-space points. -/
def Term.slopesAt (point : Storage → List α) (t : Term α) (vars : List (Variable α)) : Rows α :=
  (t.gradient (pointsOf point vars) (vars.map fun v => zeros v.userDimension)).1

/-- Whether a term has this value at user-space points, also when it writes its gradient. -/
structure Term.HasValue (point : Storage → List α) (t : Term α) (vars : List (Variable α))
    (value : α) : Prop where
  evaluated : t.value (pointsOf point vars) = .ok value
  derived : (t.gradient (pointsOf point vars) (vars.map fun v => zeros v.userDimension)).2 =
    .ok value

omit [Backend α] in
theorem pointsOf_twins {point : Storage → List α} {vars ws : List (Variable α)}
    (h : List.Forall₂ Variable.Twin vars ws) : pointsOf point ws = pointsOf point vars := by
  induction h with
  | nil => rfl
  | cons hvw _ ih => simp only [pointsOf, List.map_cons, hvw.storage] at ih ⊢; rw [ih]

theorem zeros_twins {vars ws : List (Variable α)} (h : List.Forall₂ Variable.Twin vars ws) :
    (ws.map fun w => (zeros w.userDimension : List α)) =
      vars.map fun v => zeros v.userDimension := by
  induction h with
  | nil => rfl
  | cons hvw _ ih => rw [List.map_cons, List.map_cons, hvw.userDimension, ih]

/-! ## A graph of one term, at twins -/

section Twins

variable {r : Registry α} (hr : r.Sound) {x : List α} (hx : x.length = r.scalars)
  {point : Storage → List α} {jacobian : Storage → Block α}
  (hsmooth : ∀ v ∈ r.vars, v.SmoothAt x (point v.storage) (jacobian v.storage))
  {g : Graph α} (hg : g.Sound) (htwins : ∀ w ∈ g.registry.vars, ∃ v ∈ r.vars, v.Twin w)
  {t : Term α} {vars ws : List (Variable α)} (hws : List.Forall₂ Variable.Twin vars ws)
  (hterms : g.terms.map Bound.binding = [(.plain t, ws)])
  {value : α} (hvalue : t.HasValue point vars value)

include hterms hws in
/-- What the only term of the graph computes with. -/
theorem of_mem_single (point : Storage → List α) (m : Multipliers α) {b : Bound α} (hb : b ∈ g.terms) :
    b.summand.resolve m = t ∧ b.vars = ws ∧ pointsOf point b.vars = pointsOf point vars ∧
      b.zeroRows = vars.map fun v => zeros v.userDimension := by
  have hbinding : b.binding = (.plain t, ws) := by
    have hmem := List.mem_map_of_mem (f := Bound.binding) hb
    rwa [hterms, List.mem_singleton] at hmem
  simp only [Bound.binding, Prod.mk.injEq] at hbinding
  obtain ⟨hsummand, hvars⟩ := hbinding
  refine ⟨by rw [hsummand]; rfl, hvars, ?_, ?_⟩
  · rw [hvars, pointsOf_twins hws]
  · rw [Bound.zeroRows, hvars, zeros_twins hws]

omit [Backend α] in
include hterms in
theorem map_single {β : Type} {f : Bound α → β} {c : β} (hf : ∀ b ∈ g.terms, f b = c) :
    g.terms.map f = [c] := by
  have hlength : g.terms.length = 1 := by simpa using congrArg List.length hterms
  obtain ⟨b, hb⟩ := List.length_eq_one_iff.1 hlength
  rw [hb, List.map_singleton, hf b (by rw [hb]; simp)]

include hg hterms in
theorem mem_of_single : ∀ w ∈ ws, w ∈ g.registry.vars := by
  intro w hw
  have hmem : (Summand.plain t, ws) ∈ g.terms.map Bound.binding := by
    rw [hterms]
    exact List.mem_singleton_self _
  obtain ⟨b, hb, hbinding⟩ := List.mem_map.1 hmem
  simp only [Bound.binding, Prod.mk.injEq] at hbinding
  exact (hg.terms b hb).vars w (hbinding.2 ▸ hw)

omit [Backend α] in
theorem exists_twin {vars ws : List (Variable α)} (h : List.Forall₂ Variable.Twin vars ws)
    {v : Variable α} (hv : v ∈ vars) : ∃ w ∈ ws, v.Twin w := by
  induction h with
  | nil => cases hv
  | @cons u w _ _ htwin _ ih =>
      rcases List.mem_cons.1 hv with rfl | hv
      · exact ⟨w, by simp, htwin⟩
      · obtain ⟨w', hw', htwin'⟩ := ih hv
        exact ⟨w', List.mem_cons_of_mem w hw', htwin'⟩

include hr hx hsmooth hg htwins hws hterms hvalue

omit hsmooth hvalue in
/-- The value of a constraint at a state that was handed to it, from the points alone. -/
theorem value_of_points_of_twins [ExactAddition α] (m : Multipliers α)
    (hpoint : ∀ v ∈ r.vars, v.StandsFor x (point v.storage))
    (hevaluated : t.value (pointsOf point vars) = .ok value) :
    (Graph.value m (.ofVector (r.transfer g.registry x)) g).result = .ok value := by
  have hlength : (r.transfer g.registry x).length = g.scalars :=
    Registry.length_transfer hr hg.registry hx (Registry.matches_of_twins hr htwins)
  have hresult : ∀ b ∈ g.terms,
      (b.summand.resolve m).value (pointsOf point b.vars) = .ok value := by
    intro b hb
    obtain ⟨hterm, _, hpoints, _⟩ := of_mem_single hws hterms point m hb
    rw [hterm, hpoints, hevaluated]
  rw [value_of_points hg m hlength (Registry.standsFor_transfer hr htwins hg.registry hx hpoint)
    hresult, map_single hterms fun _ _ => rfl, sum_cons]
  exact congrArg Except.ok (ExactAddition.add_zero value)

/-- The value of a constraint at a state that was handed to it. -/
theorem value_of_twins [ExactAddition α] (m : Multipliers α) :
    (Graph.value m (.ofVector (r.transfer g.registry x)) g).result = .ok value :=
  value_of_points_of_twins hr hx hg htwins hws hterms m
    (fun v hv => hr.standsFor_of_smooth hx hv (hsmooth v hv)) hvalue.evaluated

omit hx hsmooth hr htwins in
/-- The value of a constraint at a storage that holds the user-space points. -/
theorem valueAtStorage_of_twins [ExactAddition α] (m : Multipliers α) {memory : Memory α}
    (hmemory : ∀ w ∈ g.registry.vars, memory.read w.storage = point w.storage)
    (hpoint : ∀ w ∈ g.registry.vars, (point w.storage).length = w.userDimension) :
    (Graph.valueAtStorage m memory g).result = .ok value := by
  have hscratch : ∀ w ∈ g.registry.vars,
      (g.registry.loadStorage memory).scratch w = point w.storage := by
    intro w hw
    obtain ⟨s, hs, rfl⟩ := hg.registry.exists_slot hw
    have hlength := hg.registry.length_slot (List.mem_of_getElem? hs)
    have hloaded : (g.registry.loadStorage memory).scratch s.toVariable =
        overwrite 0 (memory.read s.storage) s.scratch :=
      Registry.scratch_withScratch hs
    rw [hloaded, hmemory _ hw, overwrite_zero_of_length_eq]
    rw [hpoint _ hw, hlength]
  have hresult : ∀ b ∈ g.terms, (b.summand.resolve m).value
      ((g.registry.loadStorage memory).arguments b) = .ok value := by
    intro b hb
    obtain ⟨hterm, _, hpoints, _⟩ := of_mem_single hws hterms point m hb
    have harguments : (g.registry.loadStorage memory).arguments b = pointsOf point b.vars :=
      List.map_congr_left fun w hw => hscratch w ((hg.terms b hb).vars w hw)
    rw [harguments, hpoints, hterm]
    exact hvalue.evaluated
  obtain ⟨total, htotal, hexact⟩ := Graph.valueAtStorage_of_ok m hg memory
    ((Crew.firstFault_eq_none_iff g.terms).2 fun b hb => ⟨value, hresult b hb⟩)
  rw [htotal, hexact inferInstance, Crew.valuesOf_of_ok hresult, map_single hterms fun _ _ => rfl,
    sum_cons]
  exact congrArg Except.ok (ExactAddition.add_zero value)

/-- The gradient of a constraint at a state that was handed to it, handed back. -/
theorem derivatives_of_twins [ExactAddition α] (m : Multipliers α) (hvars : ∀ v ∈ vars, v ∈ r.vars) :
    ∃ d, (Graph.derivatives m (.ofVector (r.transfer g.registry x)) none (g, none)).result = .ok d ∧
      d.value = value ∧
      ∀ v ∈ r.vars, ∀ k < v.solverDimension,
        (g.registry.transfer r d.gradient).getD (v.offset + k) 0 =
          v.portion (jacobian v.storage) k (vars.zip (t.slopesAt point vars)) := by
  have hlength : (r.transfer g.registry x).length = g.scalars :=
    Registry.length_transfer hr hg.registry hx (Registry.matches_of_twins hr htwins)
  have hsmooth' := Registry.smoothAt_transfer hr htwins hg.registry hx hsmooth
  have hgradient : ∀ b ∈ g.terms, (b.summand.resolve m).gradient (pointsOf point b.vars)
      b.zeroRows = (t.slopesAt point vars, .ok value) := by
    intro b hb
    obtain ⟨hterm, _, hpoints, hrows⟩ := of_mem_single hws hterms point m hb
    rw [hpoints, hrows, hterm]
    exact Prod.ext rfl hvalue.derived
  obtain ⟨d, hd, htotal, hsize, hslice⟩ := derivatives_of_sound hg m hlength hsmooth' hgradient
    (show ∀ b, (none : Option (Tensor α)) = some b →
      b.shape = [g.scalars] ∧ b.kind = .double by simp)
  refine ⟨d, hd, ?_, fun v hv k hk => ?_⟩
  · rw [htotal, map_single hterms fun _ _ => rfl, sum_cons]
    exact ExactAddition.add_zero value
  · have hbound : ∀ w ∈ ws, w ∈ g.registry.vars := mem_of_single hg hterms
    have hmatches := Registry.matches_of_twins' hr htwins hg.registry
    rw [Registry.getD_transfer hg.registry hr hsize hmatches hv hk]
    cases hfind : g.registry.findStorage? v.storage with
    | some w =>
        have htwin := Registry.twin_of_findStorage? hr htwins hg.registry hv hfind
        have hw := Registry.mem_of_findStorage? hfind
        have hentry : ∀ b ∈ g.terms, w.portion (jacobian w.storage) k
            (b.vars.zip (t.slopesAt point vars)) =
              v.portion (jacobian v.storage) k (vars.zip (t.slopesAt point vars)) := by
          intro b hb
          rw [(of_mem_single hws hterms point m hb).2.1, htwin.storage]
          exact Registry.portion_of_twins hr hg.registry hv hw htwin hws hvars hbound _ k _
        dsimp only
        rw [hslice w hw k (htwin.solverDimension.symm ▸ hk), map_single hterms hentry, sum_cons]
        exact ExactAddition.add_zero _
    | none =>
        -- No argument of the term is bound to `v`, or else its twin would have been found.
        refine (Variable.portion_eq_zero (fun u s hmem hid => ?_) k).symm
        have hu := (List.of_mem_zip hmem).1
        have heq : u = v := hr.eq_of_id_eq (hvars u hu) hv hid
        obtain ⟨w, hw, htwin⟩ := exists_twin hws hu
        have hfound := hg.registry.findStorage?_of_mem (hbound w hw)
        rw [htwin.storage, heq, hfind] at hfound
        cases hfound

end Twins

/-! ## Gradients of penalties -/

/-- The term of a summand, without the penalty. -/
def Summand.term : Summand α → Term α
  | plain t => t
  | penalty _ t => t

theorem sum_map_mul (xs : List ℝ) (c : ℝ) : sum (xs.map (· * c)) = sum xs * c := by
  induction xs with
  | nil => exact (zero_mul c).symm
  | cons x rest ih => rw [List.map_cons, sum_cons, sum_cons, ih, add_mul]

/-- A factor of a user-space gradient is a factor of the gradient in solver space. -/
theorem Variable.getD_solverGradient_mul (jacobian : Block ℝ) (v : Variable ℝ) (s : List ℝ)
    (c : ℝ) (k : Nat) : (v.solverGradient jacobian (s.map (· * c))).getD k 0 =
      (v.solverGradient jacobian s).getD k 0 * c := by
  unfold solverGradient
  cases v.reparam with
  | none =>
      by_cases hk : k < s.length
      · simp [List.getD_eq_getElem?_getD, hk]
      · simp [List.getD_eq_getElem?_getD, Nat.le_of_not_lt hk]
  | some _ =>
      have hrow (j : Nat) : jacobian.zipWith (fun row gi => row.getD j 0 * gi) (s.map (· * c)) =
          (jacobian.zipWith (fun row gi => row.getD j 0 * gi) s).map (· * c) := by
        rw [List.zipWith_map_right, List.map_zipWith]
        simp only [mul_assoc]
      dsimp only [transposedProduct]
      by_cases hk : k < v.solverDimension
      · simp only [hrow, sum_map_mul]
        simp [List.getD_eq_getElem?_getD, hk]
      · simp [List.getD_eq_getElem?_getD, Nat.le_of_not_lt hk]

theorem Variable.portion_mul (jacobian : Block ℝ) (v : Variable ℝ) (k : Nat)
    (vars : List (Variable ℝ)) (rows : Rows ℝ) (c : ℝ) :
    v.portion jacobian k (vars.zip (rows.map (List.map (· * c)))) =
      v.portion jacobian k (vars.zip rows) * c := by
  unfold portion
  rw [← sum_map_mul, List.zip_map_right, List.map_map, List.map_map]
  congr 1
  refine List.map_congr_left fun (w, s) _ => ?_
  simp only [Function.comp_apply, Prod.map_apply, id_eq, getD_solverGradient_mul]
  split
  · rfl
  · exact (zero_mul c).symm

namespace Summand

/-- The factor between the gradient of a term and that of its summand. For a penalty that is the
multiplier after an update at the value of the term. -/
noncomputable def factor (m : Multipliers ℝ) (value : ℝ) : Summand ℝ → ℝ
  | plain _ => 1
  | penalty constraint _ => Constraint.moved m.mu (m.dual constraint) value

/-- The gradient of a summand is that of its term, times the factor. -/
theorem gradient_resolve {m : Multipliers ℝ} (hmu : 0 < m.mu) (s : Summand ℝ)
    {args : List (List ℝ)} {rows : Rows ℝ} {value : ℝ}
    (h : (s.term.gradient args rows).2 = .ok value) :
    ∃ total, (s.resolve m).gradient args rows =
      ((s.term.gradient args rows).1.map (List.map (· * s.factor m value)), .ok total) := by
  cases s with
  | plain t =>
      have hrows : (t.gradient args rows).1.map (List.map (· * (1 : ℝ))) =
          (t.gradient args rows).1 := by simp
      exact ⟨value, Prod.ext hrows.symm h⟩
  | penalty constraint t =>
      obtain ⟨total, htotal⟩ := Penalty.gradient_penalized hmu t (m.dual constraint)
        (Prod.ext rfl h : t.gradient args rows = ((t.gradient args rows).1, .ok value))
      refine ⟨total, ?_⟩
      rw [← mapRows_eq_map (fun g => g * factor m value (.penalty constraint t))]
      exact htotal

end Summand

/-! ## The combined gradient -/

theorem sum_filter_add {β : Type} (p : β → Bool) (f : β → ℝ) (bs : List β) :
    sum (bs.map f) = sum ((bs.filter p).map f) + sum ((bs.filter (!p ·)).map f) := by
  induction bs with
  | nil => exact (add_zero 0).symm
  | cons b rest ih =>
      cases hb : p b
      · rw [List.filter_cons_of_neg (by simp [hb]), List.filter_cons_of_pos (by simp [hb]),
          List.map_cons, List.map_cons, sum_cons, sum_cons, ih]
        ring
      · rw [List.filter_cons_of_pos hb, List.filter_cons_of_neg (by simp [hb]),
          List.map_cons, List.map_cons, sum_cons, sum_cons, ih]
        ring

namespace Problem

/-- A state of the combined graph, as the graph of a constraint sees it. -/
def seenBy (p : Problem α) (c : Constraint α) (x : List α) : List α :=
  p.combined.registry.transfer c.graph.registry x

/-- A gradient of a constraint, at the slices that its variables have in the combined graph. -/
def placed (p : Problem α) (c : Constraint α) (g : List α) : List α :=
  c.graph.registry.transfer p.combined.registry g

/-- A term of the objective is one of the combined graph, and is not a penalty. -/
theorem Coherent.of_mem_objective {p : Problem α} (hp : p.Coherent) {b : Bound α}
    (hb : b ∈ p.objective.terms) (m : Multipliers α) :
    (∃ d ∈ p.combined.terms, d.binding = b.binding) ∧ b.summand.resolve m = b.summand.term := by
  have hmem : b.binding ∈ (p.combined.terms.map Bound.binding).filter (·.1.isPlain) :=
    hp.plain ▸ List.mem_map_of_mem hb
  obtain ⟨hmem, hplain⟩ := List.mem_filter.1 hmem
  refine ⟨List.mem_map.1 hmem, ?_⟩
  cases hsummand : b.summand with
  | plain t => rfl
  | penalty i t =>
      rw [Bound.binding, hsummand] at hplain
      cases hplain

section Lagrangian

variable {p : Problem ℝ} (hp : p.Coherent) (hmu : 0 < p.outer.mu) {x : List ℝ}
  (hx : x.length = p.combined.scalars) {point : Storage → List ℝ} {jacobian : Storage → Block ℝ}
  (hsmooth : ∀ v ∈ p.combined.registry.vars, v.SmoothAt x (point v.storage) (jacobian v.storage))
  {value : Summand ℝ × List (Variable ℝ) → ℝ}
  (hterms : ∀ b ∈ p.combined.terms,
    b.summand.term.HasValue point b.vars (value b.binding))

/-- What a term contributes to an entry of the slice of `v`, without the penalty. -/
noncomputable def contribution (point : Storage → List ℝ) (jacobian : Storage → Block ℝ)
    (v : Variable ℝ) (k : Nat) (b : Summand ℝ × List (Variable ℝ)) : ℝ :=
  v.portion (jacobian v.storage) k (b.2.zip (b.1.term.slopesAt point b.2))

include hp hmu hx hsmooth hterms in
/-- The gradient of the combined graph, entry by entry. -/
theorem derivatives_combined :
    ∃ d, (Graph.derivatives p.multipliers (.ofVector x) none (p.combined, none)).result = .ok d ∧
      d.gradient.length = p.combined.scalars ∧
      ∀ v ∈ p.combined.registry.vars, ∀ k < v.solverDimension,
        d.gradient.getD (v.offset + k) 0 =
          sum ((p.combined.terms.map Bound.binding).map fun b =>
            contribution point jacobian v k b * b.1.factor p.multipliers (value b)) := by
  have hresolved : ∀ b : Bound ℝ, ∃ total, b ∈ p.combined.terms →
      (b.summand.resolve p.multipliers).gradient (pointsOf point b.vars) b.zeroRows =
        ((b.summand.term.slopesAt point b.vars).map
          (List.map (· * b.summand.factor p.multipliers (value b.binding))), .ok total) := by
    intro b
    by_cases hb : b ∈ p.combined.terms
    · obtain ⟨total, htotal⟩ := Summand.gradient_resolve (m := p.multipliers) hmu b.summand
        (hterms b hb).derived
      exact ⟨total, fun _ => htotal⟩
    · exact ⟨0, fun hmem => absurd hmem hb⟩
  choose total htotal using hresolved
  obtain ⟨d, hd, _, hlength, hslice⟩ := derivatives_of_sound hp.combined p.multipliers hx hsmooth
    htotal
    (show ∀ b, (none : Option (Tensor ℝ)) = some b →
      b.shape = [p.combined.scalars] ∧ b.kind = .double by simp)
  refine ⟨d, hd, hlength, fun v hv k hk => ?_⟩
  rw [hslice v hv k hk, List.map_map]
  congr 1
  exact List.map_congr_left fun b _ => Variable.portion_mul _ v k b.vars _ _

include hp hx hsmooth hterms in
/-- The gradient of the objective, entry by entry. -/
theorem derivatives_objective :
    ∃ d, (Graph.derivatives Multipliers.none (.ofVector x) none (p.objective, none)).result = .ok d ∧
      d.gradient.length = p.combined.scalars ∧
      ∀ v ∈ p.combined.registry.vars, ∀ k < v.solverDimension,
        d.gradient.getD (v.offset + k) 0 =
          sum (((p.combined.terms.map Bound.binding).filter (·.1.isPlain)).map
            (contribution point jacobian v k)) := by
  have hscalars : p.objective.scalars = p.combined.scalars :=
    hp.objective.registry.scalars_eq hp.combined.registry hp.vars
  have hresolved : ∀ b ∈ p.objective.terms,
      (b.summand.resolve Multipliers.none).gradient (pointsOf point b.vars) b.zeroRows =
        (b.summand.term.slopesAt point b.vars, .ok (value b.binding)) := by
    intro b hb
    obtain ⟨⟨d, hd, heq⟩, hterm⟩ := hp.of_mem_objective hb Multipliers.none
    have hvalue := (hterms d hd).derived
    simp only [Bound.binding, Prod.mk.injEq] at heq
    rw [heq.1, heq.2, show d.binding = b.binding from Prod.ext heq.1 heq.2] at hvalue
    rw [hterm]
    exact Prod.ext rfl hvalue
  obtain ⟨d, hd, _, hlength, hslice⟩ := derivatives_of_sound hp.objective Multipliers.none
    (hx.trans hscalars.symm) (hp.vars ▸ hsmooth) hresolved
    (show ∀ b, (none : Option (Tensor ℝ)) = some b →
      b.shape = [p.objective.scalars] ∧ b.kind = .double by simp)
  refine ⟨d, hd, hlength.trans hscalars, fun v hv k hk => ?_⟩
  rw [hslice v (hp.vars ▸ hv) k hk, ← hp.plain, List.map_map]
  rfl

/-- What the graph of a constraint gives at the same point as its penalty `b`: value and gradient at
the state that was handed to it, the value at a storage that holds the point, and the contribution
of the term to the slices of the combined graph. -/
structure Slope (p : Problem ℝ) (x : List ℝ) (point : Storage → List ℝ)
    (jacobian : Storage → Block ℝ) (value : Summand ℝ × List (Variable ℝ) → ℝ) (c : Constraint ℝ)
    (b : Summand ℝ × List (Variable ℝ)) (d : Derivatives ℝ) : Prop where
  derivatives : (Graph.derivatives Multipliers.none (.ofVector (p.seenBy c x)) none
    (c.graph, none)).result = .ok d
  evaluated : (Graph.value Multipliers.none (.ofVector (p.seenBy c x)) c.graph).result =
    .ok d.value
  stored : ∀ memory : Memory ℝ,
    (∀ v ∈ p.combined.registry.vars, memory.read v.storage = point v.storage) →
      (Graph.valueAtStorage Multipliers.none memory c.graph).result = .ok d.value
  value : d.value = value b
  entry : ∀ v ∈ p.combined.registry.vars, ∀ k < v.solverDimension,
    (p.placed c d.gradient).getD (v.offset + k) 0 = contribution point jacobian v k b

include hp hx hsmooth hterms in
/-- The graph of a constraint gives the term of its penalty at the same point. -/
theorem exists_slope {c : Constraint ℝ} {i : Nat} {b : Summand ℝ × List (Variable ℝ)}
    (hb : b ∈ p.combined.terms.map Bound.binding) (h : c.Enforced i b) :
    ∃ d, Slope p x point jacobian value c b d := by
  obtain ⟨d, hd, rfl⟩ := List.mem_map.1 hb
  have hvars := (hp.combined.terms d hd).vars
  obtain ⟨t, ws, hsummand, hws, hsingle⟩ := h.term
  have htwins : ∀ w ∈ c.graph.registry.vars, ∃ v ∈ p.combined.registry.vars, v.Twin w := by
    intro w hw
    obtain ⟨v, hv, htwin⟩ := h.twins w hw
    exact ⟨v, hvars v hv, htwin⟩
  have hterm : d.binding.1.term = t := by
    rw [hsummand]
    rfl
  have hvalue : t.HasValue point d.vars (value d.binding) := hterm ▸ hterms d hd
  obtain ⟨e, he, hsame, hentry⟩ := derivatives_of_twins hp.combined.registry hx hsmooth h.sound
    htwins hws hsingle hvalue Multipliers.none hvars
  refine ⟨e, he, ?_, fun memory hmemory => ?_, hsame, fun v hv k hk => ?_⟩
  · rw [hsame]
    exact value_of_twins hp.combined.registry hx hsmooth h.sound htwins hws hsingle hvalue _
  · rw [hsame]
    refine valueAtStorage_of_twins h.sound hws hsingle hvalue _ (fun w hw => ?_) fun w hw => ?_
    · obtain ⟨v, hv, htwin⟩ := htwins w hw
      rw [htwin.storage]
      exact hmemory v hv
    · obtain ⟨v, hv, htwin⟩ := htwins w hw
      rw [htwin.storage, htwin.userDimension]
      exact (hp.combined.registry.standsFor_of_smooth hx hv (hsmooth v hv)).length
  · rw [placed, hentry v hv k hk, contribution, hterm]

include hp in
/-- The penalties of the combined graph, constraint by constraint. -/
theorem map_penalties {f : Summand ℝ × List (Variable ℝ) → ℝ} {h : Constraint ℝ → ℝ}
    (hf : ∀ b ∈ p.combined.terms.map Bound.binding, ∀ c i, (c, i) ∈ p.constraints.zipIdx →
      c.Enforced i b → f b = h c) :
    ((p.combined.terms.map Bound.binding).filter (!·.1.isPlain)).map f = p.constraints.map h := by
  have hmem : ∀ b ∈ (p.combined.terms.map Bound.binding).filter (!·.1.isPlain),
      b ∈ p.combined.terms.map Bound.binding := fun b hb => (List.mem_filter.1 hb).1
  have hleft := (List.forall₂_and_left _ _).2 ⟨hmem, hp.penalties⟩
  have hboth := (List.forall₂_and_left _ _).2
    ⟨fun ci (hci : ci ∈ p.constraints.zipIdx) => hci, hleft.flip⟩
  have heq : List.Forall₂ (fun a b : ℝ => a = b) (p.constraints.zipIdx.map fun ci => h ci.1)
      (((p.combined.terms.map Bound.binding).filter (!·.1.isPlain)).map f) := by
    rw [List.forall₂_map_left_iff, List.forall₂_map_right_iff]
    exact hboth.imp fun (c, i) b ⟨hci, hb, henforced⟩ => (hf b hb c i hci henforced).symm
  rw [List.forall₂_eq_eq_eq] at heq
  have hfirst : p.constraints.zipIdx.map (fun ci => h ci.1) = p.constraints.map h := by
    conv_rhs => rw [← List.zipIdx_map_fst 0 p.constraints, List.map_map]
    rfl
  rw [← heq, hfirst]

include hp in
/-- The sum over all terms is the sum over those of the objective, and the sum over all constraints
of what each contributes times its updated multiplier. -/
theorem sum_factors {slope : Constraint ℝ → Derivatives ℝ}
    (hslope : ∀ c ∈ p.constraints, ∀ i, ∀ b ∈ p.combined.terms.map Bound.binding,
      c.Enforced i b → Slope p x point jacobian value c b (slope c))
    {v : Variable ℝ} (hv : v ∈ p.combined.registry.vars) {k : Nat} (hk : k < v.solverDimension) :
    sum ((p.combined.terms.map Bound.binding).map fun b =>
        contribution point jacobian v k b * b.1.factor p.multipliers (value b)) =
      sum (((p.combined.terms.map Bound.binding).filter (·.1.isPlain)).map
        (contribution point jacobian v k)) +
      sum (p.constraints.map fun c =>
        Constraint.moved p.outer.mu c.dual (slope c).value *
          (p.placed c (slope c).gradient).getD (v.offset + k) 0) := by
  rw [sum_filter_add (·.1.isPlain)]
  congr 1
  · congr 1
    refine List.map_congr_left fun b hb => ?_
    have hplain := (List.mem_filter.1 hb).2
    cases hsummand : b.1 with
    | plain t => exact mul_one _
    | penalty i t =>
        rw [hsummand] at hplain
        cases hplain
  · -- A penalty contributes what its constraint does, times the multiplier of its place.
    congr 1
    refine map_penalties hp fun b hb c i hci henforced => ?_
    have hc : c ∈ p.constraints := List.fst_mem_of_mem_zipIdx hci
    have hslope := hslope c hc i b hb henforced
    obtain ⟨t, _, hsummand, _⟩ := henforced.term
    rw [hslope.entry v hv k hk, hslope.value, hsummand, mul_comm]
    congr 1
    show Constraint.moved p.multipliers.mu (p.multipliers.dual i) (value b) = _
    rw [dual_multipliers hci]
    rfl

include hp hx hsmooth hterms in
/-- What a constraint gives does not depend on the penalty that it is compared with. -/
theorem exists_slopes : ∃ slope : Constraint ℝ → Derivatives ℝ,
    ∀ c ∈ p.constraints, ∀ i, ∀ b ∈ p.combined.terms.map Bound.binding,
      c.Enforced i b → Slope p x point jacobian value c b (slope c) := by
  have hchosen : ∀ c, ∃ d, c ∈ p.constraints → ∃ b, Slope p x point jacobian value c b d := by
    intro c
    by_cases hc : c ∈ p.constraints
    · obtain ⟨i, b, hb, henforced⟩ := hp.exists_enforced hc
      obtain ⟨d, hd⟩ := exists_slope hp hx hsmooth hterms hb henforced
      exact ⟨d, fun _ => ⟨b, hd⟩⟩
    · exact ⟨⟨0, [], none⟩, fun hmem => absurd hmem hc⟩
  choose slope hslope using hchosen
  refine ⟨slope, fun c hc i b hb henforced => ?_⟩
  obtain ⟨_, hfirst⟩ := hslope c hc
  obtain ⟨d, hd⟩ := exists_slope hp hx hsmooth hterms hb henforced
  have hsame : d = slope c := Except.ok.inj (hd.derivatives.symm.trans hfirst.derivatives)
  exact hsame ▸ hd

/-- The values of all terms as a function of summand and variables. -/
theorem exists_value
    (hterms : ∀ b ∈ p.combined.terms, ∃ value, b.summand.term.HasValue point b.vars value) :
    ∃ value : Summand ℝ × List (Variable ℝ) → ℝ,
      ∀ b ∈ p.combined.terms, b.summand.term.HasValue point b.vars (value b.binding) := by
  have hchosen : ∀ b : Summand ℝ × List (Variable ℝ), ∃ value,
      (∃ other, b.1.term.HasValue point b.2 other) → b.1.term.HasValue point b.2 value := by
    intro b
    by_cases h : ∃ other, b.1.term.HasValue point b.2 other
    · exact ⟨h.choose, fun _ => h.choose_spec⟩
    · exact ⟨0, fun hsome => absurd hsome h⟩
  choose value hvalue using hchosen
  exact ⟨value, fun b hb => hvalue b.binding (hterms b hb)⟩

end Lagrangian

/-- The gradient of the combined graph is the gradient of the objective, plus the gradient of every
constraint times the multiplier that an update at the same point would give to it. So where it is
zero, the gradient of the Lagrangian for the updated multipliers is zero, too. -/
theorem gradient_combined {p : Problem ℝ} (hp : p.Built) (hmu : 0 < p.outer.mu) {x : List ℝ}
    (hx : x.length = p.combined.scalars) {point : Storage → List ℝ} {jacobian : Storage → Block ℝ}
    (hsmooth : ∀ v ∈ p.combined.registry.vars,
      v.SmoothAt x (point v.storage) (jacobian v.storage))
    (hterms : ∀ b ∈ p.combined.terms, ∃ value, b.summand.term.HasValue point b.vars value) :
    ∃ (combined objective : Derivatives ℝ) (slope : Constraint ℝ → Derivatives ℝ)
      (dual : Constraint ℝ → ℝ),
      (Graph.derivatives p.multipliers (.ofVector x) none (p.combined, none)).result =
        .ok combined ∧
      (Graph.derivatives Multipliers.none (.ofVector x) none (p.objective, none)).result =
        .ok objective ∧
      (∀ c ∈ p.constraints,
        (Graph.derivatives Multipliers.none (.ofVector (p.seenBy c x)) none
          (c.graph, none)).result = .ok (slope c) ∧
        (Graph.value Multipliers.none (.ofVector (p.seenBy c x)) c.graph).result =
          .ok (slope c).value ∧
        Constraint.movedDual p.outer.mu { c with value := (slope c).value } = .ok (dual c)) ∧
      (∀ memory : Memory ℝ,
        (∀ v ∈ p.combined.registry.vars, memory.read v.storage = point v.storage) →
          (Constraint.evaluateAll memory p.constraints).result =
            .ok (p.constraints.map fun c => (slope c).value) ∧
          (Constraint.moveDuals p.outer.mu
            (Constraint.evaluateAll memory p.constraints).state).1.map (·.dual) =
              p.constraints.map dual) ∧
      combined.gradient.length = p.combined.scalars ∧
      objective.gradient.length = p.combined.scalars ∧
      (∀ k < p.combined.scalars, combined.gradient.getD k 0 = objective.gradient.getD k 0 +
        sum (p.constraints.map fun c => dual c * (p.placed c (slope c).gradient).getD k 0)) ∧
      (combined.gradient = zeros p.combined.scalars → ∀ k < p.combined.scalars,
        objective.gradient.getD k 0 +
          sum (p.constraints.map fun c =>
            dual c * (p.placed c (slope c).gradient).getD k 0) = 0) := by
  have hcoherent := hp.coherent
  obtain ⟨value, hvalues⟩ := exists_value hterms
  obtain ⟨combined, hcombined, hcombinedLength, hcombinedEntry⟩ :=
    derivatives_combined hcoherent hmu hx hsmooth hvalues
  obtain ⟨objective, hobjective, hobjectiveLength, hobjectiveEntry⟩ :=
    derivatives_objective hcoherent hx hsmooth hvalues
  obtain ⟨slope, hslope⟩ := exists_slopes hcoherent hx hsmooth hvalues
  have hany : ∀ c ∈ p.constraints, ∃ b, Slope p x point jacobian value c b (slope c) := by
    intro c hc
    obtain ⟨i, b, hb, henforced⟩ := hcoherent.exists_enforced hc
    exact ⟨b, hslope c hc i b hb henforced⟩
  have hentry : ∀ k < p.combined.scalars, combined.gradient.getD k 0 =
      objective.gradient.getD k 0 + sum (p.constraints.map fun c =>
        Constraint.moved p.outer.mu c.dual (slope c).value *
          (p.placed c (slope c).gradient).getD k 0) := by
    intro k hk
    obtain ⟨v, hv, j, hj, rfl⟩ :=
      hcoherent.combined.registry.slices.exists_slice (Nat.zero_le k) hk
    rw [hcombinedEntry v hv j hj, hobjectiveEntry v hv j hj]
    exact sum_factors hcoherent hslope hv hj
  refine ⟨combined, objective, slope,
    fun c => Constraint.moved p.outer.mu c.dual (slope c).value, hcombined, hobjective,
    fun c hc => ?_, fun memory hmemory => ?_, hcombinedLength, hobjectiveLength, hentry,
    fun hzero k hk => ?_⟩
  · obtain ⟨b, hb⟩ := hany c hc
    exact ⟨hb.derivatives, hb.evaluated, Constraint.movedDual_real hmu _⟩
  · have hstored : ∀ c ∈ p.constraints, (Graph.valueAtStorage Multipliers.none memory
        c.graph).result = .ok (slope c).value := by
      intro c hc
      obtain ⟨b, hb⟩ := hany c hc
      exact hb.stored memory hmemory
    obtain ⟨hstate, hresult⟩ := Constraint.evaluateAll_of_ok hstored
    refine ⟨hresult, ?_⟩
    rw [hstate, Constraint.moveDuals_real hmu, List.map_map, List.map_map]
    rfl
  · rw [← hentry k hk, hzero, getD_zeros]

/-! ### A problem with one constraint -/

/-- An objective and a constraint on one reparameterized variable, with a multiplier. -/
noncomputable def tightened : Problem ℝ :=
  (setMultipliers (some (.ok 1)) [("c", .ok 1)]
    (addConstraint "c" (.affine [[1]] (-1)) [.handle 0]
      (addTerm (.affine [[1]] 0) [.handle 0]
        (addVariable soleStorage none (some doubledPlusOne)
          ⟨.standard, 2, .empty false 2, .empty false 2, [], .fresh⟩).state).state).state).state

/-- Its constraint. -/
noncomputable def tightConstraint : Constraint ℝ where
  name := "c"
  graph := (Graph.addTerm (.plain (.affine [[1]] (-1))) [.storage soleStorage]
    (Graph.addVariable soleStorage (some 1) (some doubledPlusOne) (.empty false 2)).state).state
  dual := 1
  value := 0

theorem built_tightened : tightened.Built :=
  .setMultipliers (.addConstraint (.addTerm (.addVariable
    (.new (show Problem.new .standard 2 = .ok _ from rfl)) _ _ _) _ _) _ _ _) _ _

theorem vars_tightened : tightened.combined.registry.vars = [soleVariable] := rfl

theorem terms_tightened : tightened.combined.terms =
    [⟨.plain (.affine [[1]] 0), [soleVariable], []⟩,
      ⟨.penalty 0 (.affine [[1]] (-1)), [soleVariable], []⟩] := rfl

theorem constraints_tightened : tightened.constraints = [tightConstraint] := rfl

theorem hasValue_tight : Term.HasValue (fun _ => [(3 : ℝ)]) (.affine [[1]] (-1)) [soleVariable]
    2 := by
  constructor <;> simp [Term.affine, pointsOf, mapRows, Term.firstShort, soleVariable, zeros] <;>
    norm_num

theorem hasValue_objective : Term.HasValue (fun _ => [(3 : ℝ)]) (.affine [[1]] 0) [soleVariable]
    3 := by
  constructor <;> simp [Term.affine, pointsOf, mapRows, Term.firstShort, soleVariable, zeros]

theorem mem_tightened : tightConstraint ∈ tightened.constraints := by
  rw [constraints_tightened]
  simp

theorem smoothAt_tightened : ∀ v ∈ tightened.combined.registry.vars, v.SmoothAt [1] [3] [[2]] := by
  intro v hv
  rw [vars_tightened] at hv
  rw [List.mem_singleton.1 hv]
  exact smooth_soleVariable

/-- At the point `3` the graph of the constraint `u - 1` has the value `2`. -/
theorem value_tight : (Graph.value Multipliers.none
    (.ofVector (tightened.seenBy tightConstraint [1])) tightConstraint.graph).result = .ok 2 := by
  have htwin : soleVariable.Twin soleVariable := ⟨rfl, rfl, rfl, rfl⟩
  have hcoherent := built_tightened.coherent
  refine @value_of_twins ℝ _ _ hcoherent.combined.registry [1] rfl (fun _ => [3])
    (fun _ => [[2]]) smoothAt_tightened _ (hcoherent.sound _ mem_tightened)
    (fun w hw => ⟨soleVariable, ?_, ?_⟩) _ _ _
    (List.Forall₂.cons htwin List.Forall₂.nil) rfl _ hasValue_tight _ _
  · rw [vars_tightened]
    simp
  · have hvars : tightConstraint.graph.registry.vars = [soleVariable] := rfl
    rw [hvars] at hw
    rw [List.mem_singleton.1 hw]
    exact htwin

/-- At the point `3` the constraint `u - 1` has the value `2`, and its multiplier becomes `1 + 2`. -/
theorem gradient_tightened : ∃ (combined objective slope : Derivatives ℝ),
    (Graph.derivatives tightened.multipliers (.ofVector [1]) none
      (tightened.combined, none)).result = .ok combined ∧
    (Graph.derivatives Multipliers.none (.ofVector [1]) none
      (tightened.objective, none)).result = .ok objective ∧
    (Graph.derivatives Multipliers.none (.ofVector [1]) none
      (tightConstraint.graph, none)).result = .ok slope ∧
    combined.gradient.getD 0 0 = objective.gradient.getD 0 0 +
      3 * (tightened.placed tightConstraint slope.gradient).getD 0 0 := by
  have hterms : ∀ b ∈ tightened.combined.terms,
      ∃ value, b.summand.term.HasValue (fun _ => [3]) b.vars value := by
    intro b hb
    rw [terms_tightened] at hb
    rcases List.mem_pair.1 hb with rfl | rfl
    · exact ⟨3, hasValue_objective⟩
    · exact ⟨2, hasValue_tight⟩
  have hmu : 0 < tightened.outer.mu := by
    exact one_pos
  obtain ⟨combined, objective, slope, dual, hcombined, hobjective, hconstraints, _, _, _, hentry,
    _⟩ := @gradient_combined tightened built_tightened hmu [1] rfl (fun _ => [3]) (fun _ => [[2]])
      smoothAt_tightened hterms
  obtain ⟨hslope, hvalue, hdual⟩ := hconstraints tightConstraint mem_tightened
  have hslopeValue : (slope tightConstraint).value = 2 :=
    Except.ok.inj (hvalue.symm.trans value_tight)
  have hthree : dual tightConstraint = 3 := by
    rw [Constraint.movedDual_real hmu, hslopeValue] at hdual
    rw [← Except.ok.inj hdual]
    show Constraint.moved 1 1 2 = 3
    unfold Constraint.moved
    norm_num
  refine ⟨combined, objective, slope tightConstraint, hcombined, hobjective, hslope, ?_⟩
  rw [hentry 0 (show 0 < 1 from Nat.one_pos), constraints_tightened, List.map_singleton, sum_cons,
    hthree]
  show _ + (_ + 0) = _
  rw [add_zero]

end Problem

end Separable
