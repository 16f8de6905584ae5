import Separable.Proofs.Derivatives
import Separable.Proofs.Points
import Separable.Term.Elementary

/-!
# Value and gradient of a sum of terms

The contract of an evaluation, for a graph that was built in any way: given that each
reparameterization maps the point of its variable into user space and adds `Jᵀ g` to what it is
handed (`Reparam.Smooth`), and given the values and gradients of the terms at these points, the
evaluation returns the sum of the values, and a gradient whose slice for a variable is the sum over
all arguments that are bound to it, in whichever term and at whichever position.

## Main results

* `Reparam.smooth_linear`: affine reparameterizations keep the contract.
* `standsFor_of_smooth`: the terms see the user-space points.
* `derivatives_of_smooth`: value and gradient of the graph.
-/

namespace Separable

open Scalar

variable {α : Type} [Backend α]

/-- The product of the transpose of a matrix of so many columns with a vector. -/
def transposedProduct (columns : Nat) (matrix : Block α) (g : List α) : List α :=
  (List.range columns).map fun j => sum (matrix.zipWith (fun row gi => row.getD j 0 * gi) g)

/-- Whether a reparameterization maps the point `t` to `u`, and adds `Jᵀ g` to a gradient. -/
structure Reparam.Smooth (c : Reparam α) (t u : List α) (jacobian : Block α) : Prop where
  length : (u.length : Int) = c.userDimension
  toUser : ∀ old : List α, old.length = u.length → c.toUser t old = (u, .ok ())
  pullBack : ∀ g total : List α, g.length = u.length → total.length = c.solverDimension →
    c.pullBack t g total =
      (total.zipWith (· + ·) (transposedProduct c.solverDimension jacobian g), .ok ())

namespace Variable

/-- Whether the state `x` stands for the user-space point `u` of the variable. Without a
reparameterization that is the slice of the state, and the Jacobian does not matter. -/
def SmoothAt (x u : List α) (jacobian : Block α) (v : Variable α) : Prop :=
  match v.reparam with
  | none => u = v.part x
  | some c => c.Smooth (v.part x) u jacobian

/-- A user-space gradient of the variable in solver space. -/
def solverGradient (jacobian : Block α) (v : Variable α) (g : List α) : List α :=
  match v.reparam with
  | none => g
  | some _ => transposedProduct v.solverDimension jacobian g

end Variable

/-! ## Affine reparameterizations -/

omit [Backend α] in
theorem Reparam.shortestRow_eq {limit : Nat} {rows : List (List α)}
    (h : ∀ row ∈ rows, limit ≤ row.length) : shortestRow limit rows = limit := by
  unfold shortestRow
  induction rows with
  | nil => rfl
  | cons row rest ih =>
      rw [List.foldl_cons, Nat.min_eq_left (h row (by simp))]
      exact ih fun other hother => h other (List.mem_cons_of_mem row hother)

/-- The affine map `x = A t + b` keeps the contract, with `A` as its Jacobian. -/
theorem Reparam.smooth_linear {forward backward : List (List α)} {shift : List α}
    (hshift : shift.length = forward.length)
    (hrows : ∀ row ∈ forward, backward.length ≤ row.length) (t : List α) :
    (linear forward backward shift).Smooth t
      ((forward.zip shift).map fun (row, b) => sum (row.zipWith (· * ·) t) + b) forward where
  length := by simp [linear, hshift]
  toUser := by
    intro old hold
    have hlength : old.length = shift.length := by simpa [hshift] using hold
    have hsame := (linear forward backward shift).toUser_length t old
    refine Prod.ext (List.ext_getElem (hsame.trans hold) fun i hi hi' => ?_) ?_
    · have hi : i < shift.length := by simpa [hshift] using hi'
      have hforward : i < forward.length := hshift ▸ hi
      simp [linear_toUser, hi, hforward]
    · simp [linear_toUser, endingAt, hlength]
  pullBack := by
    intro g total _ htotal
    have hcolumns : shortestRow total.length (forward.take g.length) = total.length :=
      shortestRow_eq fun row hrow => by
        rw [htotal]
        exact hrows row (List.mem_of_mem_take hrow)
    have hbackward : total.length = backward.length := htotal
    refine Prod.ext (List.ext_getElem (by simp [linear, transposedProduct, hbackward])
      fun i hi hi' => ?_) ?_
    · have hi : i < total.length := by simpa [linear] using hi
      simp [linear, hcolumns, transposedProduct, Nat.not_le.2 hi]
    · simp [linear, hcolumns, endingAt]

/-! ## The points that the terms see -/

section Points

variable {r : Registry α} {x : List α} {point : Variable α → List α}
  {jacobian : Variable α → Block α}

/-- A state stands for the points of the contract. -/
theorem Registry.Sound.standsFor_of_smooth (hr : r.Sound) (hx : x.length = r.scalars)
    {v : Variable α} (hv : v ∈ r.vars) {u : List α} {j : Block α} (hsmooth : v.SmoothAt x u j) :
    v.StandsFor x u := by
  unfold Variable.SmoothAt at hsmooth
  cases hc : v.reparam with
  | none =>
      rw [hc] at hsmooth
      dsimp only at hsmooth
      rw [hsmooth]
      exact hr.standsFor_part hx hv hc
  | some c =>
      rw [hc] at hsmooth
      have hlength : u.length = v.userDimension := by
        have hpoint := hsmooth.length
        have huser := ((hr.fits v hv).reparam c hc).1
        omega
      refine ⟨hlength, fun old hold => ?_⟩
      rw [Variable.values_some hc]
      exact hsmooth.toUser old (hold.trans hlength.symm)

variable (hr : r.Sound) (hx : x.length = r.scalars)
  (hsmooth : ∀ v ∈ r.vars, v.SmoothAt x (point v) (jacobian v))

include hr hx hsmooth

/-- The state can be copied into the scratch vectors. -/
theorem load_of_smooth : (Registry.load (.ofVector x) r).result = .ok () :=
  load_of_points hr fun v hv => hr.standsFor_of_smooth hx hv (hsmooth v hv)

/-- The terms see the user-space points. -/
theorem arguments_of_smooth {hessianEnabled : Bool} {b : Bound α} (hb : b.Fits r hessianEnabled) :
    (r.loaded x).arguments b = b.vars.map point :=
  arguments_of_points hr hb fun v hv =>
    hr.standsFor_of_smooth hx (hb.vars v hv) (hsmooth v (hb.vars v hv))

omit hr hx in
theorem additive_of_smooth : ∀ v ∈ r.vars, v.Additive x := by
  intro v hv c hc g hg
  have hv := hsmooth v hv
  rw [Variable.SmoothAt, hc] at hv
  refine ⟨transposedProduct c.solverDimension (jacobian v) g, .ok (),
    by simp [transposedProduct], fun total htotal => ?_⟩
  have hlength : g.length = (point v).length := by
    have hpoint := hv.length
    omega
  rw [hv.pullBack g total hlength htotal]
  exact ⟨rfl, fun _ => rfl⟩

omit hx in
/-- Every gradient can be added. -/
theorem addSlopes_of_smooth {slopes : List (Variable α × List α)} (hslopes : r.Slopes slopes)
    {total : List α} (htotal : total.length = r.scalars) :
    (addSlopes x slopes total).2 = .ok () := by
  induction slopes generalizing total with
  | nil => rfl
  | cons slope rest ih =>
      obtain ⟨v, g⟩ := slope
      obtain ⟨hv, hg⟩ := hslopes.head
      cases hc : v.reparam with
      | none =>
          simp only [addSlopes, hc]
          exact ih hslopes.tail (by simpa using htotal)
      | some c =>
          have hc' := hsmooth v hv
          rw [Variable.SmoothAt, hc] at hc'
          obtain ⟨huser, hsolver⟩ := (hr.fits v hv).reparam c hc
          have hlength : g.length = (point v).length := by
            have hpoint := hc'.length
            omega
          have hpart : (v.part total).length = c.solverDimension := by
            rw [Variable.length_part (htotal.symm ▸ hr.stop_le hv), hsolver]
          simp only [addSlopes, hc, hc'.pullBack g (v.part total) hlength hpart]
          exact ih hslopes.tail (by simpa using htotal)

omit hx in
/-- What an argument that is bound to `w` contributes to the slice of `v`. -/
theorem share_of_smooth [ExactAddition α] {v w : Variable α} (hv : v ∈ r.vars) (hw : w ∈ r.vars)
    {s : List α} (hs : s.length = w.userDimension) {k : Nat} (hk : k < v.solverDimension) :
    w.share x (v.offset + k) s =
      if w.id = v.id then (v.solverGradient (jacobian v) s).getD k 0 else 0 := by
  have hpulled : w.pulled x s = w.solverGradient (jacobian w) s := by
    unfold Variable.pulled Variable.solverGradient
    cases hc : w.reparam with
    | none => rfl
    | some c =>
        have hw' := hsmooth w hw
        rw [Variable.SmoothAt, hc] at hw'
        obtain ⟨huser, hsolver⟩ := (hr.fits w hw).reparam c hc
        have hlength : s.length = (point w).length := by
          have hpoint := hw'.length
          omega
        have hproduct : (transposedProduct w.solverDimension (jacobian w) s).length =
            w.solverDimension := by simp [transposedProduct]
        dsimp only
        rw [← hsolver, hw'.pullBack s _ hlength (length_zeros _), hsolver, zipWith_zeros hproduct]
  have hlength : (w.solverGradient (jacobian w) s).length = w.solverDimension := by
    unfold Variable.solverGradient
    cases hc : w.reparam with
    | none => exact hs.trans ((hr.fits w hw).plain hc).symm
    | some c => simp [transposedProduct]
  rw [Variable.share, hpulled]
  by_cases hid : w.id = v.id
  · have heq : w = v := hr.eq_of_id_eq hw hv hid
    rw [heq, if_pos (Nat.le_add_right _ _), if_pos rfl, Nat.add_sub_cancel_left]
  · rw [if_neg hid]
    rcases hr.eq_or_apart hv hw with heq | hbefore | hafter
    · exact absurd (by rw [heq]) hid
    · -- The slice of `w` begins behind the one of `v`.
      unfold Variable.stop at hbefore
      rw [if_neg (by omega)]
    · unfold Variable.stop at hafter
      have hbehind : w.solverDimension ≤ v.offset + k - w.offset := by omega
      rw [if_pos (by omega), List.getD_eq_getElem?_getD,
        List.getElem?_eq_none (hlength.symm ▸ hbehind), Option.getD_none]

end Points

/-! ## Value and gradient -/

/-- What gradients, each of an argument that is bound to a variable, add up to at an entry of the
slice of `v`. -/
def Variable.portion (jacobian : Block α) (v : Variable α) (k : Nat)
    (slopes : List (Variable α × List α)) : α :=
  sum (slopes.map fun (w, s) =>
    if w.id = v.id then (v.solverGradient jacobian s).getD k 0 else 0)

/-- Gradients for other variables contribute nothing. -/
theorem Variable.portion_eq_zero [ExactAddition α] {jacobian : Block α} {v : Variable α}
    {slopes : List (Variable α × List α)} (h : ∀ w s, (w, s) ∈ slopes → w.id ≠ v.id) (k : Nat) :
    v.portion jacobian k slopes = 0 := by
  have hzero : slopes.map (fun (w, s) =>
      if w.id = v.id then (v.solverGradient jacobian s).getD k 0 else 0) = slopes.map fun _ => 0 :=
    List.map_congr_left fun (w, s) hmem => if_neg (h w s hmem)
  rw [Variable.portion, hzero, List.map_const', sum_replicate_zero]

section Graph

variable {g : Graph α} (hg : g.Sound) (m : Multipliers α) {x : List α} (hx : x.length = g.scalars)
  {point : Variable α → List α} {jacobian : Variable α → Block α}
  (hsmooth : ∀ v ∈ g.registry.vars, v.SmoothAt x (point v) (jacobian v))
  {value : Bound α → α} {slopes : Bound α → Rows α}
  (hterms : ∀ b ∈ g.terms,
    (b.summand.resolve m).gradient (b.vars.map point) b.zeroRows = (slopes b, .ok (value b)))

include hg hx hsmooth hterms

/-- What a worker makes of a term. -/
theorem derived_of_smooth {b : Bound α} (hb : b ∈ g.terms) :
    b.derived m (g.registry.loaded x) false = ((slopes b, b.blocks), .ok (value b)) := by
  rw [Bound.derived, arguments_of_smooth hg.registry hx hsmooth (hg.terms b hb), hterms b hb]
  rfl

/-- The gradients of a term belong to registered variables. -/
theorem slopes_of_smooth {b : Bound α} (hb : b ∈ g.terms) :
    g.registry.Slopes (b.vars.zip (slopes b)) := by
  have hloaded := hg.of_evaluated (Graph.evaluated_loaded x g)
  have hfits := Registry.slopes_of_fits m false (hloaded.terms b hb)
  rw [Bound.slopes, derived_of_smooth hg m hx hsmooth hterms hb] at hfits
  intro v s hmem
  obtain ⟨hv, hs⟩ := hfits v s hmem
  exact ⟨Registry.vars_withScratch _ g.registry ▸ hv, hs⟩

theorem outcome_of_smooth {b : Bound α} (hb : b ∈ g.terms) :
    b.outcome m (g.registry.loaded x) x false = .ok (value b) := by
  have hadded := addSlopes_of_smooth hg.registry hsmooth
    (slopes_of_smooth hg m hx hsmooth hterms hb) (length_zeros (g.registry.loaded x).scalars)
  rw [Bound.outcome, Bound.slopes, derived_of_smooth hg m hx hsmooth hterms hb]
  simp only [Except.bind, hadded]
  rfl

/-- A term contributes to an entry what the gradients of its arguments add up to there. -/
theorem share_eq_portion [ExactAddition α] {b : Bound α} (hb : b ∈ g.terms) {v : Variable α}
    (hv : v ∈ g.registry.vars) {k : Nat} (hk : k < v.solverDimension) :
    b.share m (g.registry.loaded x) x false (v.offset + k) =
      v.portion (jacobian v) k (b.vars.zip (slopes b)) := by
  have hslopes := slopes_of_smooth hg m hx hsmooth hterms hb
  rw [Bound.share, Bound.slopes, derived_of_smooth hg m hx hsmooth hterms hb, Variable.portion]
  congr 1
  refine List.map_congr_left fun slope hmem => ?_
  obtain ⟨w, s⟩ := slope
  obtain ⟨hw, hs⟩ := hslopes w s hmem
  exact share_of_smooth hg.registry hsmooth hv hw hs hk

/-- The contract for a graph that is only known to be sound. -/
theorem derivatives_of_sound [ExactAddition α] {buffer : Option (Tensor α)}
    (hbuffer : ∀ b, buffer = some b → b.shape = [g.scalars] ∧ b.kind = .double) :
    ∃ d, (Graph.derivatives m (.ofVector x) none (g, buffer)).result = .ok d ∧
      d.value = sum (g.terms.map value) ∧
      d.gradient.length = g.scalars ∧
      ∀ v ∈ g.registry.vars, ∀ k < v.solverDimension,
        d.gradient.getD (v.offset + k) 0 =
          sum (g.terms.map fun b => v.portion (jacobian v) k (b.vars.zip (slopes b))) := by
  have haccepts : g.Accepts none buffer :=
    ⟨⟨fun b hb => (hbuffer b hb).1, by simp⟩, fun b hb => (hbuffer b hb).2⟩
  have hload := load_of_smooth hg.registry hx hsmooth
  have hadditive : ∀ b ∈ g.terms, ∀ v ∈ b.vars, v.Additive x := fun b hb v hv =>
    additive_of_smooth hsmooth v ((hg.terms b hb).vars v hv)
  have houtcome : ∀ b ∈ g.terms, b.outcome m (g.registry.loaded x) x
      (none : Option HessianMode).isSome = .ok (value b) :=
    fun b hb => outcome_of_smooth hg m hx hsmooth hterms hb
  have hok : Crew.firstFault (Bound.outcome m (g.registry.loaded x) x
      (none : Option HessianMode).isSome) g.terms = none :=
    (Crew.firstFault_eq_none_iff g.terms).2 fun b hb => ⟨value b, houtcome b hb⟩
  obtain ⟨d, hd, _, hlength, hexact⟩ :=
    Graph.derivatives_of_ok m hg hx haccepts.toPasses hload hadditive hok haccepts.sums_ok
  obtain ⟨hvalue, hgradient⟩ := hexact inferInstance
  refine ⟨d, hd, ?_, hlength, fun v hv k hk => ?_⟩
  · rw [hvalue, Crew.valuesOf_of_ok houtcome]
  · rw [hgradient haccepts.gradientKind_eq]
    congr 1
    exact List.map_congr_left fun b hb => share_eq_portion hg m hx hsmooth hterms hb hv hk

/-- A term that takes no argument from a variable contributes nothing to its slice. -/
theorem portion_of_free [ExactAddition α] {b : Bound α} (hb : b ∈ g.terms) {v : Variable α}
    (hv : v ∈ g.registry.vars) (hfree : v ∉ b.vars) (k : Nat) :
    v.portion (jacobian v) k (b.vars.zip (slopes b)) = 0 := by
  refine Variable.portion_eq_zero (fun w s hmem hid => hfree ?_) k
  obtain ⟨hw, _⟩ := slopes_of_smooth hg m hx hsmooth hterms hb w s hmem
  exact hg.registry.eq_of_id_eq hw hv hid ▸ (List.of_mem_zip hmem).1

end Graph

/-- The value of a graph is the sum of the values of its terms, and the slice of the gradient for a
variable is the sum over all arguments that are bound to it. -/
theorem derivatives_of_smooth [ExactAddition α] {g : Graph α} (hg : g.Reachable)
    (m : Multipliers α) {x : List α} (hx : x.length = g.scalars) {buffer : Option (Tensor α)}
    (hbuffer : ∀ b, buffer = some b → b.shape = [g.scalars] ∧ b.kind = .double)
    {point : Variable α → List α} {jacobian : Variable α → Block α}
    (hsmooth : ∀ v ∈ g.registry.vars, v.SmoothAt x (point v) (jacobian v))
    {value : Bound α → α} {slopes : Bound α → Rows α}
    (hterms : ∀ b ∈ g.terms,
      (b.summand.resolve m).gradient (b.vars.map point) b.zeroRows = (slopes b, .ok (value b))) :
    ∃ d, (Graph.derivatives m (.ofVector x) none (g, buffer)).result = .ok d ∧
      d.value = sum (g.terms.map value) ∧
      d.gradient.length = g.scalars ∧
      (∀ v ∈ g.registry.vars, ∀ k < v.solverDimension,
        d.gradient.getD (v.offset + k) 0 =
          sum (g.terms.map fun b => sum ((b.vars.zip (slopes b)).map fun (w, s) =>
            if w.id = v.id then (v.solverGradient (jacobian v) s).getD k 0 else 0))) ∧
      (∀ v ∈ g.registry.vars, (∀ b ∈ g.terms, v ∉ b.vars) →
        v.part d.gradient = zeros v.solverDimension) := by
  have hsound := hg.sound
  obtain ⟨d, hd, hvalue, hlength, hslice⟩ :=
    derivatives_of_sound hsound m hx hsmooth hterms hbuffer
  refine ⟨d, hd, hvalue, hlength, hslice, fun v hv hfree => ?_⟩
  have hpart : (v.part d.gradient).length = v.solverDimension :=
    Variable.length_part (hlength.symm ▸ hsound.registry.stop_le hv)
  refine ext_getD (by rw [hpart, length_zeros]) fun k hk => ?_
  rw [hpart] at hk
  have hzero : ∀ b ∈ g.terms, v.portion (jacobian v) k (b.vars.zip (slopes b)) = 0 :=
    fun b hb => portion_of_free hsound m hx hsmooth hterms hb hv (hfree b hb) k
  rw [Variable.getD_part v _ hk, hslice v hv k hk, getD_zeros, List.map_congr_left hzero,
    List.map_const', sum_replicate_zero]

/-! ### A graph with one variable -/

/-- A one-dimensional array. -/
def soleStorage : Storage := ⟨"a", 0, true, [1], .double⟩

/-- The map `x = 2 t + 1`. -/
noncomputable def doubledPlusOne : Reparam ℝ := .linear [[2]] [[1 / 2]] [1]

/-- Two workers, one reparameterized variable, and a term that takes it twice. -/
noncomputable def twofold : Graph ℝ :=
  (Graph.addTerm (.plain (.affine [[3], [4]] 5)) [.handle 0, .handle 0]
    (Graph.addVariable soleStorage none (some doubledPlusOne) (.empty false 2)).state).state

/-- The variable of `twofold`. -/
noncomputable def soleVariable : Variable ℝ := ⟨0, soleStorage, 1, 1, 0, some doubledPlusOne⟩

theorem reachable_twofold : twofold.Reachable :=
  .addTerm (.addVariable (.new (show Graph.new false 2 = .ok (.empty false 2) from rfl)) _ _ _) _ _

theorem vars_twofold : twofold.registry.vars = [soleVariable] := rfl

theorem terms_twofold : twofold.terms =
    [⟨.plain (.affine [[3], [4]] 5), [soleVariable, soleVariable], []⟩] := rfl

theorem smooth_soleVariable : soleVariable.SmoothAt [1] [3] [[2]] := by
  have hlinear : Reparam.Smooth doubledPlusOne [1] _ [[2]] :=
    Reparam.smooth_linear rfl (by simp) [1]
  have hpoint : ([[(2 : ℝ)]].zip [1]).map
      (fun (row, b) => sum (row.zipWith (· * ·) [1]) + b) = [3] := by
    simp [sum]
    norm_num
  rw [hpoint] at hlinear
  exact hlinear

/-- At the point `3` the term `3 u + 4 u + 5` is `26`, and its derivative along `t` is `14`. -/
theorem derivatives_twofold :
    ∃ d, (Graph.derivatives Multipliers.none (.ofVector [1]) none (twofold, none)).result = .ok d ∧
      d.value = 26 ∧ d.gradient = [14] := by
  have hsmooth : ∀ v ∈ twofold.registry.vars, v.SmoothAt [1] [3] [[2]] := by
    intro v hv
    rw [vars_twofold] at hv
    rw [List.mem_singleton.1 hv]
    exact smooth_soleVariable
  have hterms : ∀ b ∈ twofold.terms, (b.summand.resolve Multipliers.none).gradient
      (b.vars.map fun _ => [3]) b.zeroRows = ([[3], [4]], .ok 26) := by
    intro b hb
    rw [terms_twofold] at hb
    rw [List.mem_singleton.1 hb]
    simp [Summand.resolve, Term.affine, mapRows, Bound.zeroRows, Term.firstShort, soleVariable,
      zeros]
    norm_num
  obtain ⟨d, hd, hvalue, hlength, hslice, _⟩ := @derivatives_of_smooth ℝ _ _ twofold
    reachable_twofold Multipliers.none [1] rfl none (by simp) (fun _ => [3]) (fun _ => [[2]])
    hsmooth (fun _ => 26) (fun _ => [[3], [4]]) hterms
  have hentry := hslice soleVariable (by rw [vars_twofold]; simp) 0 (by decide)
  refine ⟨d, hd, ?_, ?_⟩
  · rw [hvalue, terms_twofold]
    simp [sum]
  · refine ext_getD hlength fun k hk => ?_
    have hk : k = 0 := by
      have hone : twofold.scalars = 1 := rfl
      omega
    subst hk
    rw [terms_twofold] at hentry
    rw [show (0 : Nat) = soleVariable.offset + 0 from rfl, hentry]
    simp [soleVariable, Variable.solverGradient, transposedProduct, sum]
    norm_num

end Separable
