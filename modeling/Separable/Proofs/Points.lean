import Separable.Proofs.Evaluation

/-!
# The points that the terms see

A state stands for a user-space point of each variable: the slice of the state, or what the
reparameterization of the variable makes of it. `Variable.StandsFor` says that loading the state
arrives at this point, whatever the scratch vector of the variable held before. Nothing is asked of
derivatives here, so this is what the value of a graph depends on, and no more.

## Main results

* `load_of_points`: a state that stands for points can be loaded.
* `arguments_of_points`: the terms see these points.
* `value_of_points`: the value of the graph is the sum of the values of its terms at these points.
-/

namespace Separable

open Scalar

variable {α : Type}

/-- Whether the state `x` stands for the user-space point `u` of the variable. -/
structure Variable.StandsFor (x u : List α) (v : Variable α) : Prop where
  length : u.length = v.userDimension
  loaded : ∀ old : List α, old.length = v.userDimension → v.values (v.part x) old = (u, .ok ())

namespace Registry

variable {r : Registry α} (hr : r.Sound) {x : List α} (hx : x.length = r.scalars)

include hr hx

/-- Without a reparameterization the state stands for its slice. -/
theorem Sound.standsFor_part {v : Variable α} (hv : v ∈ r.vars) (hplain : v.reparam = none) :
    v.StandsFor x (v.part x) := by
  have hlength : (v.part x).length = v.userDimension := by
    rw [Variable.length_part (hx.symm ▸ hr.stop_le hv), (hr.fits v hv).plain hplain]
  refine ⟨hlength, fun old hold => ?_⟩
  rw [Variable.values_none hplain, copied_of_length_eq (hlength.trans hold.symm)]

end Registry

section Points

variable [Backend α] {r : Registry α} (hr : r.Sound) {x : List α} {point : Variable α → List α}

include hr

/-- A state that stands for points can be loaded. -/
theorem load_of_points (hpoint : ∀ v ∈ r.vars, v.StandsFor x (point v)) :
    (Registry.load (.ofVector x) r).result = .ok () := by
  refine Registry.load_ok fun s hs => ?_
  have hv : s.toVariable ∈ r.vars := List.mem_map_of_mem hs
  exact congrArg Prod.snd ((hpoint _ hv).loaded _ (hr.length_slot hs))

/-- A term sees the points that the state stands for. -/
theorem arguments_of_points {hessianEnabled : Bool} {b : Bound α} (hb : b.Fits r hessianEnabled)
    (hpoint : ∀ v ∈ b.vars, v.StandsFor x (point v)) :
    (r.loaded x).arguments b = b.vars.map point := by
  refine List.map_congr_left fun v hv => ?_
  have hvars := hb.vars v hv
  rw [Registry.loaded, hr.scratch_loaded x hvars,
    (hpoint v hv).loaded _ (hr.length_scratch hvars)]

end Points

/-- The value of a graph is the sum of the values of its terms, at the points that the state stands
for. -/
theorem value_of_points [Backend α] [ExactAddition α] {g : Graph α} (hg : g.Sound)
    (m : Multipliers α) {x : List α} (hx : x.length = g.scalars) {point : Variable α → List α}
    (hpoint : ∀ v ∈ g.registry.vars, v.StandsFor x (point v)) {value : Bound α → α}
    (hterms : ∀ b ∈ g.terms, (b.summand.resolve m).value (b.vars.map point) = .ok (value b)) :
    (Graph.value m (.ofVector x) g).result = .ok (sum (g.terms.map value)) := by
  have hresult : ∀ b ∈ g.terms,
      (b.summand.resolve m).value ((g.registry.loaded x).arguments b) = .ok (value b) := by
    intro b hb
    have hfits := hg.terms b hb
    rw [arguments_of_points hg.registry hfits fun v hv => hpoint v (hfits.vars v hv)]
    exact hterms b hb
  obtain ⟨total, htotal, hexact⟩ := Graph.value_of_ok m hg hx (load_of_points hg.registry hpoint)
    ((Crew.firstFault_eq_none_iff g.terms).2 fun b hb => ⟨value b, hresult b hb⟩)
  rw [htotal, hexact inferInstance, Crew.valuesOf_of_ok hresult]

end Separable
