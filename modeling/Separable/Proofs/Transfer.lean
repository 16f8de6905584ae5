import Separable.Proofs.Gradient
import Separable.Proofs.Problem

/-!
# The same point in two registries

Two registries may hold some of the same storages, in different places of their state vectors.
`Registry.transfer` puts the slices that one of them has of a vector to the places that the other
wants them in. A state of the combined graph is handed to a constraint in this way, and the gradient
of a constraint is handed back in the same way.

## Main results

* `part_transfer`: the slices of a vector that was transferred.
* `standsFor_transfer`, `smoothAt_transfer`: the variables of a constraint stand for the same
  user-space points.
* `portion_of_twins`: the same gradients at twins add up to the same.
-/

namespace Separable

open Scalar

variable {α : Type}

namespace Registry

/-! ## From one registry to another -/

variable [Backend α]

/-- The vector of `q` with the slices that `x` has in `r`, and zeros for storages that `r` does not
know. -/
def transfer (r q : Registry α) (x : List α) : List α :=
  q.vars.flatMap fun w =>
    match r.findStorage? w.storage with
    | some v => v.part x
    | none => zeros w.solverDimension

/-- Whether variables of one storage have slices of one length. -/
def Matches (r q : Registry α) : Prop :=
  ∀ w ∈ q.vars, ∀ v, r.findStorage? w.storage = some v → v.solverDimension = w.solverDimension

section Transfer

variable {r q : Registry α} {x : List α} (hr : r.Sound) (hq : q.Sound)
  (hx : x.length = r.scalars) (h : r.Matches q)

include hr hx h

private theorem length_transferred : ∀ w ∈ q.vars,
    (match r.findStorage? w.storage with
      | some v => v.part x
      | none => zeros w.solverDimension).length = w.solverDimension := by
  intro w hw
  cases hfind : r.findStorage? w.storage with
  | none => exact length_zeros _
  | some v =>
      have hstop := hr.stop_le (mem_of_findStorage? hfind)
      exact (Variable.length_part (hx.symm ▸ hstop)).trans (h w hw v hfind)

include hq

theorem length_transfer : (r.transfer q x).length = q.scalars := by
  have hlength := hq.slices.length_flatMap (length_transferred hr hx h)
  rwa [Nat.zero_add] at hlength

/-- The slices of a vector that was transferred. -/
theorem part_transfer {w : Variable α} (hw : w ∈ q.vars) :
    w.part (r.transfer q x) =
      match r.findStorage? w.storage with
      | some v => v.part x
      | none => zeros w.solverDimension :=
  hq.slices.slice_flatMap (length_transferred hr hx h) hw

/-- An entry of a vector that was transferred. -/
theorem getD_transfer {w : Variable α} (hw : w ∈ q.vars) {k : Nat} (hk : k < w.solverDimension) :
    (r.transfer q x).getD (w.offset + k) 0 =
      match r.findStorage? w.storage with
      | some v => x.getD (v.offset + k) 0
      | none => 0 := by
  rw [← Variable.getD_part w _ hk, part_transfer hr hq hx h hw]
  cases hfind : r.findStorage? w.storage with
  | none => exact getD_zeros _ _
  | some v => exact Variable.getD_part v x (h w hw v hfind ▸ hk)

end Transfer

/-! ## A registry of twins -/

section Twins

variable {r q : Registry α} (hr : r.Sound) (htwins : ∀ w ∈ q.vars, ∃ v ∈ r.vars, v.Twin w)

include hr

omit [Backend α] in
theorem findStorage?_of_twin {v w : Variable α} (hv : v ∈ r.vars) (h : v.Twin w) :
    r.findStorage? w.storage = some v := by
  rw [h.storage]
  exact hr.findStorage?_of_mem hv

include htwins

omit [Backend α] in
/-- What is found in the registry of twins is a twin. -/
theorem twin_of_findStorage? (hq : q.Sound) {v w : Variable α} (hv : v ∈ r.vars)
    (h : q.findStorage? v.storage = some w) : v.Twin w := by
  obtain ⟨u, hu, htwin⟩ := htwins w (mem_of_findStorage? h)
  have hkey := ((hq.findStorage?_iff v.storage w).1 h).2
  rw [htwin.storage] at hkey
  exact hr.eq_of_key_eq hu hv hkey ▸ htwin

omit [Backend α] in
theorem matches_of_twins : r.Matches q := by
  intro w hw v hfind
  obtain ⟨u, hu, htwin⟩ := htwins w hw
  rw [findStorage?_of_twin hr hu htwin] at hfind
  exact Option.some.inj hfind ▸ htwin.solverDimension.symm

omit [Backend α] in
theorem matches_of_twins' (hq : q.Sound) : q.Matches r := fun _ hv _ hfind =>
  (twin_of_findStorage? hr htwins hq hv hfind).solverDimension

/-- The slice of a twin is that of the variable. -/
theorem part_of_twin (hq : q.Sound) {x : List α} (hx : x.length = r.scalars) {v w : Variable α}
    (hv : v ∈ r.vars) (hw : w ∈ q.vars) (htwin : v.Twin w) :
    w.part (r.transfer q x) = v.part x := by
  rw [part_transfer hr hq hx (matches_of_twins hr htwins) hw, findStorage?_of_twin hr hv htwin]

/-- A variable and its twin stand for the same user-space point. -/
theorem standsFor_transfer (hq : q.Sound) {x : List α} (hx : x.length = r.scalars)
    {point : Storage → List α} (hpoint : ∀ v ∈ r.vars, v.StandsFor x (point v.storage)) :
    ∀ w ∈ q.vars, w.StandsFor (r.transfer q x) (point w.storage) := by
  intro w hw
  obtain ⟨v, hv, htwin⟩ := htwins w hw
  obtain ⟨hlength, hloaded⟩ := hpoint v hv
  rw [htwin.storage]
  refine ⟨hlength.trans htwin.userDimension.symm, fun old hold => ?_⟩
  rw [part_of_twin hr htwins hq hx hv hw htwin, Variable.values, Variable.valuesIn,
    htwin.reparam]
  exact hloaded old (hold.trans htwin.userDimension)

/-- The same with the contract for derivatives. -/
theorem smoothAt_transfer (hq : q.Sound) {x : List α} (hx : x.length = r.scalars)
    {point : Storage → List α} {jacobian : Storage → Block α}
    (hsmooth : ∀ v ∈ r.vars, v.SmoothAt x (point v.storage) (jacobian v.storage)) :
    ∀ w ∈ q.vars, w.SmoothAt (r.transfer q x) (point w.storage) (jacobian w.storage) := by
  intro w hw
  obtain ⟨v, hv, htwin⟩ := htwins w hw
  have hv' := hsmooth v hv
  unfold Variable.SmoothAt at hv' ⊢
  rw [htwin.reparam, htwin.storage, part_of_twin hr htwins hq hx hv hw htwin]
  exact hv'

omit htwins [Backend α] in
/-- Whether two arguments are bound to the same variable is the same for their twins. -/
theorem id_eq_iff_of_twins (hq : q.Sound) {v v' w w' : Variable α} (hv : v ∈ r.vars)
    (hv' : v' ∈ r.vars) (hw : w ∈ q.vars) (hw' : w' ∈ q.vars) (h : v.Twin w) (h' : v'.Twin w') :
    w'.id = w.id ↔ v'.id = v.id := by
  constructor
  · intro hid
    have heq : w' = w := hq.eq_of_id_eq hw' hw hid
    have hstorage : v'.storage = v.storage := by rw [← h'.storage, ← h.storage, heq]
    rw [hr.eq_of_key_eq hv' hv (congrArg Storage.key hstorage)]
  · intro hid
    have heq : v' = v := hr.eq_of_id_eq hv' hv hid
    have hstorage : w'.storage = w.storage := by rw [h'.storage, h.storage, heq]
    rw [hq.eq_of_key_eq hw' hw (congrArg Storage.key hstorage)]

omit htwins in
/-- The same gradients at twins add up to the same. -/
theorem portion_of_twins (hq : q.Sound) {v w : Variable α} (hv : v ∈ r.vars) (hw : w ∈ q.vars)
    (htwin : v.Twin w) {vars ws : List (Variable α)} (h : List.Forall₂ Variable.Twin vars ws)
    (hvars : ∀ v ∈ vars, v ∈ r.vars) (hws : ∀ w ∈ ws, w ∈ q.vars) (jacobian : Block α) (k : Nat)
    (rows : Rows α) :
    w.portion jacobian k (ws.zip rows) = v.portion jacobian k (vars.zip rows) := by
  have hgradient (s : List α) : w.solverGradient jacobian s = v.solverGradient jacobian s := by
    unfold Variable.solverGradient
    rw [htwin.reparam, htwin.solverDimension]
  unfold Variable.portion
  congr 1
  induction h generalizing rows with
  | nil => rfl
  | @cons v' w' vars ws h' _ ih =>
      obtain ⟨hv', hvars⟩ := List.forall_mem_cons.1 hvars
      obtain ⟨hw', hws⟩ := List.forall_mem_cons.1 hws
      cases rows with
      | nil => rfl
      | cons row rows =>
          have hiff := id_eq_iff_of_twins hr hq hv hv' hw hw' htwin h'
          simp only [List.zip_cons_cons, List.map_cons, hgradient, hiff]
          congr 1
          simpa only [hgradient] using ih hvars hws rows

end Twins

end Registry

end Separable
