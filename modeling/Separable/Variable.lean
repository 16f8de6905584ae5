import Separable.Reparam
import Separable.Storage
import Separable.Tensor

/-!
# Variables

A variable ties a storage of the caller to a slice of the flat state vector that solvers work on.
Without a reparameterization it has as many scalars in the state vector as in its storage; with
one it may have more or fewer. A `Slot` adds the variable's scratch vector, in user space, from
which evaluations read the arguments of terms.

Four copies connect the three places: from a state to the scratch vector (`Slot.load`), from the
storage to the scratch vector (`Slot.loadStorage`), from the storage to a state
(`Variable.gather`), and from a state to the storage (`Variable.store`). Whoever has the storage can
also write to it directly (`Variable.write`). A state is a vector. An
array of another shape can be copied too, if what stands in the place of the variable's slice can be
spread over the variable (`Variable.valuesFrom`).

## Main results

* `length_scratch_load`, `length_scratch_loadStorage`: loading keeps the length of the scratch
  vector.
-/

namespace Separable

/-- A registered variable. -/
structure Variable (α : Type) where
  /-- The handle. -/
  id : Nat
  storage : Storage
  userDimension : Nat
  /-- The number of scalars in the state vector. -/
  solverDimension : Nat
  /-- The place of its first scalar in the state vector. -/
  offset : Nat
  reparam : Option (Reparam α)

/-- A variable with its scratch vector. -/
structure Slot (α : Type) extends Variable α where
  scratch : List α

/-- How a variable is referred to. -/
inductive Ref where
  | handle (index : Int)
  | storage (s : Storage)
  deriving DecidableEq, Repr

variable {α : Type}

namespace Variable

/-- The slice of a variable in a state vector. -/
def part (v : Variable α) (x : List α) : List α := slice v.offset v.solverDimension x

/-- The state vector `x` after the variable's storage was copied into its slice. -/
def gather (m : Memory α) (v : Variable α) (x : List α) : List α × Except Fault Unit :=
  match v.reparam with
  | none => (overwrite v.offset (m.read v.storage) x, .ok ())
  | some c =>
    let (solver, outcome) := c.toSolver (m.read v.storage) (v.part x)
    (overwrite v.offset solver x, outcome)

/-- The user vector `old` after the slice `part` of a state, whose elements are of this kind, was
copied into it. -/
def valuesIn (kind : ElementKind) (part : List α) (v : Variable α) (old : List α) :
    List α × Except Fault Unit :=
  match v.reparam with
  | none =>
    match copied part old.length with
    | .error fault => (old, .error fault)
    | .ok new => (new, .ok ())
  | some c => c.toUserFrom kind part old

/-- The user vector `old` after the slice `part` of a state of double precision was copied into
it. -/
def values (part : List α) (v : Variable α) (old : List α) : List α × Except Fault Unit :=
  v.valuesIn .double part old

/-- The user vector `old` after the parts of an array that stand in the place of the variable's
slice were spread over it. A reparameterization computes with the parts as numbers, and fails at
once if they are arrays themselves. -/
def valuesFromParts (parts : Tensor α) (v : Variable α) (old : List α) :
    List α × Except Fault Unit :=
  match v.reparam with
  | none =>
    match parts.spread [old.length] with
    | .error fault => (old, .error fault)
    | .ok new => (overwrite 0 new old, .ok ())
  | some c =>
    if c.readsPoint ∧ 0 < parts.shape.headD 0 then (old, .error .axesInEntry)
    else c.toUserFrom parts.kind [] old

/-- The user vector `old` after the variable's slice of `x` was copied into it. -/
def valuesFrom (x : Tensor α) (v : Variable α) (old : List α) : List α × Except Fault Unit :=
  match x.shape with
  | [] => (old, .error .noAxes)
  | [_] => v.valuesIn x.kind (v.part x.entries) old
  | _ => v.valuesFromParts (x.slice v.offset v.solverDimension) old

theorem length_valuesIn (kind : ElementKind) (part : List α) (v : Variable α) (old : List α) :
    (v.valuesIn kind part old).1.length = old.length := by
  unfold valuesIn
  split
  · split
    · rfl
    · next h => exact length_of_copied_eq_ok h
  · exact Reparam.toUserFrom_length _ _ _ _

theorem values_none {v : Variable α} (h : v.reparam = none) (part old : List α) :
    v.values part old =
      match copied part old.length with
      | .error fault => (old, .error fault)
      | .ok new => (new, .ok ()) := by
  simp only [values, valuesIn, h]

theorem values_some {v : Variable α} {c : Reparam α} (h : v.reparam = some c)
    (part old : List α) : v.values part old = c.toUser part old := by
  simp only [values, valuesIn, h]
  rfl

theorem length_valuesFromParts (parts : Tensor α) (v : Variable α) (old : List α) :
    (v.valuesFromParts parts old).1.length = old.length := by
  unfold valuesFromParts
  split
  · split
    · rfl
    · exact length_overwrite _ _ _
  · split
    · rfl
    · exact Reparam.toUserFrom_length _ _ _ _

theorem length_valuesFrom (x : Tensor α) (v : Variable α) (old : List α) :
    (v.valuesFrom x old).1.length = old.length := by
  unfold valuesFrom
  split
  · rfl
  · exact length_valuesIn _ _ _ _
  · exact length_valuesFromParts _ _ _

/-- The memory after the variable's slice of `x` was copied into its storage. -/
def store [Scalar α] (x : Tensor α) (v : Variable α) (m : Memory α) :
    Memory α × Except Fault Unit :=
  let (user, outcome) := v.valuesFrom x (m.read v.storage)
  (m.write v.storage user, outcome)

/-- The memory after a vector was written to the variable's storage. -/
def write [Scalar α] (xs : List α) (v : Variable α) (m : Memory α) :
    Memory α × Except Fault Unit :=
  match copied xs (m.read v.storage).length with
  | .error fault => (m, .error fault)
  | .ok new => (m.write v.storage new, .ok ())

end Variable

namespace Slot

/-- Copies the slice of `x` into the scratch vector. -/
def load (x : Tensor α) (s : Slot α) : Slot α × Except Fault Unit :=
  let (user, outcome) := s.valuesFrom x s.scratch
  ({ s with scratch := user }, outcome)

/-- Copies the storage into the scratch vector. -/
def loadStorage (m : Memory α) (s : Slot α) : Slot α :=
  { s with scratch := overwrite 0 (m.read s.storage) s.scratch }

@[simp] theorem toVariable_load (x : Tensor α) (s : Slot α) :
    (s.load x).1.toVariable = s.toVariable := rfl

@[simp] theorem length_scratch_load (x : Tensor α) (s : Slot α) :
    (s.load x).1.scratch.length = s.scratch.length := Variable.length_valuesFrom x _ _

@[simp] theorem toVariable_loadStorage (m : Memory α) (s : Slot α) :
    (s.loadStorage m).toVariable = s.toVariable := rfl

@[simp] theorem length_scratch_loadStorage (m : Memory α) (s : Slot α) :
    (s.loadStorage m).scratch.length = s.scratch.length := by
  simp [loadStorage]

end Slot

end Separable
