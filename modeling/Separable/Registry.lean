import Separable.Action
import Separable.Catalog
import Separable.Variable

/-!
# The registry of variables

A registry gives every registered storage a handle and a slice of the state vector. Handles count
from zero, and slices follow each other in the order of registration, so they cut the state vector
into consecutive pieces.

Variables are kept by handle. Beside them an index has the handle of every registered storage, by
the identity of the storage: whoever asks for a storage is answered through the index.

## Main results

* `add_of_check_error`, `add_of_check_some`, `add_of_check_none`: what registering does, by the
  verdict of `check`.
* `vars_load`, `vars_loadStorage`: copying into the scratch vectors leaves the variables
  as they are.
-/

namespace Separable

/-- The registered variables, by handle. -/
structure Registry (α : Type) where
  slots : List (Slot α)
  /-- The handles of the registered storages, by the identity of the storage. -/
  index : Catalog Nat
  /-- The length of the state vector. -/
  scalars : Nat

namespace Registry

variable {α : Type}

/-- No variables. -/
def empty : Registry α := ⟨[], [], 0⟩

/-- The variables in the order of registration. -/
def vars (r : Registry α) : List (Variable α) := r.slots.map Slot.toVariable

/-- The variable with this storage: the one at the handle that the index has for the storage. -/
def findStorage? (r : Registry α) (s : Storage) : Option (Variable α) :=
  (r.index.find? s.key).bind fun id => r.vars[id]?

/-- The variable with this handle. -/
def findHandle? (r : Registry α) (index : Int) : Option (Variable α) :=
  if 0 ≤ index then r.vars[index.toNat]? else none

/-- The variable that is meant. -/
def resolve (r : Registry α) : Ref → Except Fault (Variable α)
  | .handle index =>
    match r.findHandle? index with
    | some v => .ok v
    | none => .error (.unknownHandle index)
  | .storage s =>
    match r.findStorage? s with
    | some v => .ok v
    | none => .error .unknownStorage

/-- Whether a variable is meant at all. -/
def contains (r : Registry α) : Ref → Bool
  | .handle index => (r.findHandle? index).isSome
  | .storage s => (r.findStorage? s).isSome

/-- The largest user dimension; one if there are no variables. -/
def largestDimension (r : Registry α) : Nat :=
  match r.vars.map (·.userDimension) with
  | [] => 1
  | d :: ds => ds.foldl max d

/-- Whether some variable is reparameterized. -/
def hasReparam (r : Registry α) : Bool := r.vars.any (·.reparam.isSome)

/-- The scratch vector of a variable. -/
def scratch (r : Registry α) (v : Variable α) : List α :=
  match r.slots[v.id]? with
  | some slot => slot.scratch
  | none => []

/-! ## Registration -/

section Registration

/-- Whether a storage can be registered, and the handle that it has already. -/
def check (r : Registry α) (s : Storage) (dimension : Option Int) (reparam : Option (Reparam α)) :
    Except Fault (Option Nat) :=
  match s.vectorLength?, s.kind.otherThanFloating? with
  | none, _ => .error .notAVector
  | some _, some kind => .error (.notFloating kind)
  | some length, none =>
    let asked := dimension.getD length
    match r.findStorage? s with
    | some v =>
      if (v.userDimension : Int) = asked then .ok (some v.id)
      else .error (.registeredAs v.userDimension asked)
    | none =>
      if (length : Int) = asked then
        match reparam with
        | none => .ok none
        | some c =>
          if c.userDimension = length then .ok none
          else .error (.reparamDimension asked c.userDimension)
      else .error (.storageLength asked length)

variable [Scalar α]

/-- The registry with one more variable, and with its handle in the index. -/
def push (r : Registry α) (s : Storage) (reparam : Option (Reparam α)) : Registry α :=
  let userDimension := s.vectorLength?.getD 0
  let solverDimension := match reparam with
    | none => userDimension
    | some c => c.solverDimension
  let slot : Slot α := {
    id := r.slots.length
    storage := s
    userDimension := userDimension
    solverDimension := solverDimension
    offset := r.scalars
    reparam := reparam
    scratch := zeros userDimension }
  ⟨r.slots ++ [slot], r.index.put s.key r.slots.length, r.scalars + solverDimension⟩

/-- Registers a storage and returns its handle. A storage that is registered already keeps the
handle it has, if the dimension agrees. -/
def add (s : Storage) (dimension : Option Int) (reparam : Option (Reparam α)) :
    Action (Registry α) α Nat :=
  Action.run fun r =>
    match r.check s dimension reparam with
    | .error fault => (r, .error fault)
    | .ok (some id) => (r, .ok id)
    | .ok none => (r.push s reparam, .ok r.slots.length)

theorem add_of_check_error {r : Registry α} {s : Storage} {dimension : Option Int}
    {reparam : Option (Reparam α)} {fault : Fault}
    (h : r.check s dimension reparam = .error fault) :
    add s dimension reparam r = ⟨r, [], .error fault⟩ := by
  simp [add, Action.run, h]

theorem add_of_check_some {r : Registry α} {s : Storage} {dimension : Option Int}
    {reparam : Option (Reparam α)} {id : Nat} (h : r.check s dimension reparam = .ok (some id)) :
    add s dimension reparam r = ⟨r, [], .ok id⟩ := by
  simp [add, Action.run, h]

theorem add_of_check_none {r : Registry α} {s : Storage} {dimension : Option Int}
    {reparam : Option (Reparam α)} (h : r.check s dimension reparam = .ok none) :
    add s dimension reparam r = ⟨r.push s reparam, [], .ok r.slots.length⟩ := by
  simp [add, Action.run, h]

end Registration

/-! ## Copies between states, scratch vectors and the caller's storage -/

/-- Copies the slices of `x` into the scratch vectors, up to the first that fails. -/
def loadSlots [Scalar α] (x : Tensor α) : List (Slot α) → List (Slot α) × Except Fault Unit
  | [] => ([], .ok ())
  | s :: rest =>
    match s.load x with
    | (s, .error fault) => (s :: rest, .error fault)
    | (s, .ok ()) =>
      let (rest, outcome) := loadSlots x rest
      (s :: rest, outcome)

/-- Copies a state into the scratch vectors. -/
def load [Scalar α] (x : Tensor α) : Action (Registry α) α Unit :=
  Action.run fun r =>
    let (slots, outcome) := loadSlots x r.slots
    ({ r with slots := slots }, outcome)

/-- Copies the caller's storage into the scratch vectors. -/
def loadStorage (m : Memory α) (r : Registry α) : Registry α :=
  { r with slots := r.slots.map (Slot.loadStorage m) }

@[simp] theorem map_toVariable_loadSlots [Scalar α] (x : Tensor α) (slots : List (Slot α)) :
    (loadSlots x slots).1.map Slot.toVariable = slots.map Slot.toVariable := by
  induction slots with
  | nil => rfl
  | cons s rest ih =>
    have h := Slot.toVariable_load x s
    simp only [loadSlots]
    split <;> simp_all

@[simp] theorem vars_load [Scalar α] (x : Tensor α) (r : Registry α) :
    (load x r).state.vars = r.vars := by
  simp [load, Action.run, vars]

@[simp] theorem vars_loadStorage (m : Memory α) (r : Registry α) :
    (r.loadStorage m).vars = r.vars := by
  simp [loadStorage, vars, Function.comp_def]

/-- The state `x` after the storages of some variables were copied into it, up to the first that
fails. -/
def gatherFrom (m : Memory α) : List (Variable α) → List α → Except Fault (List α)
  | [], x => .ok x
  | v :: rest, x =>
    match v.gather m x with
    | (_, .error fault) => .error fault
    | (x, .ok ()) => gatherFrom m rest x

variable [Scalar α]

/-- The memory after the slices of `x` were copied into the storages of some variables, up to the
first that fails. -/
def storeFrom (x : Tensor α) : List (Variable α) → Memory α → Memory α × Except Fault Unit
  | [], m => (m, .ok ())
  | v :: rest, m =>
    match v.store x m with
    | (m, .error fault) => (m, .error fault)
    | (m, .ok ()) => storeFrom x rest m

/-- The state that the caller's storage holds. -/
def gather (m : Memory α) (r : Registry α) : Except Fault (List α) :=
  gatherFrom m r.vars (zeros r.scalars)

/-- Writes a vector to the storage of the variable that is meant. -/
def write (ref : Ref) (xs : List α) (r : Registry α) : Action (Memory α) α Unit :=
  Action.run fun m =>
    match r.resolve ref with
    | .error fault => (m, .error fault)
    | .ok v => v.write xs m

/-- Copies a state into the caller's storage. -/
def store (x : Tensor α) (r : Registry α) : Action (Memory α) α Unit :=
  Action.run (storeFrom x r.vars)

end Registry

end Separable
