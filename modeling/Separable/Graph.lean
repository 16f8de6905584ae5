import Separable.Pool

/-!
# Graphs

A graph is an objective in the making: a sum of terms over registered variables. Variables and
terms are only ever added, and every addition gives the structure a new version, by which a cached
`Pool` is known to be out of date.

## Main results

* `addVariable_of_ok`, `addVariable_of_error`: the version moves exactly with a success.
-/

namespace Separable

/-- A sum of terms over registered variables, with its evaluation storage and counters. -/
structure Graph (α : Type) where
  registry : Registry α
  terms : List (Bound α)
  /-- The number of additions so far. -/
  version : Nat
  /-- Whether terms keep Hessian blocks. -/
  hessianEnabled : Bool
  workers : Nat
  pool : Option (Pool α)
  /-- How often a value was evaluated. -/
  valueCount : Nat
  /-- How often a gradient was evaluated. -/
  derivativeCount : Nat

namespace Graph

variable {α : Type}

/-- An empty graph. -/
def empty (hessianEnabled : Bool) (workers : Nat) : Graph α :=
  ⟨Registry.empty, [], 0, hessianEnabled, workers, none, 0, 0⟩

/-- A number of workers, which must be at least one. -/
def checkedWorkers (count : Int) : Except Fault Nat :=
  if count < 1 then .error (.workerCount count) else .ok count.toNat

/-- An empty graph, if the number of workers is at least one. -/
def new (hessianEnabled : Bool) (workers : Int) : Except Fault (Graph α) :=
  (checkedWorkers workers).map (empty hessianEnabled)

/-- Changes the number of workers; the evaluation storage is dropped. -/
def setWorkers (count : Int) : Action (Graph α) α Unit :=
  Action.run fun g =>
    match checkedWorkers count with
    | .error fault => (g, .error fault)
    | .ok workers => ({ g with workers := workers, pool := none }, .ok ())

/-- Works on the variables of a graph. -/
def onRegistry {β : Type} : Action (Registry α) α β → Action (Graph α) α β :=
  Action.within Graph.registry fun g r => { g with registry := r }

/-- The length of the state vector. -/
def scalars (g : Graph α) : Nat := g.registry.scalars

/-! ## Binding terms -/

/-- The position and dimensions of the first argument that does not fit. -/
def firstMismatch (position : Nat) : List Int → List (Variable α) → Option (Nat × Int × Nat)
  | expected :: dimensions, v :: vars =>
    if v.userDimension = expected then firstMismatch (position + 1) dimensions vars
    else some (position, expected, v.userDimension)
  | _, _ => none

/-- The variables for the arguments of a summand. -/
def bind (g : Graph α) (s : Summand α) (arguments : List Ref) :
    Except Fault (List (Variable α)) :=
  if arguments.length = s.dimensions.length then
    match arguments.mapM g.registry.resolve with
    | .error fault => .error fault
    | .ok vars =>
      match firstMismatch 0 s.dimensions vars with
      | none => .ok vars
      | some (position, expected, actual) =>
        .error (.argumentDimension position s.name expected actual)
  else .error (.arity s.name s.dimensions.length arguments.length)

variable [Scalar α]

/-- Registers a storage as a variable. -/
def addVariable (s : Storage) (dimension : Option Int) (reparam : Option (Reparam α)) :
    Action (Graph α) α Nat := do
  let id ← onRegistry (Registry.add s dimension reparam)
  Action.modify fun g => { g with version := g.version + 1 }
  return id

/-- The graph with one more term. -/
def push (g : Graph α) (s : Summand α) (vars : List (Variable α)) : Graph α × Bound α :=
  let b : Bound α := {
    summand := s
    vars := vars
    blocks := if g.hessianEnabled then Bound.zeroBlocks vars else [] }
  ({ g with terms := g.terms ++ [b], version := g.version + 1 }, b)

/-- Binds a summand to registered variables. -/
def addTerm (s : Summand α) (arguments : List Ref) : Action (Graph α) α (Bound α) :=
  Action.run fun g =>
    match g.bind s arguments with
    | .error fault => (g, .error fault)
    | .ok vars =>
      let (g, b) := g.push s vars
      (g, .ok b)

theorem addVariable_of_ok {g : Graph α} {s : Storage} {dimension : Option Int}
    {reparam : Option (Reparam α)} {r : Registry α} {id : Nat}
    (h : Registry.add s dimension reparam g.registry = ⟨r, [], .ok id⟩) :
    addVariable s dimension reparam g =
      ⟨{ g with registry := r, version := g.version + 1 }, [], .ok id⟩ := by
  show Action.bind _ _ g = _
  simp [Action.bind, onRegistry, Action.within, h, Action.modify, Bind.bind, Pure.pure, Action.pure]

theorem addVariable_of_error {g : Graph α} {s : Storage} {dimension : Option Int}
    {reparam : Option (Reparam α)} {r : Registry α} {fault : Fault}
    (h : Registry.add s dimension reparam g.registry = ⟨r, [], .error fault⟩) :
    addVariable s dimension reparam g = ⟨{ g with registry := r }, [], .error fault⟩ := by
  show Action.bind _ _ g = _
  simp [Action.bind, onRegistry, Action.within, h]

end Graph

end Separable
