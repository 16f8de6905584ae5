import Separable.Catalog
import Separable.Minimizer
import Separable.Nested
import Separable.Problem.OuterLoop

/-!
# Workspaces

A workspace holds a memory, and by name: the storages in it, reparameterizations, terms,
registries, graphs, problems and solver results. Storages, reparameterizations and terms are
declared one after another before any work begins, and a declaration can build on earlier ones
only. A caller may also declare a plain list as a storage. No variable can live in it, but it can be
read and replaced like an array. What a caller supplies may be unusable, which comes to light only
after everything that is looked up before it.

Work on a named object is an action on the whole workspace: the object is looked up, the action
runs on it, and the object is put back as the action left it, whether or not the action succeeded.
A name that nothing has is a fault.

The graphs of a problem have addresses of their own. The combined graph of a problem is evaluated
with the multipliers of the problem; every other graph has no constraints to multiply.
-/

namespace Separable

variable {α : Type}

/-- Something with a name. -/
inductive Object (α : Type) where
  | registry (r : Registry α)
  | graph (g : Graph α)
  | problem (p : Problem α)

/-- Where a graph is found. -/
inductive Address where
  | named (name : String)
  | objective (problem : String)
  | combined (problem : String)
  | constraint (problem name : String)
  deriving DecidableEq, Repr

/-- The name that an address begins with. -/
def Address.owner : Address → String
  | named name => name
  | objective problem => problem
  | combined problem => problem
  | constraint problem _ => problem

/-- How to obtain a term: it is given, or it is the penalty of another one for a fixed multiplier
and a fixed penalty parameter. -/
inductive Recipe (α : Type) where
  | given (t : Given (Term α))
  | penalty (inner : Recipe α) (dual mu : Supplied α)

/-- The term that a recipe yields. The numbers of a penalty are wanted before its inner term. -/
def Recipe.build [Backend α] (terms : Catalog (Term α)) : Recipe α → Except Fault (Term α)
  | given t => terms.resolve t
  | penalty inner dual mu => do
    let dual ← dual
    let mu ← mu
    return (← inner.build terms).penalized dual mu

/-- Memory, declarations, named objects and results. -/
structure Workspace (α : Type) where
  memory : Memory α
  storages : Catalog Storage
  /-- What the storages hold that are lists. -/
  lists : Catalog (Nested α)
  reparams : Catalog (Reparam α)
  terms : Catalog (Term α)
  objects : Catalog (Object α)
  results : Catalog (Results α)

/-- What is declared before any work begins. -/
inductive Declaration (α : Type) where
  /-- A storage with entries of its own. -/
  | array (kind : ElementKind) (values : Nested α)
  /-- A list. -/
  | list (values : Nested α)
  /-- A storage that shares the entries of another one. Of a list it is a copy. -/
  | view (base : String)
  | reparam (c : Given (Reparam α))
  | term (t : Recipe α)

namespace Workspace

/-- Nothing. -/
def empty : Workspace α := ⟨⟨[]⟩, [], [], [], [], [], []⟩

/-! ## Declarations -/

/-- Adds a list under a name. -/
def declareList (w : Workspace α) (name : String) (values : Nested α) : Workspace α :=
  { w with
    storages := w.storages.put name ⟨name, .whole w.memory.regions.length, false, [], .double⟩
    lists := w.lists.put name values }

/-- Adds a view of a storage under a name. -/
def declareView (w : Workspace α) (name base : String) : Except Fault (Workspace α) :=
  (w.storages.get base).bind fun s =>
    match w.lists.find? base with
    | some (.row items) => .ok (w.declareList name (.row items))
    | some (.entry _) => .error .partOfNumber
    | none =>
      if s.shape = [] then .error .noAxes
      else .ok { w with storages := w.storages.put name { s with key := name } }

variable [Backend α] in
/-- Adds what is declared under a name. -/
def declare (w : Workspace α) (name : String) : Declaration α → Except Fault (Workspace α)
  | .array kind values =>
    values.toTensor.bind fun t =>
      (t.entries.mapM kind.enter).map fun elements =>
        { w with
          memory := w.memory.allocate elements
          storages :=
            w.storages.put name ⟨name, .whole w.memory.regions.length, true, t.shape, kind⟩ }
  | .list values => .ok (w.declareList name values)
  | .view base => w.declareView name base
  | .reparam c => (w.reparams.resolve c).map fun c => { w with reparams := w.reparams.put name c }
  | .term t => (t.build w.terms).map fun t => { w with terms := w.terms.put name t }

/-- The workspace after some declarations, which are made in order. -/
def ofDeclarations [Backend α] (declarations : Catalog (Supplied (Declaration α))) :
    Except Fault (Workspace α) :=
  declarations.foldlM (fun w (name, d) => d.bind (w.declare name)) empty

/-! ## Storage -/

/-- What a storage holds, as an array. A list holds one only if it is nested evenly. -/
def contents (w : Workspace α) (name : String) : Except Fault (Tensor α) :=
  (w.storages.get name).bind fun s =>
    match w.lists.find? name with
    | some v => v.toTensor
    | none => .ok ⟨s.shape, w.memory.read s, s.kind⟩

/-- Writes all entries of an array. Scalars that make an array of the same shape are written one
by one, up to the first that is refused; others are taken up first and then spread over the
array. -/
def assignArray [Backend α] (s : Storage) (v : Nested α) (m : Memory α) :
    Memory α × Except Fault Unit :=
  if s.shape = [] then (m, .error .noAxes)
  else
    match v.tensor s.shape.length with
    | .error fault => (m, .error fault)
    | .ok t =>
      match enteredUpToFault s.kind t.entries with
      | (elements, some fault) =>
        (if t.shape = s.shape then m.put s elements else m, .error fault)
      | (elements, none) =>
        match Tensor.spread s.shape { t with entries := elements } with
        | .error fault => (m, .error fault)
        | .ok elements => (m.put s elements, .ok ())

/-- Replaces the items of a list. -/
def assignItems (old new : Nested α) : Except Fault (Nested α) :=
  match old, new with
  | .entry _, _ => .error .itemsOfNumber
  | .row _, .entry _ => .error .itemsFromNumber
  | .row _, new => .ok new

/-- Replaces what a storage holds. The numbers are wanted before the storage is looked up. -/
def assign [Backend α] (name : String) (v : Supplied (Nested α)) : Action (Workspace α) α Unit :=
  Action.bind (Action.ofExcept v) fun v => Action.run fun w =>
    match w.storages.get name with
    | .error fault => (w, .error fault)
    | .ok s =>
      match w.lists.find? name with
      | some old =>
        match assignItems old v with
        | .error fault => (w, .error fault)
        | .ok new => ({ w with lists := w.lists.put name new }, .ok ())
      | none =>
        let (memory, outcome) := assignArray s v w.memory
        ({ w with memory := memory }, outcome)

/-! ## Objects -/

/-- Puts an object under a name. -/
def putObject (name : String) (o : Object α) (w : Workspace α) : Workspace α :=
  { w with objects := w.objects.put name o }

/-- Creates an object, unless creating it fails. -/
def create (name : String) (o : Except Fault (Object α)) : Action (Workspace α) α Unit :=
  Action.run fun w =>
    match o with
    | .error fault => (w, .error fault)
    | .ok o => (w.putObject name o, .ok ())

/-- The graph at an address, with the multipliers that its penalties refer to. -/
def graph? [Backend α] (w : Workspace α) (a : Address) : Option (Multipliers α × Graph α) :=
  match a, w.objects.find? a.owner with
  | .named _, some (.graph g) => some (Multipliers.none, g)
  | .objective _, some (.problem p) => some (Multipliers.none, p.objective)
  | .combined _, some (.problem p) => some (p.multipliers, p.combined)
  | .constraint _ name, some (.problem p) =>
    (p.constraint? name).map fun c => (Multipliers.none, c.graph)
  | _, _ => none

/-- Puts a graph at an address. -/
def putGraph (a : Address) (g : Graph α) (w : Workspace α) : Workspace α :=
  match a, w.objects.find? a.owner with
  | .named name, _ => w.putObject name (.graph g)
  | .objective problem, some (.problem p) =>
    w.putObject problem (.problem { p with objective := g })
  | .combined problem, some (.problem p) =>
    w.putObject problem (.problem { p with combined := g })
  | .constraint problem name, some (.problem p) =>
    let constraints := p.constraints.map fun c =>
      if c.name = name then { c with graph := g } else c
    w.putObject problem (.problem { p with constraints := constraints })
  | _, _ => w

/-- The registry at an address; that of a graph, if there is a graph. -/
def registry? [Backend α] (w : Workspace α) (a : Address) : Option (Registry α) :=
  match w.graph? a, w.objects.find? a.owner with
  | some (_, g), _ => some g.registry
  | none, some (.registry r) => some r
  | none, _ => none

/-- Puts a registry at an address. -/
def putRegistry [Backend α] (a : Address) (r : Registry α) (w : Workspace α) : Workspace α :=
  match w.graph? a with
  | some (_, g) => w.putGraph a { g with registry := r }
  | none => w.putObject a.owner (.registry r)

/-- The problem of this name. -/
def problem? (w : Workspace α) (name : String) : Option (Problem α) :=
  match w.objects.find? name with
  | some (.problem p) => some p
  | _ => none

/-- What is missing if nothing is found at an address: the constraint if the problem is there. -/
def missing (w : Workspace α) (a : Address) : Fault :=
  match a, w.problem? a.owner with
  | .constraint _ name, some _ => .unknownName name
  | _, _ => .unknownName a.owner

variable [Backend α] {β τ : Type}

/-- Works on a registry. -/
def onRegistry (a : Address) (x : Memory α → Action (Registry α) α β) :
    Action (Workspace α) α β := fun w =>
  match w.registry? a with
  | none => Action.fail (w.missing a) w
  | some r =>
    let o := x w.memory r
    ⟨w.putRegistry a o.state, o.log, o.result⟩

/-- Works on a graph and on something beside the workspace. -/
def onGraphWith (a : Address) (x : Multipliers α → Memory α → Action (Graph α × τ) α β) :
    Action (Workspace α × τ) α β := fun (w, t) =>
  match w.graph? a with
  | none => Action.fail (w.missing a) (w, t)
  | some (m, g) =>
    let o := x m w.memory (g, t)
    ⟨(w.putGraph a o.state.1, o.state.2), o.log, o.result⟩

/-- Works on a graph. -/
def onGraph (a : Address) (x : Multipliers α → Memory α → Action (Graph α) α β) :
    Action (Workspace α) α β := fun w =>
  match w.graph? a with
  | none => Action.fail (w.missing a) w
  | some (m, g) =>
    let o := x m w.memory g
    ⟨w.putGraph a o.state, o.log, o.result⟩

/-- Works on a problem. -/
def onProblem (name : String) (x : Memory α → Action (Problem α) α β) :
    Action (Workspace α) α β := fun w =>
  match w.problem? name with
  | none => Action.fail (.unknownName name) w
  | some p =>
    let o := x w.memory p
    ⟨w.putObject name (.problem o.state), o.log, o.result⟩

/-- Works on the memory with an array that is supplied. -/
def onMemoryWith (x : Supplied (Tensor α)) (f : Tensor α → Action (Memory α) α β) :
    Action (Workspace α) α β :=
  Action.within memory (fun w m => { w with memory := m }) (Action.bind (Action.ofExcept x) f)

/-- Copies a state into the storages of a registry. -/
def storeRegistry (a : Address) (x : Supplied (Tensor α)) : Action (Workspace α) α Unit := fun w =>
  match w.registry? a with
  | none => Action.fail (w.missing a) w
  | some r => onMemoryWith x (fun x => r.store x) w

/-- Copies a state into the storages of a graph. -/
def storeGraph (a : Address) (x : Supplied (Tensor α)) : Action (Workspace α) α Unit := fun w =>
  match w.graph? a with
  | none => Action.fail (w.missing a) w
  | some (_, g) => onMemoryWith x (fun x => g.store x) w

/-- The values of the storages of a registry. -/
def storedValues (w : Workspace α) (r : Registry α) : List (List α) :=
  r.vars.map fun v => w.memory.read v.storage

end Workspace

end Separable
