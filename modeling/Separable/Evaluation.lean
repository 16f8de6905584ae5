import Separable.Crew
import Separable.Graph
import Separable.SparseLibrary
import Separable.Tensor

/-!
# Evaluating a graph

The value of a graph at a state is the sum of its terms at the scratch vectors into which the state
was loaded. A derivative evaluation adds the gradients of the terms, each at the slices of its
variables, and if asked to it collects the Hessian blocks into one matrix, dense or sparse.

An evaluation makes its checks first, then brings the evaluation storage up to date, then loads
the state, and only then sets the workers to work. A gradient buffer that the caller hands in is
written only after the workers are done.
-/

namespace Separable

open Scalar

/-- A form in which a Hessian can be asked for. -/
inductive HessianMode where
  | dense
  | sparse
  /-- A form that does not exist. -/
  | unknown (name : String)
  deriving DecidableEq, Repr

/-- The form with this name. -/
def HessianMode.ofName : String → HessianMode
  | "dense" => dense
  | "sparse" => sparse
  | name => unknown name

/-- A Hessian. -/
inductive Hessian (α : Type) where
  | dense (matrix : Block α)
  | sparse (matrix : CompressedRows α)

/-- Value, gradient and, if it was asked for, Hessian. -/
structure Derivatives (α : Type) where
  value : α
  gradient : List α
  hessian : Option (Hessian α)

section Terms

variable {α : Type} [Scalar α]

/-! ## What a worker does with one term -/

/-- The arguments of a term, read from the scratch vectors. -/
def Registry.arguments (r : Registry α) (b : Bound α) : List (List α) :=
  b.vars.map r.scratch

/-- The value of a term. -/
def valueTask (m : Multipliers α) (r : Registry α) : Task α := fun s b =>
  ((s, b), (b.summand.resolve m).value (r.arguments b))

/-- The zeroed beginning of a worker's rows that a term writes its gradient to. -/
def Bound.clearedRows (b : Bound α) (rows : Rows α) : Rows α :=
  mapRows (fun _ _ _ => 0) (rows.zipWith (fun row v => row.take v.userDimension) b.vars)

/-- The rows of a worker after a term wrote its gradient to their beginning. -/
def restoredRows (written rows : Rows α) : Rows α :=
  rows.mapIdx fun i row => overwrite 0 (written.getD i []) row

/-- Adds the gradient of a term to an accumulator, argument by argument, up to the first argument
whose reparameterization fails. -/
def addSlopes (x : List α) : List (Variable α × List α) → List α → List α × Except Fault Unit
  | [], total => (total, .ok ())
  | (v, g) :: rest, total =>
    match v.reparam with
    | none => addSlopes x rest (addAt v.offset g total)
    | some c =>
      match c.pullBack (v.part x) g (v.part total) with
      | (part, .error fault) => (overwrite v.offset part total, .error fault)
      | (part, .ok ()) => addSlopes x rest (overwrite v.offset part total)

/-- The derivatives of a term: its gradient is added to the worker's accumulator, and its Hessian
is written to its blocks. -/
def derivativeTask (m : Multipliers α) (r : Registry α) (x : List α) (withHessian : Bool) :
    Task α := fun s b =>
  let t := b.summand.resolve m
  let cleared := b.clearedRows s.rows
  let ((written, blocks), result) :=
    if withHessian then
      t.hessian (r.arguments b) cleared (mapGrid (fun _ _ _ _ _ => 0) b.blocks)
    else
      let (written, result) := t.gradient (r.arguments b) cleared
      ((written, b.blocks), result)
  let rows := restoredRows written s.rows
  let b := { b with blocks := blocks }
  match result with
  | .error fault => ((⟨s.accumulator, rows⟩, b), .error fault)
  | .ok value =>
    match addSlopes x (b.vars.zip written) s.accumulator with
    | (total, .error fault) => ((⟨total, rows⟩, b), .error fault)
    | (total, .ok ()) => ((⟨total, rows⟩, b), .ok value)

/-! ## Adding up the workers' gradients -/

/-- Adds an accumulator to a gradient whose elements are of this kind. An accumulator of one entry
is added to every entry. -/
def addAccumulator (kind : ElementKind) (gradient total : List α) : Except Fault (List α) :=
  match kind.refusingSums? with
  | some name => .error (.unsafeSum name)
  | none =>
    if total.length = gradient.length then
      .ok (gradient.zipWith (fun a b => kind.round (a + b)) total)
    else
      match total with
      | [b] => .ok (gradient.map fun a => kind.round (a + b))
      | _ =>
        if gradient.length = 1 then .error (.stretchedBuffer total.length)
        else .error (.unequalLengths gradient.length total.length)

/-- The gradient after the accumulators were added to it, up to the first that does not fit. -/
def addAccumulators (kind : ElementKind) (gradient : List α) :
    List (List α) → List α × Except Fault Unit
  | [] => (gradient, .ok ())
  | total :: rest =>
    match addAccumulator kind gradient total with
    | .error fault => (gradient, .error fault)
    | .ok gradient => addAccumulators kind gradient rest

namespace Graph

/-- Brings the evaluation storage up to date. -/
def refreshed : Action (Graph α) α (Pool α) := fun g =>
  let fresh := Pool.build g.version g.workers g.hessianEnabled g.terms g.registry
  let rebuilt : Outcome (Graph α) α (Pool α) :=
    ⟨{ g with pool := some fresh },
      [⟨.info, .allocated g.workers g.terms.length g.registry.slots.length g.scalars⟩], .ok fresh⟩
  match g.pool with
  | none => rebuilt
  | some p => if p.version = g.version then ⟨g, [], .ok p⟩ else rebuilt

/-- Refuses a state that is not a vector of the right length. -/
def checkState (x : Tensor α) : Action (Graph α) α Unit := fun g =>
  Action.require (x.shape = [g.scalars]) (.stateShape x.shape g.scalars) g

/-- Evaluates every term and adds up the values. -/
def sumValues (m : Multipliers α) (p : Pool α) : Action (Graph α) α α :=
  Action.run fun g =>
    let crew := (Crew.start g.terms p).run (valueTask m g.registry)
    ({ g with valueCount := g.valueCount + 1 }, crew.outcome)

/-- The value at a state, which is converted to double precision. -/
def value (m : Multipliers α) (x : Tensor α) : Action (Graph α) α α := do
  checkState x
  let p ← refreshed
  onRegistry (Registry.load x.converted)
  sumValues m p

/-- The value at the caller's storage. -/
def valueAtStorage (m : Multipliers α) (memory : Memory α) : Action (Graph α) α α := do
  let p ← refreshed
  onRegistry (Action.modify (Registry.loadStorage memory))
  sumValues m p

/-- Evaluates every term with its gradient, and with its Hessian if asked to. -/
def sumDerivatives (m : Multipliers α) (x : List α) (withHessian : Bool) (p : Pool α) :
    Action (Graph α) α α :=
  Action.run fun g =>
    let crew := (Crew.start g.terms p.cleared).run (derivativeTask m g.registry x withHessian)
    let p := { p with scratch := crew.workers.map (·.scratch) }
    ({ g with terms := crew.terms, pool := some p }, crew.outcome)

/-- Refuses a gradient buffer that is not a vector of the right length. -/
def checkBuffer (buffer : Option (Tensor α)) : Action (Graph α) α Unit := fun g =>
  match buffer with
  | none => Action.pure () g
  | some b => Action.require (b.shape = [g.scalars]) (.gradientShape b.shape g.scalars) g

/-- Refuses a form of Hessian that the graph cannot have. -/
def checkMode (mode : Option HessianMode) : Action (Graph α) α Unit := fun g =>
  match mode with
  | none => Action.pure () g
  | some mode =>
    if g.hessianEnabled then
      match mode with
      | .unknown name => Action.fail (.unknownHessianMode name) g
      | _ => Action.pure () g
    else Action.fail .hessianDisabled g

/-- Everything of a derivative evaluation up to the moment when the workers are done. -/
def evaluateTerms (m : Multipliers α) (x : Tensor α) (mode : Option HessianMode)
    (buffer : Option (Tensor α)) : Action (Graph α) α α := do
  checkState x
  checkBuffer buffer
  checkMode mode
  let p ← refreshed
  Action.require (mode.isNone || p.supportsHessian) .hessianReparameterized
  Action.modify fun g => { g with derivativeCount := g.derivativeCount + 1 }
  onRegistry (Registry.load x.converted)
  sumDerivatives m x.entries mode.isSome p

/-- The gradient that the accumulators add up to in elements of this kind. -/
def reducedIn (kind : ElementKind) (g : Graph α) : List α × Except Fault Unit :=
  match g.pool with
  | none => (zeros g.scalars, .ok ())
  | some p => addAccumulators kind (zeros g.scalars) (p.scratch.map (·.accumulator))

/-- The gradient that the accumulators add up to. -/
def reduced (g : Graph α) : List α × Except Fault Unit := g.reducedIn .double

/-- The kind in which a gradient is added up: that of the buffer of the caller, if there is one. -/
def gradientKind (buffer : Option (Tensor α)) : ElementKind :=
  match buffer with
  | none => .double
  | some b => b.kind

/-- The state that the caller's storage holds. -/
def gather (memory : Memory α) (g : Graph α) : Except Fault (List α) := g.registry.gather memory

/-- Copies a state into the caller's storage, unless it has the wrong shape. -/
def store (x : Tensor α) (g : Graph α) : Action (Memory α) α Unit := do
  Action.require (x.shape = [g.scalars]) (.stateShape x.shape g.scalars)
  g.registry.store x

end Graph

end Terms

namespace Graph

variable {α : Type} [Backend α]

/-- The Hessian that the blocks of the last evaluation add up to. -/
def collectHessian (mode : HessianMode) (g : Graph α) : Except Fault (Hessian α) :=
  match mode, g.pool.bind (·.coordinates) with
  | .sparse, some places =>
    (Bound.gather g.terms places.size).bind fun values =>
      (CompressedRows.assemble places values).map .sparse
  | .sparse, none => .error .sizeMismatch
  | _, _ => .ok (.dense (Bound.dense g.terms g.scalars))

/-- Value and derivatives at a state. The object is the graph together with the gradient buffer of
the caller, if there is one. -/
def derivatives (m : Multipliers α) (x : Tensor α) (mode : Option HessianMode) :
    Action (Graph α × Option (Tensor α)) α (Derivatives α) := do
  let (_, buffer) ← Action.get
  let onGraph {β : Type} : Action (Graph α) α β → Action (Graph α × Option (Tensor α)) α β :=
    Action.within Prod.fst fun s g => (g, s.2)
  let value ← onGraph (evaluateTerms m x mode buffer)
  let gradient ← Action.run fun (g, buffer) =>
    let (gradient, outcome) := g.reducedIn (gradientKind buffer)
    ((g, buffer.map fun b => { b with entries := gradient }), outcome.map fun () => gradient)
  let (g, _) ← Action.get
  let hessian ← Action.ofExcept (mode.mapM g.collectHessian)
  return ⟨value, gradient, hessian⟩

/-- The structure of the Hessian: a sparse matrix that counts the blocks at each place. -/
def pattern : Action (Graph α) α (CompressedRows α) := do
  let g ← Action.get
  Action.require g.hessianEnabled .hessianDisabled
  let p ← refreshed
  Action.require p.supportsHessian .hessianReparameterized
  match p.coordinates with
  | none => Action.fail .sizeMismatch
  | some places =>
    Action.ofExcept (CompressedRows.assemble places (List.replicate places.size 1))

end Graph

end Separable
