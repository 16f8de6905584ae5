import Separable.Bound
import Separable.Partition
import Separable.Registry

/-!
# Evaluation storage

Workers that evaluate a graph need room: each has an accumulator as long as the state vector and a
row of scratch space for every argument of a term, and all of them share the cuts of the term list
and the coordinates of the Hessian blocks. All this is derived from the structure of the graph and
the number of workers, is built once and is kept until one of the two changes. `Pool.version`
tells for which structure it was built.
-/

namespace Separable

/-- The buffers of one worker. -/
structure Scratch (α : Type) where
  /-- The gradient that the worker adds up. -/
  accumulator : List α
  /-- Room for the gradient of one term, one row per argument. -/
  rows : Rows α

/-- Everything that is derived from the structure of a graph and the number of workers. -/
structure Pool (α : Type) where
  /-- The version of the structure that it was built for. -/
  version : Nat
  /-- The buffers of each worker. -/
  scratch : List (Scratch α)
  /-- First term and end of each worker's chunk. -/
  chunks : List (Nat × Nat)
  /-- The coordinates of all Hessian blocks, if the graph keeps Hessians. -/
  coordinates : Option Coordinates
  /-- Whether Hessians can be assembled: no term touches a reparameterized variable. -/
  supportsHessian : Bool

namespace Pool

variable {α : Type} [Scalar α]

/-- The largest number of arguments; at least one. -/
def largestArity (terms : List (Bound α)) : Nat :=
  terms.foldl (fun n b => max n b.arity) 1

/-- Fresh buffers for one worker. -/
def freshScratch (terms : List (Bound α)) (r : Registry α) : Scratch α :=
  ⟨zeros r.scalars, filled (largestArity terms) r.largestDimension 0⟩

/-- The pool for a structure and a number of workers. -/
def build (version workers : Nat) (hessianEnabled : Bool) (terms : List (Bound α))
    (r : Registry α) : Pool α where
  version := version
  scratch := List.replicate workers (freshScratch terms r)
  chunks := Partition.chunks terms.length workers
  coordinates := if hessianEnabled then some (Bound.coordinates terms r.scalars) else none
  supportsHessian := !terms.any Bound.hasReparam

/-- The pool with zeroed accumulators. -/
def cleared (p : Pool α) : Pool α :=
  { p with scratch := p.scratch.map fun s =>
      { s with accumulator := zeros s.accumulator.length } }

end Pool

end Separable
