import Separable.Pool

/-!
# Workers

The terms of a graph are evaluated by a crew. Every worker goes through its chunk of the term list
from the first term to the last, with its own buffers and a running sum, and stops for good at its
first fault. A `turn` is the evaluation of one term by one worker; workers take turns in any order,
and no turn touches the buffers of another worker or a term outside the worker's chunk.

`Crew.run` is the order in which the workers finish one after another. `Crew.Step` is any order.

What a crew reports is in `Crew.outcome`: a fatal fault comes out as it is, the first of several;
else the fault of the worker with the lowest number is reported as a concurrent failure; else the
sums of the workers are added in their order.
-/

namespace Separable

open Scalar

/-- The evaluation of a bound term with the buffers of a worker: buffers and term afterwards, and
the value. -/
abbrev Task (α : Type) := Scratch α → Bound α → (Scratch α × Bound α) × Except Fault α

/-- A worker in the middle of its chunk. -/
structure Worker (α : Type) where
  scratch : Scratch α
  /-- The position of the next term. -/
  next : Nat
  /-- The end of the chunk. -/
  stop : Nat
  /-- The sum so far. -/
  value : α
  fault : Option Fault

/-- Some workers and the terms that they share. -/
structure Crew (α : Type) where
  workers : List (Worker α)
  terms : List (Bound α)

variable {α : Type}

namespace Worker

/-- Whether the worker has a term to evaluate. -/
def isBusy (w : Worker α) : Bool := w.fault.isNone && w.next < w.stop

/-- The worker after an evaluation. -/
def record [Scalar α] (w : Worker α) (scratch : Scratch α) : Except Fault α → Worker α
  | .ok value => { w with scratch := scratch, next := w.next + 1, value := w.value + value }
  | .error fault => { w with scratch := scratch, fault := some fault }

end Worker

namespace Crew

variable [Scalar α]

/-- A crew before the first turn. -/
def start (terms : List (Bound α)) (p : Pool α) : Crew α :=
  ⟨p.scratch.zipWith (fun scratch (first, stop) => ⟨scratch, first, stop, 0, none⟩) p.chunks,
    terms⟩

/-- Worker `w` evaluates its next term, if it has one. -/
def turn (task : Task α) (w : Nat) (c : Crew α) : Option (Crew α) :=
  match c.workers[w]? with
  | none => none
  | some worker =>
    if worker.isBusy then
      match c.terms[worker.next]? with
      | none => none
      | some b =>
        let ((scratch, b), result) := task worker.scratch b
        some ⟨c.workers.set w (worker.record scratch result), c.terms.set worker.next b⟩
    else none

/-- Some worker takes a turn. -/
def Step (task : Task α) (c d : Crew α) : Prop := ∃ w, c.turn task w = some d

/-- Worker `w` takes up to `turns` turns. -/
def work (task : Task α) (w : Nat) : (turns : Nat) → Crew α → Crew α
  | 0, c => c
  | turns + 1, c =>
    match c.turn task w with
    | none => c
    | some c => work task w turns c

/-- The number of turns that worker `w` has left. -/
def turnsLeft (w : Nat) (c : Crew α) : Nat :=
  match c.workers[w]? with
  | none => 0
  | some worker => worker.stop - worker.next

/-- All workers finish, one after another. -/
def run (task : Task α) (c : Crew α) : Crew α :=
  (List.range c.workers.length).foldl (fun c w => c.work task w (c.turnsLeft w)) c

/-- The faults of the workers, in their order. -/
def faults (c : Crew α) : List Fault := c.workers.filterMap (·.fault)

/-- What the crew reports in the end. -/
def outcome (c : Crew α) : Except Fault α :=
  match c.faults.find? Fault.isFatal with
  | some fault => .error fault
  | none =>
    match c.faults with
    | fault :: _ => .error (.concurrent fault)
    | [] => .ok (sum (c.workers.map (·.value)))

end Crew

end Separable
