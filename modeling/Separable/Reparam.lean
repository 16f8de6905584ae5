import Separable.Buffer
import Separable.Element

/-!
# Reparameterizations

The user works with a point in *user space*, a solver with one in *solver space*, and a
reparameterization `x = x(t)` of a variable goes from the second to the first. It maps points in
both directions and pulls a gradient back by the chain rule, adding `J(t)ᵀ g` to what the solver's
gradient holds.

Each of the three writes into a buffer and may fail, and like a term it can never change the shape
of the buffer. A point of solver space may be kept in elements of another kind than double
precision, and the way to user space then computes in that kind (`Reparam.toUserFrom`).

## Main results

* `linear_toUser`, `square_toUser`: the ways to user space in double precision.
-/

namespace Separable

/-- A change of variables from solver space to user space. -/
structure Reparam (α : Type) where
  /-- The dimension that the variable must have. No variable has one that is negative. -/
  userDimension : Int
  solverDimension : Nat
  /-- Whether the way to user space begins with the entries of the point. If not, it fails without a
  look at them. -/
  readsPoint : Bool
  /-- The user buffer after the point `t`, whose elements are of this kind, was mapped into it. -/
  toUserFrom : (kind : ElementKind) → (t user : List α) → List α × Except Fault Unit
  /-- The solver buffer after the point `x` was mapped into it. -/
  toSolver : (x solver : List α) → List α × Except Fault Unit
  /-- The solver gradient after the gradient `g` at the point `t` was pulled back to it. -/
  pullBack : (t g solver : List α) → List α × Except Fault Unit
  toUserFrom_length : ∀ kind t user, (toUserFrom kind t user).1.length = user.length
  toSolver_length : ∀ x solver, (toSolver x solver).1.length = solver.length
  pullBack_length : ∀ t g solver, (pullBack t g solver).1.length = solver.length

namespace Reparam

open Scalar

/-- The user buffer after a point of double precision was mapped into it. -/
def toUser {α : Type} (c : Reparam α) (t user : List α) : List α × Except Fault Unit :=
  c.toUserFrom .double t user

theorem toUser_length {α : Type} (c : Reparam α) (t user : List α) :
    (c.toUser t user).1.length = user.length :=
  c.toUserFrom_length .double t user

variable {α : Type} [Scalar α]

/-- Failing where a list ends that is needed up to `wanted` entries. -/
def endingAt (length wanted : Nat) : Except Fault Unit :=
  if length < wanted then .error .noEntry else .ok ()

/-- The shortest of some rows, but no more than `limit`. -/
def shortestRow (limit : Nat) (rows : List (List α)) : Nat :=
  rows.foldl (fun n row => min n row.length) limit

/-- The affine map `x = A t + b`; the way back is `t = B (x - b)`. Sums over pairs of entries end
with the shorter of two lists. A shift `b` that is too short ends the way to user space, and a row
of `A` that is too short ends the pull-back. -/
def linear (forward backward : List (List α)) (shift : List α) : Reparam α where
  userDimension := forward.length
  solverDimension := backward.length
  readsPoint := true
  toUserFrom := fun kind t user =>
    (user.mapIdx fun i old =>
      match shift[i]? with
      | none => old
      | some b =>
        let products := (forward.getD i []).zipWith (fun a x => kind.round (a * x)) t
        kind.round (products.foldl (fun total product => kind.round (total + product)) 0 + b),
      endingAt shift.length user.length)
  toSolver := fun x solver =>
    (solver.mapIdx fun j _ =>
      sum ((backward.getD j []).zipWith (· * ·) (x.zipWith (· - ·) shift)), .ok ())
  pullBack := fun _ g solver =>
    let columns := shortestRow solver.length (forward.take g.length)
    (solver.mapIdx fun j old =>
      if columns ≤ j then old
      else old + sum (forward.zipWith (fun row gi => row.getD j 0 * gi) g),
      endingAt columns solver.length)
  toUserFrom_length := by simp
  toSolver_length := by simp
  pullBack_length := by simp

/-- The operations of a reparameterization. -/
inductive Direction where
  | toUser
  | toSolver
  | pullBack
  deriving DecidableEq, Repr

/-- The failure of an operation that is broken on purpose. -/
def Direction.failure : Direction → Fault
  | toUser => .reported .value "to_user failed"
  | toSolver => .reported .value "to_solver failed"
  | pullBack => .reported .value "update_gradient failed"

/-- The position of the first negative entry, counted from `i`. -/
def firstNegative (i : Nat) : List α → Option Nat
  | [] => none
  | x :: rest => if lt x 0 then some i else firstNegative (i + 1) rest

/-- The map `x = t²`, entry by entry; the way back is the square root, which a negative entry
does not have. A point with too few entries is mapped as far as it goes. The operation `broken`, if
there is one, fails before it does anything. -/
def square (dimension : Int) (broken : Option Direction) : Reparam α where
  userDimension := dimension
  solverDimension := dimension.toNat
  readsPoint := broken ≠ some .toUser
  toUserFrom := fun kind t user =>
    if broken = some .toUser then (user, .error Direction.toUser.failure)
    else
      (overwrite 0 (t.map fun a => kind.round (a * a)) user,
        if t.length < user.length then .error (.noEntryAt t.length t.length) else .ok ())
  toSolver := fun x solver =>
    if broken = some .toSolver then (solver, .error Direction.toSolver.failure)
    else
      match firstNegative 0 x with
      | none => (solver.mapIdx fun i _ => sqrt (x.getD i 0), .ok ())
      | some bad =>
        (solver.mapIdx fun i old => if i < bad then sqrt (x.getD i 0) else old,
          .error (.reported .value s!"negative entry {bad}"))
  pullBack := fun t g solver =>
    if broken = some .pullBack then (solver, .error Direction.pullBack.failure)
    else (solver.mapIdx fun i old => old + (2.0 * t.getD i 0) * g.getD i 0, .ok ())
  toUserFrom_length := by intros; split <;> simp
  toSolver_length := by
    intros
    split
    · rfl
    · split <;> simp
  pullBack_length := by intros; split <;> simp

theorem linear_toUser (forward backward : List (List α)) (shift t user : List α) :
    (linear forward backward shift).toUser t user =
      (user.mapIdx fun i old =>
        match shift[i]? with
        | none => old
        | some b => sum ((forward.getD i []).zipWith (· * ·) t) + b,
        endingAt shift.length user.length) := rfl

theorem square_toUser (dimension : Int) (broken : Option Direction) (t user : List α) :
    (square dimension broken).toUser t user =
      if broken = some .toUser then (user, .error Direction.toUser.failure)
      else
        (overwrite 0 (t.map fun a => a * a) user,
          if t.length < user.length then .error (.noEntryAt t.length t.length) else .ok ()) := rfl

end Reparam

end Separable
