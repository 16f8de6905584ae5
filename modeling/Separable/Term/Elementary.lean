import Separable.Term

/-!
# Elementary terms

The terms that come with the library: squared distances, the square of an inner product, quartic
differences, affine functions, sums, the banana-shaped valley of Rosenbrock, constants, and a term
that fails on purpose.

Every one of them states its derivatives entry by entry: `mapRows` and `mapGrid` compute the entry
at a place from the place and from what the buffer holds there, so the shape laws of `Term` hold
without further ado. All sums run from left to right, and products and differences are taken in
the order written, because rounding depends on it.

A graph hands a term as many arguments as it wants, of the dimensions that it wants. Other arguments
are no reason to refuse. Sums over pairs of entries end with the shorter of two vectors, and an
affine function ends with the shorter of its lists of coefficients and arguments. A term fails at
the first argument or entry that it names and that is not there, after it has written what comes
before. What stands beyond the arguments of a term is left alone.
-/

namespace Separable.Term

open Scalar

variable {α : Type} [Scalar α]

/-- Entry `k` of argument `i`. -/
def entry (args : List (List α)) (i k : Nat) : α := (args.getD i []).getD k 0

omit [Scalar α] in
/-- Argument `i`, which must be there. -/
def argument (args : List (List α)) (i : Nat) : Except Fault (List α) :=
  match args[i]? with
  | none => .error .noEntry
  | some a => .ok a

omit [Scalar α] in
/-- Entry `k` of a vector, which must be there. -/
def component (xs : List α) (k : Nat) : Except Fault α :=
  match xs[k]? with
  | none => .error (.noEntryAt k xs.length)
  | some a => .ok a

/-- The weighted squared distance of one argument from `target`. -/
def squaredDistance (target : List α) (weight : α) : Term α :=
  let value (args : List (List α)) : Except Fault α :=
    (argument args 0).map fun a =>
      weight * sum (a.zipWith (fun a t => (a - t) * (a - t)) target)
  let outcome (args : List (List α)) : Except Fault α :=
    (argument args 0).bind fun a =>
      if a.length < target.length then .error (.noEntryAt a.length a.length) else value args
  let slope (args : List (List α)) (i k : Nat) (old : α) : α :=
    match i, target[k]? with
    | 0, some t => (2.0 * weight) * (entry args 0 k - t)
    | _, _ => old
  { name := "SquaredDistance"
    dimensions := [target.length]
    value := value
    gradient := fun args rows => (mapRows (slope args) rows, outcome args)
    hessian := fun args rows grid =>
      ((mapRows (slope args) rows,
        mapGrid (fun _ _ k l old => if k = l then 2.0 * weight else old) grid),
        outcome args)
    gradient_rows := by simp
    hessian_rows := by simp
    hessian_grid := by simp }

/-- The square of the inner product of two arguments. The gradient has `dimension` entries for each,
whatever the lengths of the arguments. -/
def product (dimension : Int) : Term α :=
  let inner (args : List (List α)) : α :=
    sum ((args.getD 0 []).zipWith (· * ·) (args.getD 1 []))
  let shorter (args : List (List α)) : Nat := min (args.getD 0 []).length (args.getD 1 []).length
  let slope (args : List (List α)) (i k : Nat) (old : α) : α :=
    if i < 2 ∧ k < min dimension.toNat (shorter args) then
      (2.0 * inner args) * entry args (1 - i) k
    else old
  let value (args : List (List α)) : Except Fault α :=
    (argument args 1).map fun _ => inner args * inner args
  let outcome (args : List (List α)) : Except Fault α :=
    (argument args 1).bind fun _ =>
      if shorter args < dimension then .error (.noEntryAt (shorter args) (shorter args))
      else value args
  let cross (args : List (List α)) (k l : Nat) : α :=
    (2.0 * entry args 1 k) * entry args 0 l + (if k = l then 2.0 * inner args else 0)
  let curvature (args : List (List α)) (i j k l : Nat) (_ : α) : α :=
    if i = j then (2.0 * entry args (1 - i) k) * entry args (1 - i) l
    else if i = 0 then cross args k l
    else cross args l k
  { name := "ProductTerm"
    dimensions := [dimension, dimension]
    value := value
    gradient := fun args rows => (mapRows (slope args) rows, outcome args)
    hessian := fun args rows grid =>
      ((mapRows (slope args) rows, mapGrid (curvature args) grid), outcome args)
    gradient_rows := by simp
    hessian_rows := by simp
    hessian_grid := by simp }

/-- The sum of the fourth powers of the differences of two arguments. -/
def quarticDifference (dimension : Int) : Term α :=
  let fourth (a b : α) : α := let e := a - b; (e * e) * (e * e)
  let value (args : List (List α)) : Except Fault α :=
    (argument args 1).map fun b => sum ((args.getD 0 []).zipWith fourth b)
  let shorter (args : List (List α)) : Nat := min (args.getD 0 []).length (args.getD 1 []).length
  let slope (args : List (List α)) (i k : Nat) (old : α) : α :=
    let e := entry args 0 k - entry args 1 k
    let g := ((4.0 * e) * e) * e
    if shorter args ≤ k then old else if i = 0 then g else if i = 1 then -g else old
  let curvature (args : List (List α)) (i j k l : Nat) (old : α) : α :=
    let e := entry args 0 k - entry args 1 k
    let h := (12.0 * e) * e
    if k = l then (if i = j then h else -h) else old
  { name := "QuarticDifference"
    dimensions := [dimension, dimension]
    value := value
    gradient := fun args rows => (mapRows (slope args) rows, value args)
    hessian := fun args rows grid =>
      ((mapRows (slope args) rows, mapGrid (curvature args) grid), value args)
    gradient_rows := by simp
    hessian_rows := by simp
    hessian_grid := by simp }

/-- The first of some rows that is shorter than the coefficients for it, and how long it is; the
rows are numbered from `i` on. -/
def firstShort (i : Nat) : (coefficients rows : List (List α)) → Option (Nat × Nat)
  | c :: coefficients, row :: rows =>
    if row.length < c.length then some (i, row.length) else firstShort (i + 1) coefficients rows
  | _, _ => none

/-- An affine function with one list of coefficients per argument. It adds to its buffers. -/
def affine (coefficients : List (List α)) (offset : α) : Term α :=
  let value (args : List (List α)) : α :=
    (coefficients.zipWith (fun c x => c.zipWith (· * ·) x) args).flatten.foldl (· + ·) offset
  let outcome (args rows : List (List α)) : Except Fault α :=
    match firstShort 0 coefficients rows with
    | none => .ok (value args)
    | some (_, length) => .error (.noEntryAt length length)
  let slope (rows : List (List α)) (i k : Nat) (old : α) : α :=
    match firstShort 0 coefficients rows, (coefficients.getD i [])[k]? with
    | some (short, _), some c => if i ≤ short then old + c else old
    | none, some c => old + c
    | _, none => old
  let curvature (i j k l : Nat) (old : α) : α :=
    old + entry coefficients i k * entry coefficients j l
  { name := "Affine"
    dimensions := coefficients.map fun c => (c.length : Int)
    value := fun args => .ok (value args)
    gradient := fun args rows => (mapRows (slope rows) rows, outcome args rows)
    hessian := fun args rows grid =>
      ((mapRows (slope rows) rows, mapGrid curvature grid), outcome args rows)
    gradient_rows := by simp
    hessian_rows := by simp
    hessian_grid := by simp }

/-- The sum of all entries of all arguments. It has a value only. -/
def total (dimensions : List Int) : Term α where
  name := "SumTerm"
  dimensions := dimensions
  value := fun args => .ok (sum args.flatten)
  gradient := withoutGradient "SumTerm"
  hessian := withoutHessian "SumTerm"
  gradient_rows := rowLengths_withoutGradient "SumTerm"
  hessian_rows := rowLengths_withoutHessian "SumTerm"
  hessian_grid := gridLengths_withoutHessian "SumTerm"

/-- The valley `(1 - x)² + 100 (y - x²)²` of one argument with entries `x` and `y`. It has no
Hessian. -/
def rosenbrock : Term α :=
  let point (args : List (List α)) : Except Fault (α × α) := do
    let a ← argument args 0
    return (← component a 0, ← component a 1)
  let value (args : List (List α)) : Except Fault α :=
    (point args).map fun (x, y) =>
      let u := 1 - x
      let v := y - x * x
      u * u + 100.0 * (v * v)
  let slope (args : List (List α)) (i k : Nat) (old : α) : α :=
    match i, k, point args with
    | 0, 0, .ok (x, y) => -2.0 * (1 - x) - (400.0 * x) * (y - x * x)
    | 0, 1, .ok (x, y) => 200.0 * (y - x * x)
    | _, _, _ => old
  { name := "Rosenbrock"
    dimensions := [2]
    value := value
    gradient := fun args rows => (mapRows (slope args) rows, value args)
    hessian := withoutHessian "Rosenbrock"
    gradient_rows := by simp
    hessian_rows := rowLengths_withoutHessian "Rosenbrock"
    hessian_grid := gridLengths_withoutHessian "Rosenbrock" }

/-- A constant, a function of no arguments. -/
def constant (value : α) : Term α where
  name := "ConstantTerm"
  dimensions := []
  value := fun _ => .ok value
  gradient := fun _ rows => (rows, .ok value)
  hessian := fun _ rows grid => ((rows, grid), .ok value)
  gradient_rows := by simp
  hessian_rows := by simp
  hessian_grid := by simp

/-- What a term is asked for. -/
inductive Phase where
  | value
  | gradient
  | hessian
  deriving DecidableEq, Repr

/-- How a term fails on purpose. -/
structure Defect (α : Type) where
  category : Category
  text : String
  /-- The phases that fail. -/
  phases : List Phase
  /-- If given, only arguments whose first entry is above it fail. -/
  above : Option α

/-- The outcome of a phase: the first entry of the argument, or the failure. -/
def Defect.outcome (d : Defect α) (phase : Phase) (args : List (List α)) : Except Fault α :=
  let failure : Except Fault α := .error (.reported d.category d.text)
  let first : Except Fault α := (argument args 0).bind fun a => component a 0
  if d.phases.contains phase then
    match d.above with
    | none => failure
    | some bound => first.bind fun a => if lt bound a then failure else .ok a
  else first

/-- A term that fails on purpose. It fills the buffers of its argument with ones and nines before it
decides. -/
def failing (dimension : Int) (d : Defect α) : Term α where
  name := "FailingTerm"
  dimensions := [dimension]
  value := d.outcome .value
  gradient := fun args rows =>
    (mapRows (fun i _ old => if i = 0 then 1 else old) rows,
      (argument rows 0).bind fun _ => d.outcome .gradient args)
  hessian := fun args rows grid =>
    ((mapRows (fun i _ old => if i = 0 then 1 else old) rows, mapGrid (fun _ _ _ _ _ => 9.0) grid),
      (argument rows 0).bind fun _ => d.outcome .hessian args)
  gradient_rows := by simp
  hessian_rows := by simp
  hessian_grid := by simp

end Separable.Term
