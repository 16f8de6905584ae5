import Separable.Buffer

/-!
# Terms

A term is one summand of an objective: a function of a fixed number of vector arguments, each of a
fixed dimension. It knows its value and, if it can, its gradient and its Hessian blocks.

Derivatives are written into buffers that the caller owns. A term may add to what a buffer holds
or leave part of it alone, so the buffers are an input as well as a result; and it may fail after
it has begun to write, so the buffers are a result even when there is no value. What a term can
never do is change the shape of a buffer, and its shape laws are part of the term.

The defaults `withoutGradient` and `withoutHessian` refuse and leave the buffers alone.
-/

namespace Separable

/-- A summand of an objective. -/
structure Term (α : Type) where
  /-- The name that messages use. -/
  name : String
  /-- The dimension that each argument must have. No argument has one that is negative. -/
  dimensions : List Int
  /-- The value at some arguments. -/
  value : List (List α) → Except Fault α
  /-- The gradient buffers after the call, and the value. -/
  gradient : List (List α) → Rows α → Rows α × Except Fault α
  /-- The gradient and Hessian buffers after the call, and the value. -/
  hessian : List (List α) → Rows α → Grid α → (Rows α × Grid α) × Except Fault α
  gradient_rows : ∀ args rows, rowLengths (gradient args rows).1 = rowLengths rows
  hessian_rows : ∀ args rows grid, rowLengths (hessian args rows grid).1.1 = rowLengths rows
  hessian_grid : ∀ args rows grid, gridLengths (hessian args rows grid).1.2 = gridLengths grid

namespace Term

variable {α : Type}

/-- The number of arguments. -/
def arity (t : Term α) : Nat := t.dimensions.length

/-- The gradient of a term that has none. -/
def withoutGradient (name : String) (_args : List (List α)) (rows : Rows α) :
    Rows α × Except Fault α :=
  (rows, .error (.noGradient name))

/-- The Hessian of a term that has none. -/
def withoutHessian (name : String) (_args : List (List α)) (rows : Rows α) (grid : Grid α) :
    (Rows α × Grid α) × Except Fault α :=
  ((rows, grid), .error (.noHessian name))

theorem rowLengths_withoutGradient (name : String) (args : List (List α)) (rows : Rows α) :
    rowLengths (withoutGradient name args rows).1 = rowLengths rows := rfl

theorem rowLengths_withoutHessian (name : String) (args : List (List α)) (rows : Rows α)
    (grid : Grid α) : rowLengths (withoutHessian name args rows grid).1.1 = rowLengths rows := rfl

theorem gridLengths_withoutHessian (name : String) (args : List (List α)) (rows : Rows α)
    (grid : Grid α) : gridLengths (withoutHessian name args rows grid).1.2 = gridLengths grid := rfl

end Term

end Separable
