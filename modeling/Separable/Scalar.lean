import Separable.Double
import Separable.Fault

/-!
# Scalars

Values, gradients, multipliers and tolerances are scalars. Every computation is written once over
the class `Scalar` and runs over double-precision numbers; an exact field can take their place
when a statement is about exact arithmetic, because no definition uses more of a scalar than the
class offers.

Comparisons are Boolean functions, so that a number that is no number compares as the arithmetic
says: it is neither below, nor above, nor equal to anything. Two operations can fail, and both say
so: a quotient by zero (`divide`), and a power of finite numbers that leaves the finite range
(`power`). All others let overflow and invalid operations through as infinities and non-numbers.
Between scalars and integers either direction can fail (`ofInteger`, `integerPart`).

## Main results

* `divide_of_ne`: a quotient exists unless the divisor compares equal to zero.
-/

namespace Separable

/-- The arithmetic that the library computes with. -/
class Scalar (α : Type) extends Zero α, One α, Add α, Sub α, Mul α, Div α, Neg α,
    OfScientific α where
  magnitude : α → α
  sqrt : α → α
  pow : α → α → α
  lt : α → α → Bool
  le : α → α → Bool
  eq : α → α → Bool
  isFinite : α → Bool
  /-- The nearest scalar of a narrower format. -/
  nearest : FloatFormat → α → α
  /-- A scalar without its fraction, if it is finite. -/
  truncated? : α → Option Int
  /-- The nearest scalar to an integer, if it is finite. -/
  ofInteger? : Int → Option α

namespace Scalar

instance : Scalar Float where
  zero := 0.0
  one := 1.0
  magnitude := Float.abs
  sqrt := Float.sqrt
  pow := Float.pow
  lt a b := a < b
  le a b := a ≤ b
  eq a b := a == b
  isFinite := Float.isFinite
  nearest := FloatFormat.nearest
  truncated? := truncatedDouble?
  ofInteger? := nearestDouble?

variable {α : Type} [Scalar α]

/-- The quotient of `a` by `b`; a zero divisor is a fault, whatever `a` is. -/
def divide (a b : α) : Except Fault α :=
  if eq b 0 then .error .divisionByZero else .ok (a / b)

/-- `a` to the power `b`; it is a fault if finite operands have an infinite power. -/
def power (a b : α) : Except Fault α :=
  let r := pow a b
  if isFinite a && isFinite b && !isFinite r && eq r r then .error .overflow else .ok r

/-- The nearest scalar to an integer. -/
def ofInteger (n : Int) : Except Fault α :=
  match ofInteger? n with
  | some a => .ok a
  | none => .error .integerTooLarge

/-- A scalar without its fraction. -/
def integerPart (a : α) : Except Fault Int :=
  match truncated? a with
  | some n => .ok n
  | none => .error (if eq a a then .infinityTruncated else .notANumberTruncated)

/-- The larger of two scalars; the first one unless the second is strictly above it. -/
def larger (a b : α) : α := if lt a b then b else a

/-- The sum of a list, from zero and from left to right. -/
def sum (xs : List α) : α := xs.foldl (· + ·) 0

theorem divide_of_ne {a b : α} (h : eq b 0 = false) : divide a b = .ok (a / b) := by
  simp [divide, h]

@[simp] theorem sum_nil : sum ([] : List α) = 0 := rfl

end Scalar

end Separable
