import Separable.Binary

/-!
# Decimal digits of a ratio

A positive ratio has a leading decimal digit; `leadingPower` finds its place. `significant` rounds
a ratio to a given number of decimal digits, counted from the leading one. The work is done over
exact integers, so the digits are the right ones however large or small the ratio is; a tie goes
to the even digit.
-/

namespace Separable.Decimal

/-- The number of decimal digits of `n`; zero has none. -/
def digitCount (n : Nat) : Nat :=
  if n = 0 then 0 else digitCount (n / 10) + 1
termination_by n

/-- The exponent `p` with `10 ^ p ≤ num / den < 10 ^ (p + 1)`. -/
def leadingPower (num den : Nat) : Int :=
  if den ≤ num then (digitCount (num / den) : Int) - 1
  else -(digitCount ((den - 1) / num) : Int)

/-- `num / den` times `10 ^ power`, rounded to a natural number. -/
def shifted (num den : Nat) (power : Int) : Nat :=
  if 0 ≤ power then roundedQuotient (num * Nat.pow 10 power.toNat) den
  else roundedQuotient num (den * Nat.pow 10 (-power).toNat)

/-- A positive ratio rounded to `count` digits: the digits as one number, and the power of ten of
the first of them. -/
def significant (count num den : Nat) : Nat × Int :=
  let p := leadingPower num den
  let digits := shifted num den ((count : Int) - 1 - p)
  if digits = Nat.pow 10 count then (Nat.pow 10 (count - 1), p + 1) else (digits, p)

/-- The last `count` decimal digits of `n`. -/
def digitsOf : (count : Nat) → (n : Nat) → List Char
  | 0, _ => []
  | count + 1, n => digitsOf count (n / 10) ++ [Char.ofNat (48 + n % 10)]

@[simp] theorem length_digitsOf (count n : Nat) : (digitsOf count n).length = count := by
  induction count generalizing n with
  | zero => rfl
  | succ count ih => simp [digitsOf, ih]

end Separable.Decimal
