/-!
# Binary fractions of limited precision

A positive double-precision number is `significand * 2 ^ exponent` with fewer than 54 binary digits
in its significand, and every operation on such numbers rounds the exact result to the nearest one,
a tie going to the even significand. `Binary` does this over exact integers: `roundedQuotient` is
the rounding, `Binary.ofRatio` rounds a ratio of two natural numbers, and `Binary.floor` drops the
fraction. The range of exponents is not limited, so nothing overflows or loses digits near zero.

## Main results

* `roundedQuotient_mul`: a quotient that comes out even is exact.
* `le_roundedQuotient` and `roundedQuotient_le`: rounding moves to one of the two neighbours.
-/

namespace Separable

/-- The natural number nearest to `num / den`; of two, the even one. -/
def roundedQuotient (num den : Nat) : Nat :=
  let q := num / den
  let twice := 2 * (num % den)
  if twice < den then q
  else if den < twice then q + 1
  else if q % 2 = 0 then q
  else q + 1

theorem le_roundedQuotient (num den : Nat) : num / den ≤ roundedQuotient num den := by
  simp only [roundedQuotient]
  split
  · exact Nat.le_refl _
  · split
    · exact Nat.le_succ _
    · split <;> omega

theorem roundedQuotient_le (num den : Nat) : roundedQuotient num den ≤ num / den + 1 := by
  simp only [roundedQuotient]
  split
  · exact Nat.le_succ _
  · split
    · exact Nat.le_refl _
    · split <;> omega

theorem roundedQuotient_mul (q : Nat) {den : Nat} (h : 0 < den) :
    roundedQuotient (q * den) den = q := by
  simp [roundedQuotient, Nat.mul_div_cancel q h, h]

/-- The number `significand * 2 ^ exponent`. -/
structure Binary where
  significand : Nat
  exponent : Int
  deriving DecidableEq, Repr

namespace Binary

/-- The digits of a significand. -/
def precision : Nat := 53

/-- The exponent `e` with `2 ^ e ≤ num / den < 2 ^ (e + 1)`. -/
def scale (num den : Nat) : Int :=
  let e : Int := (Nat.log2 num : Int) - Nat.log2 den
  let reaches : Bool :=
    if 0 ≤ e then den <<< e.toNat ≤ num else den ≤ num <<< (-e).toNat
  if reaches then e else e - 1

/-- The ratio `num / den`, rounded. -/
def ofRatio (num den : Nat) : Binary :=
  if num = 0 then ⟨0, 0⟩
  else
    let e := scale num den - (precision - 1 : Nat)
    if 0 ≤ e then ⟨roundedQuotient num (den <<< e.toNat), e⟩
    else ⟨roundedQuotient (num <<< (-e).toNat) den, e⟩

/-- The numerator of the number over `denominator`. -/
def numerator (b : Binary) : Nat := b.significand <<< b.exponent.toNat

/-- A power of two over which the number is a ratio. -/
def denominator (b : Binary) : Nat := 1 <<< (-b.exponent).toNat

/-- `n` times the number, rounded. -/
def scaled (n : Nat) (b : Binary) : Binary := ofRatio (n * b.numerator) b.denominator

/-- The largest natural number that is at most the number. -/
def floor (b : Binary) : Nat := b.numerator / b.denominator

end Binary

end Separable
