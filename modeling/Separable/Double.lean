import Separable.Binary

/-!
# Double-precision numbers, taken apart

A finite double-precision number is `significand * 2 ^ (scale - 1075)` with a sign, so questions
about its integer part and about the nearest number of a narrower format are questions about
integers, and are answered exactly. A `FloatFormat` is the multiples of one power of two with so
many digits.
-/

namespace Separable

/-- A binary floating-point format that is narrower than double precision. -/
structure FloatFormat where
  /-- The digits of a significand. -/
  digits : Nat
  /-- All numbers are multiples of two to the power of minus this. -/
  fraction : Nat
  /-- All numbers are below two to the power of this. -/
  range : Nat
  deriving DecidableEq, Repr

namespace FloatFormat

/-- Single precision. -/
def single : FloatFormat := ⟨24, 149, 128⟩

/-- Half precision. -/
def half : FloatFormat := ⟨11, 24, 16⟩

end FloatFormat

/-- The bits of a double-precision number. -/
structure DoubleBits where
  negative : Bool
  /-- The exponent field. -/
  exponent : Nat
  /-- The fraction field. -/
  fraction : Nat

namespace DoubleBits

/-- The fields of a number. -/
def of (x : Float) : DoubleBits :=
  let bits := x.toBits.toNat
  ⟨bits >>> 63 == 1, (bits >>> 52) % 2048, bits % (1 <<< 52)⟩

/-- Whether the number is finite. -/
def isFinite (b : DoubleBits) : Bool := b.exponent != 2047

/-- The number is `significand * 2 ^ (scale - 1075)` if it is finite. -/
def significand (b : DoubleBits) : Nat :=
  if b.exponent = 0 then b.fraction else b.fraction + 1 <<< 52

/-- The exponent that goes with the significand. -/
def scale (b : DoubleBits) : Nat := if b.exponent = 0 then 1 else b.exponent

/-- The number without its fraction. -/
def truncated (b : DoubleBits) : Int :=
  let magnitude : Nat :=
    if 1075 ≤ b.scale then b.significand <<< (b.scale - 1075)
    else b.significand >>> (1075 - b.scale)
  if b.negative then -(magnitude : Int) else magnitude

/-- The nearest number of a format, as a multiple of its smallest positive number; of two, the one
with the even significand. -/
def nearest (b : DoubleBits) (f : FloatFormat) : Nat :=
  let step := b.scale + f.fraction - (1022 + f.digits)
  roundedQuotient b.significand (1 <<< (1075 + step - (b.scale + f.fraction))) <<< step

end DoubleBits

/-- Two to the power of minus `n`. -/
def binaryFraction (n : Nat) : Float := Float.ofBits (UInt64.ofNat ((1023 - n) <<< 52))

/-- A number with this sign and this magnitude. -/
def withSign (negative : Bool) (magnitude : Float) : Float :=
  if negative then -magnitude else magnitude

/-- The nearest number of a narrower format. Numbers beyond its range become infinite. -/
def FloatFormat.nearest (f : FloatFormat) (x : Float) : Float :=
  let b := DoubleBits.of x
  if b.isFinite then
    let n := b.nearest f
    withSign b.negative <|
      if 1 <<< (f.range + f.fraction) ≤ n then 1.0 / 0.0
      else Float.ofNat n * binaryFraction f.fraction
  else x

/-- A number without its fraction, if it is finite. -/
def truncatedDouble? (x : Float) : Option Int :=
  let b := DoubleBits.of x
  if b.isFinite then some b.truncated else none

/-- The double-precision number that is nearest to an integer, if it is finite. -/
def nearestDouble? (n : Int) : Option Float :=
  let x := withSign (n < 0) (Float.ofScientific n.natAbs false 0)
  if x.isFinite then some x else none

end Separable
