import Separable.Decimal.Digits

/-!
# Numbers in decimal notation

Two notations for a double-precision number. The *scientific* one has one digit before the point,
a fixed number of places after it, and a power of ten of at least two digits. The *general* one
rounds to a fixed number of digits, writes them positionally unless the number is too large or too
small for that, and drops zeros at the end of the fraction.

A `Style` says what goes around the digits: whether a positive number carries a sign, how wide the
text is at least, and on which side it is padded with blanks. Infinities and non-numbers are the
words `inf` and `nan` in either notation.
-/

namespace Separable.Decimal

/-- A double-precision number, taken apart. -/
inductive Reading where
  | notANumber
  | infinite (negative : Bool)
  /-- The number is `significand * 2 ^ exponent`, with a sign. -/
  | finite (negative : Bool) (magnitude : Binary)
  deriving Repr

/-- Takes a number apart. -/
def Reading.ofFloat (x : Float) : Reading :=
  let bits := x.toBits.toNat
  let negative := bits >>> 63 = 1
  let field : Nat := (bits >>> 52) % (1 <<< 11)
  let fraction : Nat := bits % (1 <<< 52)
  if field = 2047 then (if fraction = 0 then .infinite negative else .notANumber)
  else if field = 0 then .finite negative ⟨fraction, -1074⟩
  else .finite negative ⟨(1 <<< 52) + fraction, (field : Int) - 1075⟩

/-- What goes around the digits of a number. -/
structure Style where
  /-- Whether a number that is not negative carries a plus sign. -/
  plus : Bool
  /-- The least number of characters. -/
  width : Nat
  /-- Whether blanks are added after the number and not before it. -/
  leftAligned : Bool

/-- Digits alone. -/
def Style.plain : Style := ⟨false, 0, false⟩

/-- Digits at the right end of `width` characters. -/
def Style.rightIn (width : Nat) : Style := ⟨false, width, false⟩

/-- Digits at the left end of `width` characters. -/
def Style.leftIn (width : Nat) : Style := ⟨false, width, true⟩

/-- Digits after a sign. -/
def Style.signed : Style := ⟨true, 0, false⟩

/-- The text of a number with sign and blanks. -/
def Style.dress (style : Style) (negative : Bool) (digits : List Char) : String :=
  let signed := if negative then '-' :: digits else if style.plus then '+' :: digits else digits
  let blanks := List.replicate (style.width - signed.length) ' '
  String.ofList (if style.leftAligned then signed ++ blanks else blanks ++ signed)

/-- The digits with a point after the first. -/
def pointed : List Char → List Char
  | [] => []
  | [d] => [d]
  | d :: rest => d :: '.' :: rest

/-- A power of ten, with its sign and at least two digits. -/
def powerText (p : Int) : List Char :=
  let n := p.natAbs
  'e' :: (if p < 0 then '-' else '+') :: digitsOf (max 2 (digitCount n)) n

/-- The digits of a magnitude in scientific notation. -/
def scientificDigits (places : Nat) (magnitude : Binary) : List Char :=
  let (digits, p) :=
    if magnitude.significand = 0 then (0, 0)
    else significant (places + 1) magnitude.numerator magnitude.denominator
  pointed (digitsOf (places + 1) digits) ++ powerText p

/-- Scientific notation with `places` digits after the point. -/
def scientific (style : Style) (places : Nat) (x : Float) : String :=
  match Reading.ofFloat x with
  | .notANumber => style.dress false ['n', 'a', 'n']
  | .infinite negative => style.dress negative ['i', 'n', 'f']
  | .finite negative magnitude => style.dress negative (scientificDigits places magnitude)

/-- The digits without the zeros at their end. -/
def withoutTrailingZeros (digits : List Char) : List Char :=
  (digits.reverse.dropWhile (· = '0')).reverse

/-- The digits of a magnitude in general notation. -/
def generalDigits (count : Nat) (magnitude : Binary) : List Char :=
  if magnitude.significand = 0 then ['0']
  else
    let (value, p) := significant count magnitude.numerator magnitude.denominator
    let digits := digitsOf count value
    if p < -4 || (count : Int) ≤ p then
      pointed (digits.take 1 ++ withoutTrailingZeros (digits.drop 1)) ++ powerText p
    else if p < 0 then
      '0' :: '.' :: List.replicate (p.natAbs - 1) '0' ++ withoutTrailingZeros digits
    else
      let before := p.toNat + 1
      match withoutTrailingZeros (digits.drop before) with
      | [] => digits.take before
      | places => digits.take before ++ '.' :: places

/-- General notation with at most `count` digits. -/
def general (style : Style) (count : Nat) (x : Float) : String :=
  match Reading.ofFloat x with
  | .notANumber => style.dress false ['n', 'a', 'n']
  | .infinite negative => style.dress negative ['i', 'n', 'f']
  | .finite negative magnitude => style.dress negative (generalDigits count magnitude)

end Separable.Decimal
