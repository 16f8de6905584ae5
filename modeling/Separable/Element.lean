import Separable.Scalar

/-!
# Array elements

An array keeps its entries in elements of one kind, and what an element keeps of a number that is
written into it depends on the kind: a floating-point element keeps the nearest number of its
format, an integer element the number without its fraction, and an element for truth values whether
the number is zero.

The library itself registers arrays of floating-point elements only, into which a write never fails
(`round`). A caller can write into any element (`enter`), and then an integer element refuses a
number whose integer part is out of its range. A gradient buffer that the caller hands in can be of
any kind, too, and the sums that make up a gradient are not written into one that would keep their
integer part only (`refusingSums?`).

## Main results

* `enter_double`: a double-precision element keeps a scalar as it is.
* `enterInteger_of_mem`: an integer element keeps an integer in its range as it is.
-/

namespace Separable

/-- The kinds of array elements. -/
inductive ElementKind where
  | double
  | narrow (format : FloatFormat)
  /-- A format wider than double precision, of which no more than double precision is used. -/
  | extended
  | integer (isSigned : Bool) (width : Nat)
  | truth
  /-- Pairs of floating-point numbers, of double precision if there is no format. -/
  | complex (format : Option FloatFormat)
  /-- Anything else that is not a floating-point number. -/
  | other (name : String)
  deriving DecidableEq, Repr

namespace ElementKind

/-- The name of an integer kind. -/
def integerName (isSigned : Bool) (width : Nat) : String :=
  (if isSigned then "int" else "uint") ++ toString width

/-- The name of a kind that is not floating-point. -/
def otherThanFloating? : ElementKind → Option String
  | double | narrow _ | extended => none
  | integer isSigned width => some (integerName isSigned width)
  | truth => some "bool"
  | complex none => some "complex128"
  | complex (some _) => some "complex64"
  | other name => some name

/-- The name of a kind into which no sum of double precision is written: one that would lose more of
it than precision. -/
def refusingSums? : ElementKind → Option String
  | double | narrow _ | extended | complex _ => none
  | integer isSigned width => some (integerName isSigned width)
  | truth => some "bool"
  | other name => if name = "object" ∨ name = "complex256" then none else some name

/-- The integers that an integer kind holds: from the first on, and below the second. -/
def bounds (isSigned : Bool) (width : Nat) : Int × Int :=
  if isSigned then (-(1 <<< (width - 1) : Nat), (1 <<< (width - 1) : Nat))
  else (0, (1 <<< width : Nat))

/-- The integers that can be handed to an integer kind at all: the signed integers of 64 bits, and
for the wider unsigned kinds the unsigned ones, too. -/
def widest (isSigned : Bool) (width : Nat) : Int × Int :=
  (-(1 <<< 63 : Nat), if isSigned || width < 32 then (1 <<< 63 : Nat) else (1 <<< 64 : Nat))

/-- The integer that an integer element keeps: one in range. -/
def enterInteger (isSigned : Bool) (width : Nat) (n : Int) : Except Fault Int :=
  let (least, bound) := bounds isSigned width
  if least ≤ n ∧ n < bound then .ok n
  else
    let (least, bound) := widest isSigned width
    .error (if least ≤ n ∧ n < bound then .integerOutOfBounds n (integerName isSigned width)
      else .integerTooWide)

variable {α : Type} [Scalar α]

/-- What an element keeps of a scalar that the library writes. -/
def round : ElementKind → α → α
  | narrow format, a => Scalar.nearest format a
  | complex (some format), a => Scalar.nearest format a
  | _, a => a

/-- What an element keeps of a scalar that a caller writes. -/
def enter (kind : ElementKind) (a : α) : Except Fault α :=
  match kind with
  | integer isSigned width =>
    ((Scalar.integerPart a).bind (enterInteger isSigned width)).bind Scalar.ofInteger
  | truth => .ok (if Scalar.eq a 0 then 0 else 1)
  | kind => .ok (kind.round a)

@[simp] theorem round_double (a : α) : double.round a = a := rfl

@[simp] theorem map_round_double (xs : List α) : xs.map double.round = xs := List.map_id xs

theorem enter_double (a : α) : double.enter a = .ok a := rfl

theorem enterInteger_of_mem {isSigned : Bool} {width : Nat} {n : Int}
    (h : (bounds isSigned width).1 ≤ n ∧ n < (bounds isSigned width).2) :
    enterInteger isSigned width n = .ok n := by
  simp [enterInteger, h]

end ElementKind

/-- The elements that keep some scalars, up to the first that is refused, and the fault of that
one. -/
def enteredUpToFault {α : Type} [Scalar α] (kind : ElementKind) :
    List α → List α × Option Fault
  | [] => ([], none)
  | a :: rest =>
    match kind.enter a with
    | .error fault => ([], some fault)
    | .ok a =>
      let (more, fault) := enteredUpToFault kind rest
      (a :: more, fault)

end Separable
