import Separable.Element

/-!
# Arrays with any number of axes

Most of the library works with vectors. Where a caller hands one in, what arrives may have more or
fewer axes, and a message then says which. A `Tensor` is such an array: its extents, its entries in
row-major order, and the kind of its elements. Computations with the entries are made in that kind
until the array is converted to double precision (`converted`), which keeps the entries.

An array can be spread over a larger shape: its axes are aligned with the last axes of the shape,
and along an axis of extent one, or a missing axis, its entries are repeated. Further axes of
extent one in front do no harm, because they can be taken away (`stripped`).

## Main results

* `spread_shape`: an array fills its own shape with its entries as they are.
* `shape_ofVector`: a vector has one axis.
-/

namespace Separable

/-- An array with any number of axes. -/
structure Tensor (α : Type) where
  shape : List Nat
  entries : List α
  kind : ElementKind
  deriving Repr

namespace Tensor

variable {α : Type}

/-- A vector of double precision as an array of one axis. -/
def ofVector (xs : List α) : Tensor α := ⟨[xs.length], xs, .double⟩

/-- The array in double precision. -/
def converted (t : Tensor α) : Tensor α := { t with kind := .double }

/-- Whether extents are those wanted, or one. -/
def fits : List Nat → List Nat → Bool
  | [], [] => true
  | m :: ms, n :: ns => (m = n ∨ m = 1) && fits ms ns
  | _, _ => false

/-- The entries of an array of the extents `own`, repeated along axes of extent one. -/
def repeated : (own wanted : List Nat) → List α → List α
  | m :: ms, n :: ns, xs =>
    if m = n then
      let size := ms.foldl (· * ·) 1
      (List.range n).flatMap fun i => repeated ms ns ((xs.drop (i * size)).take size)
    else (List.replicate n (repeated ms ns xs)).flatten
  | _, _, xs => xs

/-- Extents without axes of extent one in front, as long as there are more than `rank` axes. -/
def strippedShape (rank : Nat) : List Nat → List Nat
  | 1 :: shape => if rank ≤ shape.length then strippedShape rank shape else 1 :: shape
  | shape => shape

/-- An array without axes of extent one in front, as long as it has more than `rank` axes. -/
def stripped (rank : Nat) (t : Tensor α) : Tensor α :=
  { t with shape := strippedShape rank t.shape }

/-- The entries of an array spread over a shape, if it fits. -/
def spread (shape : List Nat) (t : Tensor α) : Except Fault (List α) :=
  if t.shape = shape then .ok t.entries
  else
    let t := t.stripped shape.length
    let own := List.replicate (shape.length - t.shape.length) 1 ++ t.shape
    if fits own shape then .ok (repeated own shape t.entries)
    else .error (.shapeMismatch t.shape shape)

/-- The `count` parts of an array from position `start` of its first axis on. -/
def slice (start count : Nat) (t : Tensor α) : Tensor α :=
  match t.shape with
  | [] => t
  | n :: shape =>
    let size := shape.foldl (· * ·) 1
    { t with
      shape := min count (n - start) :: shape
      entries := (t.entries.drop (start * size)).take (count * size) }

theorem spread_shape (t : Tensor α) : t.spread t.shape = .ok t.entries := by simp [spread]

@[simp] theorem shape_ofVector (xs : List α) : (ofVector xs).shape = [xs.length] := rfl

@[simp] theorem entries_ofVector (xs : List α) : (ofVector xs).entries = xs := rfl

@[simp] theorem shape_converted (t : Tensor α) : t.converted.shape = t.shape := rfl

@[simp] theorem entries_converted (t : Tensor α) : t.converted.entries = t.entries := rfl

@[simp] theorem converted_ofVector (xs : List α) : (ofVector xs).converted = ofVector xs := rfl

end Tensor

end Separable
