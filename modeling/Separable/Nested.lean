import Separable.Tensor

/-!
# Nested lists

A caller writes an array as nested lists. They make an array if they are nested evenly: all parts
of a list have the same extents. `Nested.extents` finds the extents that all parts agree on, and
whether the parts agree altogether; `Nested.tensor` is the array, or the fault that there is none.

The number of axes is limited. A nested list at a depth where only numbers can be is as uneven as
one beside a number, but is reported in its own way.
-/

namespace Separable

/-- A number, or a list of numbers and further lists. -/
inductive Nested (β : Type) where
  | entry (b : β)
  | row (items : List (Nested β))

/-- The extents that two lists of extents begin with in common. -/
def commonExtents : List Nat → List Nat → List Nat
  | m :: ms, n :: ns => if m = n then m :: commonExtents ms ns else []
  | _, _ => []

namespace Nested

variable {β : Type}

/-- The extents that all parts agree on, and whether all parts agree altogether. -/
def extents : (limit : Nat) → Nested β → List Nat × Bool
  | _, entry _ => ([], true)
  | 0, row _ => ([], false)
  | limit + 1, row items =>
    let (inner, even) := common limit items
    (items.length :: inner, even)
where
  /-- The same for the parts of a list. -/
  common (limit : Nat) : List (Nested β) → List Nat × Bool
    | [] => ([], true)
    | [item] => extents limit item
    | item :: rest =>
      let (shape, even) := extents limit item
      let (others, othersEven) := common limit rest
      (commonExtents shape others, even && othersEven && shape == others)

/-- The numbers from left to right. -/
def leaves : Nested β → List β
  | entry b => [b]
  | row items => all items
where
  /-- The same for the parts of a list. -/
  all : List (Nested β) → List β
    | [] => []
    | item :: rest => leaves item ++ all rest

/-- The array that nested lists make, with at most `limit` axes. -/
def tensor (limit : Nat) (v : Nested β) : Except Fault (Tensor β) :=
  match v.extents limit with
  | (shape, true) => .ok ⟨shape, v.leaves, .double⟩
  | (shape, false) =>
    .error (if shape.length = limit then .tooManyAxes limit else .unevenParts shape)

/-- No array has more axes than this. -/
def axisLimit : Nat := 64

/-- The array that nested lists make. -/
def toTensor (v : Nested β) : Except Fault (Tensor β) := v.tensor axisLimit

/-- The nested lists of these extents. -/
def ofEntries : (shape : List Nat) → List β → Nested β
  | [], b :: _ => entry b
  | [], [] => row []
  | n :: shape, xs =>
    let size := shape.foldl (· * ·) 1
    row ((List.range n).map fun i => ofEntries shape ((xs.drop (i * size)).take size))

/-- An array as nested lists. -/
def ofTensor (t : Tensor β) : Nested β := ofEntries t.shape t.entries

end Nested

end Separable
