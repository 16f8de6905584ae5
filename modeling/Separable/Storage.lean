import Separable.Buffer
import Separable.Element

/-!
# Caller-owned storage

The values of variables live in arrays that belong to the caller. A `Storage` names such an array:
its identity, what it looks like, and the place of its entries in memory. Memory is cut into
regions, and the place of an array is a whole region or a stretch of it, which begins somewhere and
may leave out as many cells after each one that it takes, from the first to the last or the other
way round. So two storages with different identities may have all their entries in common, or some,
or none, and a write through one is seen through the other where they meet.

Cells hold elements of the array's kind. An element of a format wider than double precision is kept
in two parts: the nearest double-precision number, and what is left over. A write rounds every value
to the kind of the array and leaves nothing over, and a read has the first part of every element.

## Main results

* `nodup_positions`, `lt_of_mem_positions`: the cells of a place are different and in the region.
* `elements_write_same`, `read_write_same`: reading back what was written, rounded.
* `elements_write_of_apart`: a write leaves arrays alone that lie apart.
* `length_read_write`: arrays keep their lengths.
-/

namespace Separable

/-! ## Places -/

/-- Some cells of a region, all at the same distance from each other. -/
structure Stretch where
  /-- The position of the first cell in the region. -/
  first : Nat
  /-- The number of cells left out between two that are taken. -/
  gap : Nat
  /-- The number of cells taken. -/
  count : Nat
  /-- Whether the cells are taken from the last to the first. -/
  backward : Bool
  deriving DecidableEq, Repr

/-- The positions of the cells, in order. -/
def Stretch.cells (s : Stretch) : List Nat :=
  let forward := (List.range s.count).map fun i => s.first + i * (s.gap + 1)
  if s.backward then forward.reverse else forward

theorem Stretch.nodup_cells (s : Stretch) : s.cells.Nodup := by
  have hforward : ((List.range s.count).map fun i => s.first + i * (s.gap + 1)).Nodup := by
    refine List.pairwise_map.2 (List.nodup_range.imp fun {i j} hne heq => hne ?_)
    exact Nat.eq_of_mul_eq_mul_right (Nat.succ_pos s.gap) (Nat.add_left_cancel heq)
  unfold cells
  split
  · exact List.pairwise_reverse.2 (hforward.imp Ne.symm)
  · exact hforward

/-- Where the entries of an array are: a region, or a stretch of it. -/
structure Place where
  region : Nat
  stretch : Option Stretch
  deriving DecidableEq, Repr

namespace Place

/-- The whole of a region. -/
def whole (region : Nat) : Place := ⟨region, none⟩

/-- A number stands for the whole of the region that it numbers. -/
instance (n : Nat) : OfNat Place n := ⟨whole n⟩

/-- The positions of the cells in a region of this size. -/
def positions (p : Place) (size : Nat) : List Nat :=
  match p.stretch with
  | none => List.range size
  | some s => s.cells.filter (· < size)

theorem nodup_positions (p : Place) (size : Nat) : (p.positions size).Nodup := by
  unfold positions
  split
  · exact List.nodup_range
  · next s _ => exact s.nodup_cells.filter _

theorem lt_of_mem_positions {p : Place} {size i : Nat} (h : i ∈ p.positions size) : i < size := by
  unfold positions at h
  split at h
  · exact List.mem_range.1 h
  · simpa using (List.mem_filter.1 h).2

end Place

/-- A name for an array of the caller. -/
structure Storage where
  /-- The identity of the array. -/
  key : String
  /-- The place of its entries in memory. -/
  place : Place
  /-- Whether it is an array at all, and not another kind of sequence. -/
  isArray : Bool
  shape : List Nat
  kind : ElementKind
  deriving DecidableEq, Repr

/-- The length of a one-dimensional array. -/
def Storage.vectorLength? (s : Storage) : Option Nat :=
  match s.isArray, s.shape with
  | true, [n] => some n
  | _, _ => none

/-! ## Cells -/

/-- An element as it is kept. -/
structure Cell (α : Type) where
  /-- The nearest double-precision number. -/
  number : α
  /-- What an element of a wider format has beyond that number. -/
  excess : α
  deriving DecidableEq, Repr

/-- An element that is a double-precision number. -/
def Cell.of {α : Type} [Zero α] (a : α) : Cell α := ⟨a, 0⟩

instance {α : Type} [Zero α] (n : Nat) [OfNat α n] : OfNat (Cell α) n := ⟨.of (OfNat.ofNat n)⟩

instance {α : Type} [Zero α] [OfScientific α] : OfScientific (Cell α) :=
  ⟨fun mantissa isNegative exponent => .of (OfScientific.ofScientific mantissa isNegative exponent)⟩

/-- The elements of all arrays, by region. -/
structure Memory (α : Type) where
  regions : List (List (Cell α))
  deriving DecidableEq, Repr

namespace Memory

variable {α : Type}

/-- The cells of the region in which an array lies. -/
def region (m : Memory α) (s : Storage) : List (Cell α) := m.regions.getD s.place.region []

/-- The positions of the entries of an array in its region. -/
def positions (m : Memory α) (s : Storage) : List Nat := s.place.positions (m.region s).length

/-- The elements of an array. -/
def elements (m : Memory α) (s : Storage) : List (Cell α) := readAt (m.positions s) (m.region s)

/-- The entries of an array, as double-precision numbers. -/
def read (m : Memory α) (s : Storage) : List α := (m.elements s).map Cell.number

/-- Whether two arrays have no entry in common. -/
def Apart (m : Memory α) (s t : Storage) : Prop :=
  s.place.region = t.place.region → ∀ i ∈ m.positions s, i ∉ m.positions t

theorem Apart.symm {m : Memory α} {s t : Storage} (h : m.Apart s t) : m.Apart t s :=
  fun hregion i ht hs => h hregion.symm i hs ht

variable [Scalar α]

/-- Replaces the first entries of an array by elements of its kind. -/
def put (s : Storage) (elements : List α) (m : Memory α) : Memory α :=
  ⟨m.regions.modify s.place.region fun cells =>
    writeAt (s.place.positions cells.length) (elements.map Cell.of) cells⟩

/-- Adds a region with these elements. -/
def allocate (elements : List α) (m : Memory α) : Memory α :=
  ⟨m.regions ++ [elements.map Cell.of]⟩

/-- Writes all entries of an array. -/
def write (s : Storage) (xs : List α) (m : Memory α) : Memory α :=
  m.put s (xs.map s.kind.round)

/-! ## Reading back -/

omit [Scalar α] in
theorem lt_of_mem_positions (m : Memory α) (s : Storage) :
    ∀ i ∈ m.positions s, i < (m.region s).length :=
  fun _ h => Place.lt_of_mem_positions h

omit [Scalar α] in
theorem length_positions (m : Memory α) (s : Storage) :
    (m.positions s).length = (m.read s).length := by
  rw [read, List.length_map, elements, length_readAt (m.lt_of_mem_positions s)]

theorem region_put_same (m : Memory α) (s : Storage) (xs : List α) :
    (m.put s xs).region s = writeAt (m.positions s) (xs.map Cell.of) (m.region s) := by
  simp only [region, put, positions, List.getD_eq_getElem?_getD, List.getElem?_modify]
  cases hregion : m.regions[s.place.region]? with
  | none =>
    have hnone (positions : List Nat) (new : List (Cell α)) : writeAt positions new [] = [] :=
      List.length_eq_zero_iff.1 (length_writeAt positions new [])
    simp [hnone]
  | some cells => simp

theorem region_put_of_ne (m : Memory α) {s t : Storage} (xs : List α)
    (h : s.place.region ≠ t.place.region) : (m.put s xs).region t = m.region t := by
  simp [region, put, h]

theorem region_put_of_eq (m : Memory α) {s t : Storage} (xs : List α)
    (h : s.place.region = t.place.region) :
    (m.put s xs).region t = writeAt (m.positions s) (xs.map Cell.of) (m.region t) := by
  have hregion (m : Memory α) : m.region t = m.region s := by rw [region, region, h]
  rw [hregion, hregion, region_put_same]

/-- A write keeps the extents of all regions, and so the positions of the entries of all arrays. -/
theorem positions_put (m : Memory α) (s t : Storage) (xs : List α) :
    (m.put s xs).positions t = m.positions t := by
  by_cases h : s.place.region = t.place.region
  · rw [positions, region_put_of_eq m xs h, length_writeAt, positions]
  · rw [positions, region_put_of_ne m xs h, positions]

theorem apart_put_iff (m : Memory α) (s t u : Storage) (xs : List α) :
    (m.put u xs).Apart s t ↔ m.Apart s t := by
  rw [Apart, positions_put, positions_put, Apart]

theorem length_read_put (m : Memory α) (s t : Storage) (xs : List α) :
    ((m.put s xs).read t).length = (m.read t).length := by
  rw [← length_positions, positions_put, length_positions]

theorem elements_put_same (m : Memory α) (s : Storage) (xs : List α)
    (h : xs.length = (m.read s).length) : (m.put s xs).elements s = xs.map Cell.of := by
  have hlength : (xs.map (Cell.of (α := α))).length = (m.positions s).length := by
    rw [List.length_map, h, length_positions]
  rw [elements, positions_put, region_put_same]
  exact readAt_writeAt (Place.nodup_positions _ _) hlength (m.lt_of_mem_positions s)

theorem elements_put_of_apart (m : Memory α) {s t : Storage} (xs : List α) (h : m.Apart s t) :
    (m.put s xs).elements t = m.elements t := by
  rw [elements, positions_put, elements]
  by_cases hregion : s.place.region = t.place.region
  · rw [region_put_of_eq m xs hregion]
    exact readAt_writeAt_of_disjoint (fun i ht hs => h hregion i hs ht) _ _
  · rw [region_put_of_ne m xs hregion]

theorem elements_write_same (m : Memory α) (s : Storage) (xs : List α)
    (h : xs.length = (m.read s).length) :
    (m.write s xs).elements s = xs.map fun a => Cell.of (s.kind.round a) := by
  rw [write, elements_put_same m s _ (by rwa [List.length_map]), List.map_map]
  rfl

theorem read_write_same (m : Memory α) (s : Storage) (xs : List α)
    (h : xs.length = (m.read s).length) : (m.write s xs).read s = xs.map s.kind.round := by
  rw [read, elements_write_same m s xs h, List.map_map]
  rfl

theorem elements_write_of_apart (m : Memory α) {s t : Storage} (xs : List α) (h : m.Apart s t) :
    (m.write s xs).elements t = m.elements t :=
  elements_put_of_apart m _ h

theorem read_write_of_apart (m : Memory α) {s t : Storage} (xs : List α) (h : m.Apart s t) :
    (m.write s xs).read t = m.read t := by
  rw [read, elements_write_of_apart m xs h, read]

theorem apart_write_iff (m : Memory α) (s t u : Storage) (xs : List α) :
    (m.write u xs).Apart s t ↔ m.Apart s t :=
  apart_put_iff m s t u _

theorem length_read_write (m : Memory α) (s t : Storage) (xs : List α) :
    ((m.write s xs).read t).length = (m.read t).length :=
  length_read_put m s t _

end Memory

end Separable
