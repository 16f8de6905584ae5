import Separable.Proofs.Pattern
import Separable.Proofs.Staleness

/-!
# Where a triplet comes from

A sparse Hessian is assembled from two lists that are made at different times and in different
ways. The coordinates are laid down with the pool, from the variables of the terms alone; the values
are gathered after an evaluation, from the blocks that the terms have filled. Nothing ties an entry
of one list to an entry of the other but the position in which both come.

A `Site` names an entry of a block by its term, its two arguments, its row and its column. Each of
the two traversals has its own list of the sites that it visits: `stored` follows the blocks as they
are, `laid` follows the variables. That these lists are equal says that both traversals are in step,
for any number of arguments, repeated ones, and variables without entries. No site is visited twice
and none is left out, so the position of an entry determines its site and is determined by it.

## Main results

* `Site.forall₂_visits`: a traversal of some grids yields the entry at each site that it visits.
* `Site.nodup_visits`, `Site.mem_visits`: it visits every site once.
* `Site.stored_eq_laid`: both traversals visit the same sites in the same order.
* `Graph.gathered_in_step`: values and coordinates of the graph that an evaluation leaves.
-/

namespace Separable

variable {α β γ : Type}

/-! ## Numbered concatenation -/

/-- What `f` makes of every entry and its position, one after another. -/
def numbered (f : Nat → β → List γ) (l : List β) : List γ := (l.mapIdx f).flatten

section Numbered

variable {f : Nat → β → List γ} {l : List β}

theorem mem_numbered {x : γ} : x ∈ numbered f l ↔ ∃ i a, l[i]? = some a ∧ x ∈ f i a := by
  constructor
  · intro hx
    obtain ⟨part, hpart, hx⟩ := List.mem_flatten.1 hx
    obtain ⟨i, hi, rfl⟩ := List.mem_mapIdx.1 hpart
    exact ⟨i, l[i], List.getElem?_eq_getElem hi, hx⟩
  · rintro ⟨i, a, hi, hx⟩
    obtain ⟨hlt, rfl⟩ := List.getElem?_eq_some_iff.1 hi
    exact List.mem_flatten.2 ⟨_, List.mem_mapIdx.2 ⟨i, hlt, rfl⟩, hx⟩

/-- If the position can be told from each part, then no two parts share an entry. -/
theorem nodup_numbered (key : γ → Nat) (hkey : ∀ i a, ∀ x ∈ f i a, key x = i)
    (hparts : ∀ i a, (f i a).Nodup) : (numbered f l).Nodup := by
  refine List.nodup_flatten.2 ⟨fun part hpart => ?_, List.pairwise_iff_getElem.2 ?_⟩
  · obtain ⟨i, hi, rfl⟩ := List.mem_mapIdx.1 hpart
    exact hparts i _
  · intro i j hi hj hij
    rw [List.getElem_mapIdx, List.getElem_mapIdx]
    intro x hx hy
    have hsame : i = j := (hkey i _ x hx).symm.trans (hkey j _ x hy)
    omega

theorem numbered_cons (a : β) : numbered f (a :: l) = f 0 a ++ numbered (fun i => f (i + 1)) l := by
  rw [numbered, List.mapIdx_cons, List.flatten_cons]
  rfl

theorem numbered_map {δ : Type} (g : δ → β) (l : List δ) :
    numbered f (l.map g) = numbered (fun i a => f i (g a)) l := by
  induction l generalizing f with
  | nil => rfl
  | cons a rest ih => rw [List.map_cons, numbered_cons, numbered_cons, ih]

theorem numbered_singleton (x : Nat → γ) (l : List β) :
    numbered (fun i _ => [x i]) l = (List.range l.length).map x := by
  induction l generalizing x with
  | nil => rfl
  | cons a rest ih =>
      rw [numbered_cons, ih, List.length_cons, List.range_succ_eq_map, List.map_cons, List.map_map]
      rfl

/-- The parts are related to what an unnumbered concatenation has for the same entries. -/
theorem forall₂_numbered {δ : Type} {R : γ → δ → Prop} {g : β → List δ}
    (h : ∀ i a, l[i]? = some a → List.Forall₂ R (f i a) (g a)) :
    List.Forall₂ R (numbered f l) (l.flatMap g) := by
  induction l generalizing f with
  | nil => exact .nil
  | cons a rest ih =>
      rw [numbered_cons, List.flatMap_cons]
      exact List.rel_append (h 0 a rfl) (ih fun i b hb => h (i + 1) b hb)

end Numbered

theorem exists_getElem?_of_forall₂ {R : β → γ → Prop} {l : List β} {m : List γ}
    (h : List.Forall₂ R l m) {k : Nat} {a : β} (ha : l[k]? = some a) :
    ∃ b, m[k]? = some b ∧ R a b := by
  induction h generalizing k with
  | nil => cases ha
  | @cons c d _ _ hhead _ ih =>
      cases k with
      | zero => exact ⟨d, rfl, Option.some.inj ha ▸ hhead⟩
      | succ k => exact ih ha

/-! ## Grids of places -/

namespace Bound

/-- The places of all blocks, arranged as the blocks are. -/
def placeGrid (b : Bound α) : Grid (Nat × Nat) :=
  b.vars.map fun v => b.vars.map fun w => (List.range v.userDimension).map fun r =>
    (List.range w.userDimension).map fun c => (v.offset + r, w.offset + c)

theorem listed_placeGrid (b : Bound α) :
    b.placeGrid.flatMap (fun blocks => blocks.flatMap List.flatten) = b.places := by
  simp only [placeGrid, List.flatMap_map]
  rfl

theorem gridLengths_placeGrid [Backend α] (b : Bound α) :
    gridLengths b.placeGrid = gridLengths (zeroBlocks b.vars) := by
  simp [gridLengths, placeGrid, zeroBlocks, rowLengths, filled, Function.comp_def]

end Bound

/-! ## Sites -/

/-- A place in the blocks of some terms. -/
structure Site where
  term : Nat
  /-- The argument that gives the rows of the block. -/
  first : Nat
  /-- The argument that gives the columns of the block. -/
  second : Nat
  row : Nat
  column : Nat
  deriving DecidableEq, Repr

namespace Site

/-- What the grids of some terms hold at a site. -/
def content? (grids : List (Grid β)) (s : Site) : Option β :=
  grids[s.term]?.bind fun grid => grid[s.first]?.bind fun blocks =>
    blocks[s.second]?.bind fun block => block[s.row]?.bind fun cells => cells[s.column]?

/-- The sites of the entries of some grids, grid by grid, block by block and row by row. -/
def visits (grids : List (Grid β)) : List Site :=
  numbered (fun t grid => numbered (fun i blocks => numbered (fun j block =>
    numbered (fun r cells => numbered (fun c _ => [⟨t, i, j, r, c⟩]) cells) block) blocks) grid)
    grids

/-- The entries of some grids, in the same order. -/
def listed (grids : List (Grid β)) : List β :=
  grids.flatMap fun grid => grid.flatMap fun blocks => blocks.flatMap List.flatten

theorem mem_visits {grids : List (Grid β)} {s : Site} :
    s ∈ visits grids ↔ ∃ a, s.content? grids = some a := by
  simp only [visits, mem_numbered, List.mem_singleton, content?, Option.bind_eq_some_iff]
  constructor
  · rintro ⟨t, grid, hgrid, i, blocks, hblocks, j, block, hblock, r, cells, hcells, c, a, ha, rfl⟩
    exact ⟨a, grid, hgrid, blocks, hblocks, block, hblock, cells, hcells, ha⟩
  · rintro ⟨a, grid, hgrid, blocks, hblocks, block, hblock, cells, hcells, ha⟩
    exact ⟨_, grid, hgrid, _, blocks, hblocks, _, block, hblock, _, cells, hcells, _, a, ha, rfl⟩

theorem nodup_visits (grids : List (Grid β)) : (visits grids).Nodup := by
  refine nodup_numbered term ?_ fun t grid => nodup_numbered first ?_ fun i blocks =>
    nodup_numbered second ?_ fun j block => nodup_numbered row ?_ fun r cells =>
      nodup_numbered column ?_ fun c _ => List.nodup_singleton _
  -- At every level the part of position `k` has sites with `k` in the field of that level.
  all_goals
    intro k a s hs
    simp only [mem_numbered, List.mem_singleton] at hs
    grind

/-- A traversal of some grids yields the entry at each site that it visits. -/
theorem forall₂_visits (grids : List (Grid β)) :
    List.Forall₂ (fun s a => s.content? grids = some a) (visits grids) (listed grids) := by
  refine forall₂_numbered fun t grid hgrid => forall₂_numbered fun i blocks hblocks =>
    forall₂_numbered fun j block hblock => ?_
  rw [← List.flatMap_id]
  refine forall₂_numbered fun r cells hcells => ?_
  have hentries : List.Forall₂ (fun s a => content? grids s = some a)
      (numbered (fun c _ => [Site.mk t i j r c]) cells) (cells.flatMap fun a => [a]) := by
    refine forall₂_numbered fun c a ha => .cons ?_ .nil
    simp only [content?, hgrid, hblocks, hblock, hcells, ha, Option.bind_some]
  rwa [List.flatMap_singleton'] at hentries

/-- Which sites are visited depends on the extents alone. -/
theorem visits_congr {grids : List (Grid β)} {others : List (Grid γ)}
    (h : grids.map gridLengths = others.map gridLengths) : visits grids = visits others := by
  have hvisits {δ : Type} (grids : List (Grid δ)) : visits grids =
      numbered (fun t grid => numbered (fun i blocks => numbered (fun j block =>
        numbered (fun r length => (List.range length).map fun c => ⟨t, i, j, r, c⟩) block)
          blocks) grid) (grids.map gridLengths) := by
    simp only [visits, numbered_singleton, gridLengths, rowLengths, numbered_map]
  rw [hvisits, hvisits, h]

/-! ## The two traversals -/

section Traversals

variable (terms : List (Bound α))

/-- The sites that are visited when the values are gathered: those of the blocks as they are. -/
def stored : List Site := visits (terms.map (·.blocks))

/-- The sites that are visited when the coordinates are laid down: those of the blocks that the
variables of the terms ask for. -/
def laid : List Site := visits (terms.map (·.placeGrid))

/-- The entry of the stored blocks at a site. -/
def value? (s : Site) : Option α := s.content? (terms.map (·.blocks))

/-- The place of a site in the matrix, by the variables of its two arguments. -/
def place? (s : Site) : Option (Nat × Nat) :=
  terms[s.term]?.bind fun b => b.vars[s.first]?.bind fun v => b.vars[s.second]?.bind fun w =>
    if s.row < v.userDimension ∧ s.column < w.userDimension then
      some (v.offset + s.row, w.offset + s.column)
    else none

theorem getElem?_map_range (f : Nat → β) (n k : Nat) :
    ((List.range n).map f)[k]? = if k < n then some (f k) else none := by
  rw [List.getElem?_map]
  split
  · next hk => rw [List.getElem?_range hk, Option.map_some]
  · next hk => rw [List.getElem?_eq_none (by simpa using hk), Option.map_none]

/-- The place of a site is what the grid of places holds there. -/
theorem content?_placeGrid (s : Site) : s.content? (terms.map (·.placeGrid)) = s.place? terms := by
  simp only [content?, place?, Bound.placeGrid, List.getElem?_map]
  rcases terms[s.term]? with _ | b
  · rfl
  simp only [Option.map_some, Option.bind_some, List.getElem?_map]
  rcases b.vars[s.first]? with _ | v
  · rfl
  simp only [Option.map_some, Option.bind_some, List.getElem?_map]
  rcases b.vars[s.second]? with _ | w
  · rfl
  simp only [Option.map_some, Option.bind_some, getElem?_map_range]
  by_cases hrow : s.row < v.userDimension
  · simp only [hrow, if_true, true_and, Option.bind_some, getElem?_map_range]
  · simp only [hrow, if_false, false_and, Option.bind_none]

theorem forall₂_stored :
    List.Forall₂ (fun s a => s.value? terms = some a) (stored terms)
      (terms.flatMap Bound.entries) := by
  have hvisits := forall₂_visits (terms.map (·.blocks))
  rwa [listed, List.flatMap_map] at hvisits

theorem forall₂_laid :
    List.Forall₂ (fun s place => s.place? terms = some place) (laid terms)
      (terms.flatMap Bound.places) := by
  have hvisits := forall₂_visits (terms.map (·.placeGrid))
  simp only [listed, List.flatMap_map, Bound.listed_placeGrid, content?_placeGrid] at hvisits
  exact hvisits

theorem mem_laid {s : Site} : s ∈ laid terms ↔ ∃ place, s.place? terms = some place := by
  simp only [laid, mem_visits, content?_placeGrid]

variable {terms} in
/-- Where all blocks have the extents that the variables ask for, both traversals visit the same
sites in the same order. -/
theorem stored_eq_laid [Backend α] (h : ∀ b ∈ terms, b.Filled) : stored terms = laid terms := by
  refine visits_congr ?_
  rw [List.map_map, List.map_map]
  exact List.map_congr_left fun b hb => (h b hb).trans b.gridLengths_placeGrid.symm

end Traversals

end Site

/-! ## A graph -/

namespace Graph

variable [Backend α] {known : Nat} {g : Graph α}

/-- The variables that are known by now come before all others, so their slices end below. -/
theorem Informed.scalars_first_le (hg : Informed known g) :
    (g.registry.first known).scalars ≤ g.scalars := by
  have hall : g.scalars = (g.registry.vars.map (·.solverDimension)).sum := by
    have hscalars := congrArg Registry.scalars hg.registry.first_all
    rw [Registry.first, ← Registry.length_vars, List.take_length] at hscalars
    exact hscalars.symm
  rw [hall]
  exact ((List.take_sublist known g.registry.vars).map _).sum_le_sum fun _ _ => Nat.zero_le _

/-- Once the blocks of a graph are filled, the values are gathered in step with the coordinates of
the pool: there are as many, and the same sites are visited in the same order, every site once. The
value at a position is the entry of the block at its site, and the coordinates there are the place
of the site in the matrix. If no term is bound to a reparameterized variable, then all places lie
inside, whatever the other variables are. -/
theorem gathered_in_step (hg : g.Shared known) (henabled : g.hessianEnabled = true) :
    ∃ (places : Coordinates) (values : List α), g.current.coordinates = some places ∧
      Bound.gather g.terms places.size = .ok values ∧
      values.length = places.size ∧ places.columns.length = places.size ∧
      (∀ (k : Nat) (s : Site),
        (Site.stored g.terms)[k]? = some s ↔ (Site.laid g.terms)[k]? = some s) ∧
      List.Forall₂ (fun s a => s.value? g.terms = some a) (Site.stored g.terms) values ∧
      List.Forall₂ (fun s place => s.place? g.terms = some place) (Site.laid g.terms)
        (CompressedRows.hits places) ∧
      (Site.laid g.terms).Nodup ∧
      (∀ s, s ∈ Site.laid g.terms ↔ ∃ place, s.place? g.terms = some place) ∧
      ((∀ b ∈ g.terms, ∀ v ∈ b.vars, v.reparam = none) → g.current.supportsHessian = true ∧
        ∃ n ≤ g.scalars, places.shape = (n, n) ∧
          ∀ place ∈ CompressedRows.hits places, place.1 < n ∧ place.2 < n) := by
  have hinformed := hg.informed
  have hserves := hinformed.serves_current
  have hblocks : ∀ b ∈ g.terms, b.Filled := by
    intro b hb
    have hblocks := (hinformed.terms b hb).blocks
    rwa [henabled, if_pos rfl] at hblocks
  have hcoordinates : g.current.coordinates =
      some (Bound.coordinates g.terms (g.registry.first known).scalars) := by
    rw [hserves.coordinates]
    exact if_pos henabled
  obtain ⟨hgather, hsize⟩ := Bound.gather_ok (g.registry.first known).scalars hblocks
  refine ⟨_, _, hcoordinates, hgather, hsize, Bound.length_columns_coordinates _ _,
    fun k s => by rw [Site.stored_eq_laid hblocks], Site.forall₂_stored g.terms, ?_,
    Site.nodup_visits _, fun s => Site.mem_laid g.terms, fun hplain => ⟨?_, ?_⟩⟩
  · rw [Bound.hits_coordinates]
    exact Site.forall₂_laid g.terms
  · rw [hserves.supportsHessian]
    show (!g.terms.any Bound.hasReparam) = true
    rw [Bound.any_hasReparam_eq_false hplain]
    rfl
  · refine ⟨_, hinformed.scalars_first_le, rfl, fun place hplace => ?_⟩
    rw [Bound.hits_coordinates] at hplace
    refine Bound.lt_of_mem_places (fun b hb v hv => ?_) hplace
    have hmem := (hinformed.terms b hb).vars v hv
    have hfirst := hinformed.registry.first known
    rw [← (hfirst.fits v hmem).plain (hplain b hb v hv)]
    exact hfirst.stop_le hmem

end Graph

/-! ### A repeated argument -/

/-- A graph after an evaluation. Its first variable has a linear map from one entry to two and is
used by no term. The only term takes the second variable twice, with one without entries between. -/
def takenTwice : Graph Float :=
  (Graph.derivatives Multipliers.none (.ofVector [5, 1, 1]) (some .sparse)
    ((Graph.addTerm (.plain (.affine [[1, 2], [], [3, 4]] 0)) [.handle 1, .handle 2, .handle 1]
      (Graph.addVariable ⟨"none", 2, true, [0], .double⟩ none none
        (Graph.addVariable ⟨"pair", 1, true, [2], .double⟩ none none
          (Graph.addVariable ⟨"mapped", 0, true, [2], .double⟩ none
            (some (.linear [[1], [2]] [[1, 0]] [0, 0]))
            (.empty true 1)).state).state).state).state, none)).state.1

theorem shared_takenTwice : Graph.Shared 3 takenTwice := by
  have hnew : Graph.Shared 0 (.empty true 1 : Graph Float) :=
    .new (show Graph.new true 1 = .ok (.empty true 1) from rfl)
  have hvariables := ((hnew.change (.addVariable ⟨"mapped", 0, true, [2], .double⟩ none
    (some (.linear [[1], [2]] [[1, 0]] [0, 0])))).change
      (.addVariable ⟨"pair", 1, true, [2], .double⟩ none none)).change
        (.addVariable ⟨"none", 2, true, [0], .double⟩ none none)
  have hevaluated := (hvariables.change (.addTerm (.plain (.affine [[1, 2], [], [3, 4]] 0))
    [.handle 1, .handle 2, .handle 1])).change
      (.derivatives Multipliers.none (.ofVector [5, 1, 1]) (some .sparse) none)
  have hforce : takenTwice.inForce = true := by decide +kernel
  -- The pool in force is the one of the evaluation, which was built for all three variables.
  have hknown (known : Nat) : takenTwice.knownAfter known = known := if_pos hforce
  exact hknown 3 ▸ hevaluated

/-- Of the sixteen triplets the tenth comes from the first row of the block for the last argument
and the first. -/
theorem gathered_of_takenTwice : ∃ (places : Coordinates) (values : List Float),
    takenTwice.current.coordinates = some places ∧
    Bound.gather takenTwice.terms places.size = .ok values ∧ values.length = 16 ∧
    (Site.laid takenTwice.terms)[9]? = some ⟨0, 2, 0, 0, 1⟩ ∧ values[9]? = some 6 ∧
    (CompressedRows.hits places)[9]? = some (1, 2) ∧
    ∀ place ∈ CompressedRows.hits places, place.1 < 3 ∧ place.2 < 3 := by
  have hplain : takenTwice.terms.all (fun b => b.vars.all (·.reparam.isNone)) = true := by
    decide +kernel
  have hscalars : takenTwice.scalars = 3 := by decide +kernel
  have hsites : (Site.stored takenTwice.terms).length = 16 ∧
      (Site.stored takenTwice.terms)[9]? = some ⟨0, 2, 0, 0, 1⟩ := by decide +kernel
  have hvalue : Site.value? takenTwice.terms ⟨0, 2, 0, 0, 1⟩ = some 6 := by decide +kernel
  have hplace : Site.place? takenTwice.terms ⟨0, 2, 0, 0, 1⟩ = some (1, 2) := by decide +kernel
  obtain ⟨hlength, hstored⟩ := hsites
  obtain ⟨places, values, hcoordinates, hgather, -, -, hstep, hvalues, hplaces, -, -, hinside⟩ :=
    Graph.gathered_in_step shared_takenTwice rfl
  have hsite := (hstep 9 _).1 hstored
  refine ⟨places, values, hcoordinates, hgather, hvalues.length_eq.symm.trans hlength, hsite, ?_,
    ?_, ?_⟩
  · obtain ⟨a, ha, heq⟩ := exists_getElem?_of_forall₂ hvalues hstored
    rw [ha, ← heq, hvalue]
  · obtain ⟨place, hat, heq⟩ := exists_getElem?_of_forall₂ hplaces hsite
    rw [hat, ← heq, hplace]
  · have hnone : ∀ b ∈ takenTwice.terms, ∀ v ∈ b.vars, v.reparam = none := by
      simpa only [List.all_eq_true, Option.isNone_iff_eq_none] using hplain
    obtain ⟨-, n, hn, -, hinside⟩ := hinside hnone
    intro place hmem
    have hbelow := hinside place hmem
    omega

end Separable
