import Separable.Proofs.Assembly
import Separable.Proofs.Gradient

/-!
# The Hessian of a graph

A Hessian can be asked for where no term is bound to a reparameterized variable; variables that no
term uses may have one. Then the terms see the slices of the state, every term fills its blocks, and
the blocks are assembled into a dense matrix or by compressed rows. In exact arithmetic both are the
same matrix: its entry at a place is the sum over all terms, and over all ordered pairs of arguments
of each, of the block entry that lands there.

## Main results

* `hessian_sparse`: the compressed rows stand for the dense matrix.
* `derivatives_of_plain`: a derivative evaluation without reparameterizations.
* `hessians_agree`: the dense and the sparse Hessian of a graph.
-/

namespace Separable

open Scalar

variable {α : Type} [Backend α]

/-! ## Both forms of a matrix -/

namespace Bound

section Forms

variable [ExactAddition α] [Std.Commutative fun a b : α => a + b]

omit [Std.Commutative fun a b : α => a + b] in
/-- Triplets with their coordinates apart add up to the same. -/
theorem sum_coordinates (places : List (Nat × Nat)) (values : List α) (r c : Nat) :
    sum (((places.map (·.1)).zip ((places.map (·.2)).zip values)).map fun (i, j, a) =>
      if i = r ∧ j = c then a else 0) =
    sum ((places.zip values).map fun (place, a) => if place = (r, c) then a else 0) := by
  induction places generalizing values with
  | nil => rfl
  | cons place rest ih =>
      cases values with
      | nil => rfl
      | cons a values =>
          obtain ⟨i, j⟩ := place
          simp only [List.map_cons, List.zip_cons_cons, sum_cons, ih, Prod.mk.injEq]

/-- The compressed rows stand for the dense matrix. -/
theorem hessian_sparse {terms : List (Bound α)} {n : Nat} (h : ∀ b ∈ terms, b.Filled)
    (hinside : ∀ b ∈ terms, ∀ v ∈ b.vars, v.offset + v.userDimension ≤ n) :
    ∃ rows, hessian .sparse terms n = .ok (.sparse rows) ∧ rows.shape = (n, n) ∧
      rows.expanded = dense terms n := by
  obtain ⟨hgather, hsize⟩ := gather_ok n h
  obtain ⟨rows, hrows, hshape, hentry⟩ :=
    CompressedRows.expanded_of_assemble (inside_coordinates hinside) hsize
  refine ⟨rows, ?_, hshape, ?_⟩
  · simp only [hessian, hgather, Except.bind, hrows]
    rfl
  · have hlengths := rows.rowLengths_expanded
    rw [hshape] at hlengths
    refine ext_entryAt hlengths (rowLengths_dense terms n) fun r hr c hc => ?_
    rw [hentry r hr c hc, entryAt_dense h hinside r c, ← sum_triplets h, ← sum_coordinates,
      CompressedRows.triplets, coordinates_eq]

end Forms

end Bound

/-! ## Evaluations without reparameterizations -/

theorem addSlopes_of_plain {x : List α} {slopes : List (Variable α × List α)}
    (h : ∀ slope ∈ slopes, slope.1.reparam = none) (total : List α) :
    (addSlopes x slopes total).2 = .ok () := by
  induction slopes generalizing total with
  | nil => rfl
  | cons slope rest ih =>
      obtain ⟨v, g⟩ := slope
      obtain ⟨hhead, hrest⟩ := List.forall_mem_cons.1 h
      have hv : v.reparam = none := hhead
      simp only [addSlopes, hv]
      exact ih hrest _

section Plain

variable {g : Graph α} (hg : g.Sound) (henabled : g.hessianEnabled = true)
  (hplain : ∀ b ∈ g.terms, ∀ v ∈ b.vars, v.reparam = none) (m : Multipliers α) {x : List α}
  (hx : x.length = g.scalars) (hload : (Registry.load (.ofVector x) g.registry).result = .ok ())
  {value : Bound α → α} {slopes : Bound α → Rows α} {blocks : Bound α → Grid α}
  (hterms : ∀ b ∈ g.terms, (b.summand.resolve m).hessian (b.vars.map (·.part x)) b.zeroRows
    (Bound.zeroBlocks b.vars) = ((slopes b, blocks b), .ok (value b)))

include hg hplain hx hterms

theorem derived_of_plain {b : Bound α} (hb : b ∈ g.terms) :
    b.derived m (g.registry.loaded x) true = ((slopes b, blocks b), .ok (value b)) := by
  have hfits := hg.terms b hb
  have hpoints : (g.registry.loaded x).arguments b = b.vars.map (·.part x) :=
    arguments_of_points hg.registry hfits fun v hv =>
      hg.registry.standsFor_part hx (hfits.vars v hv) (hplain b hb v hv)
  rw [Bound.derived, hpoints]
  exact hterms b hb

theorem outcome_of_plain {b : Bound α} (hb : b ∈ g.terms) :
    b.outcome m (g.registry.loaded x) x true = .ok (value b) := by
  have hadded : (addSlopes x (b.vars.zip (slopes b)) (zeros (g.registry.loaded x).scalars)).2 =
      .ok () :=
    addSlopes_of_plain (fun slope hslope => hplain b hb _ (List.of_mem_zip hslope).1) _
  rw [Bound.outcome, Bound.slopes, derived_of_plain hg hplain m hx hterms hb]
  simp only [Except.bind, hadded]
  rfl

include henabled hload

/-- A derivative evaluation without reparameterizations. -/
theorem derivatives_of_plain {form : HessianMode} (hform : form = .dense ∨ form = .sparse)
    {buffer : Option (Tensor α)}
    (hbuffer : ∀ b, buffer = some b → b.shape = [g.scalars] ∧ b.kind.refusingSums? = none) :
    ∃ d hessian, (Graph.derivatives m (.ofVector x) (some form) (g, buffer)).result = .ok d ∧
      d.hessian = some hessian ∧
      Bound.hessian form (g.terms.map fun b => { b with blocks := blocks b }) g.scalars =
        .ok hessian := by
  have hpasses : g.Passes (some form) buffer := by
    refine ⟨fun b hb => (hbuffer b hb).1, fun other hother => ?_⟩
    cases hother
    exact ⟨henabled, hform, Bound.any_hasReparam_eq_false hplain⟩
  have hadditive : ∀ b ∈ g.terms, ∀ v ∈ b.vars, v.Additive x := fun b hb v hv c hc => by
    rw [hplain b hb v hv] at hc
    cases hc
  have houtcome : ∀ b ∈ g.terms, ∃ t, b.outcome m (g.registry.loaded x) x
      (some form).isSome = .ok t :=
    fun b hb => ⟨value b, outcome_of_plain hg hplain m hx hterms hb⟩
  have hrefilled : g.terms.map (Bound.refilled m (g.registry.loaded x) (some form).isSome) =
      g.terms.map fun b => { b with blocks := blocks b } := by
    refine List.map_congr_left fun b hb => ?_
    rw [Bound.refilled, Option.isSome_some, derived_of_plain hg hplain m hx hterms hb]
  obtain ⟨d, hd, hhessian, _⟩ := Graph.derivatives_of_ok m hg hx hpasses hload hadditive
    ((Crew.firstFault_eq_none_iff g.terms).2 houtcome)
    (Graph.gradientKind_of (P := (·.refusingSums? = none)) (fun b hb => (hbuffer b hb).2) rfl)
  rw [hrefilled, Option.mapM_some] at hhessian
  cases hresult : Bound.hessian form (g.terms.map fun b => { b with blocks := blocks b })
      g.scalars with
  | error fault =>
      rw [hresult] at hhessian
      cases hhessian
  | ok hessian =>
      rw [hresult] at hhessian
      exact ⟨d, hessian, hd, (Except.ok.inj hhessian).symm, rfl⟩

omit hg henabled hplain hx hload in
/-- The blocks that the terms fill have the extents of their variables. -/
theorem filled_of_plain : ∀ d ∈ g.terms.map (fun b => { b with blocks := blocks b }), d.Filled := by
  intro d hd
  obtain ⟨b, hb, rfl⟩ := List.mem_map.1 hd
  have hextents := (b.summand.resolve m).hessian_grid (b.vars.map (·.part x)) b.zeroRows
    (Bound.zeroBlocks b.vars)
  rw [hterms b hb] at hextents
  exact hextents

end Plain

/-- The dense Hessian of a graph and the sparse one, read back with an entry at every place, are the
same matrix. Its entries are the sums of what lands there, and it is symmetric if the blocks of
every term mirror each other. -/
theorem hessians_agree [ExactAddition α] [Std.Commutative fun a b : α => a + b] {g : Graph α}
    (hg : g.Reachable) (henabled : g.hessianEnabled = true)
    (hplain : ∀ b ∈ g.terms, ∀ v ∈ b.vars, v.reparam = none) (m : Multipliers α) {x : List α}
    (hx : x.length = g.scalars)
    (hload : (Registry.load (.ofVector x) g.registry).result = .ok ())
    {buffer : Option (Tensor α)}
    (hbuffer : ∀ b, buffer = some b → b.shape = [g.scalars] ∧ b.kind.refusingSums? = none)
    {value : Bound α → α} {slopes : Bound α → Rows α} {blocks : Bound α → Grid α}
    (hterms : ∀ b ∈ g.terms, (b.summand.resolve m).hessian (b.vars.map (·.part x)) b.zeroRows
      (Bound.zeroBlocks b.vars) = ((slopes b, blocks b), .ok (value b))) :
    ∃ (d e : Derivatives α) (matrix : Block α) (rows : CompressedRows α),
      (Graph.derivatives m (.ofVector x) (some .dense) (g, buffer)).result = .ok d ∧
      d.hessian = some (.dense matrix) ∧
      (Graph.derivatives m (.ofVector x) (some .sparse) (g, buffer)).result = .ok e ∧
      e.hessian = some (.sparse rows) ∧
      rows.shape = (g.scalars, g.scalars) ∧ rows.expanded = matrix ∧
      rowLengths matrix = List.replicate g.scalars g.scalars ∧
      (∀ r c, entryAt matrix r c = sum (g.terms.map fun b => b.landing (blocks b) r c)) ∧
      ((∀ b ∈ g.terms, ∀ i j a c, (blocks b).entry i j a c = (blocks b).entry j i c a) →
        ∀ r c, entryAt matrix r c = entryAt matrix c r) := by
  have hsound := hg.sound
  have hsquare : ∀ b ∈ g.terms, ∀ v ∈ b.vars, v.solverDimension = v.userDimension :=
    fun b hb v hv =>
      (hsound.registry.fits v ((hsound.terms b hb).vars v hv)).plain (hplain b hb v hv)
  have hinside : ∀ b ∈ g.terms, ∀ v ∈ b.vars, v.offset + v.userDimension ≤ g.scalars :=
    fun b hb v hv => hsquare b hb v hv ▸ hsound.registry.stop_le ((hsound.terms b hb).vars v hv)
  have hfilled := filled_of_plain m hterms
  have hinside' : ∀ d ∈ g.terms.map (fun b => { b with blocks := blocks b }), ∀ v ∈ d.vars,
      v.offset + v.userDimension ≤ g.scalars := by
    intro d hd
    obtain ⟨b, hb, rfl⟩ := List.mem_map.1 hd
    exact hinside b hb
  obtain ⟨rows, hrows, hshape, hexpanded⟩ := Bound.hessian_sparse hfilled hinside'
  obtain ⟨d, _, hd, hdense, hdense'⟩ := derivatives_of_plain hsound henabled hplain m hx hload
    hterms (Or.inl rfl) hbuffer
  obtain ⟨e, _, he, hsparse, hsparse'⟩ := derivatives_of_plain hsound henabled hplain m hx hload
    hterms (Or.inr rfl) hbuffer
  have hentry (r c : Nat) :
      entryAt (Bound.dense (g.terms.map fun b => { b with blocks := blocks b }) g.scalars) r c =
        sum (g.terms.map fun b => b.landing (blocks b) r c) := by
    rw [Bound.entryAt_dense hfilled hinside' r c, List.map_map]
    congr 1
    refine List.map_congr_left fun b hb => ?_
    exact Bound.landing_eq (hfilled _ (List.mem_map_of_mem hb)) (hsquare b hb) r c
  refine ⟨d, e, _, rows, hd, hdense.trans (congrArg some (Except.ok.inj hdense').symm), he,
    hsparse.trans (congrArg some (Except.ok.inj (hsparse'.symm.trans hrows))), hshape, hexpanded,
    Bound.rowLengths_dense _ _, hentry, fun hmirror r c => ?_⟩
  rw [hentry, hentry]
  congr 1
  exact List.map_congr_left fun b hb => b.landing_comm (hmirror b hb) r c

/-! ### A graph with overlapping blocks -/

/-- An array beside `soleStorage`. -/
def otherStorage : Storage := ⟨"b", 1, true, [1], .double⟩

/-- Two workers, a reparameterized variable that no term uses, and a plain one: one term takes it
twice, and another one once. -/
noncomputable def overlapping : Graph ℝ :=
  (Graph.addTerm (.plain (.squaredDistance [0] 1)) [.handle 1]
    (Graph.addTerm (.plain (.product 1)) [.handle 1, .handle 1]
      (Graph.addVariable otherStorage none none
        (Graph.addVariable soleStorage none (some doubledPlusOne)
          (.empty true 2)).state).state).state).state

theorem reachable_overlapping : overlapping.Reachable :=
  .addTerm (.addTerm (.addVariable (.addVariable
    (.new (show Graph.new true 2 = .ok (.empty true 2) from rfl)) _ _ _) _ _ _) _ _) _ _

/-- The variable of its terms. -/
noncomputable def usedVariable : Variable ℝ := ⟨1, otherStorage, 1, 1, 1, none⟩

theorem terms_overlapping : overlapping.terms =
    [⟨.plain (.product 1), [usedVariable, usedVariable], [[[[0]], [[0]]], [[[0]], [[0]]]]⟩,
      ⟨.plain (.squaredDistance [0] 1), [usedVariable], [[[[0]]]]⟩] := rfl

/-- The blocks of its terms where the used variable is `1`. -/
def overlappingBlocks (b : Bound ℝ) : Grid ℝ :=
  if b.vars.length = 2 then [[[[2]], [[4]]], [[[4]], [[2]]]] else [[[[2]]]]

theorem plain_overlapping : ∀ b ∈ overlapping.terms, ∀ v ∈ b.vars, v.reparam = none := by
  intro b hb v hv
  have hused : v = usedVariable := by
    rw [terms_overlapping] at hb
    rcases List.mem_pair.1 hb with rfl | rfl <;> simpa using hv
  rw [hused]
  rfl

/-- The terms succeed there, and fill their blocks. -/
theorem hessian_overlapping : ∀ b ∈ overlapping.terms,
    (b.summand.resolve Multipliers.none).hessian (b.vars.map (·.part [5, 1])) b.zeroRows
      (Bound.zeroBlocks b.vars) = ((b.vars.map fun _ => [2], overlappingBlocks b), .ok 1) := by
  intro b hb
  rw [terms_overlapping] at hb
  rcases List.mem_pair.1 hb with rfl | rfl
  · simp [Summand.resolve, Term.product, Term.argument, Term.entry, mapRows, mapGrid,
      Bound.zeroRows, Bound.zeroBlocks, filled, zeros, usedVariable, Variable.part, slice,
      overlappingBlocks, sum, Except.bind, Except.map]
    norm_num
  · simp [Summand.resolve, Term.squaredDistance, Term.argument, Term.entry, mapRows, mapGrid,
      Bound.zeroRows, Bound.zeroBlocks, filled, zeros, usedVariable, Variable.part, slice,
      overlappingBlocks, sum, Except.bind, Except.map]
    norm_num

/-- Where `u` is one, the second derivative of `u⁴ + u²` is `12 + 2`, and nothing else is there. -/
theorem hessians_overlapping : ∃ (d e : Derivatives ℝ) (matrix : Block ℝ) (rows : CompressedRows ℝ),
    (Graph.derivatives Multipliers.none (.ofVector [5, 1]) (some .dense)
      (overlapping, none)).result = .ok d ∧ d.hessian = some (.dense matrix) ∧
    (Graph.derivatives Multipliers.none (.ofVector [5, 1]) (some .sparse)
      (overlapping, none)).result = .ok e ∧ e.hessian = some (.sparse rows) ∧
    rows.expanded = matrix ∧ matrix = [[0, 0], [0, 14]] := by
  have hload : (Registry.load (.ofVector [5, 1]) overlapping.registry).result = .ok () := by
    rfl
  obtain ⟨d, e, matrix, rows, hd, hdense, he, hsparse, _, hexpanded, hlengths, hentry, _⟩ :=
    @hessians_agree ℝ _ _ _ overlapping reachable_overlapping rfl plain_overlapping Multipliers.none
      [5, 1] rfl hload none (by simp) _ _ _ hessian_overlapping
  refine ⟨d, e, matrix, rows, hd, hdense, he, hsparse, hexpanded, ?_⟩
  refine ext_entryAt hlengths rfl fun r hr c hc => ?_
  have hr : r = 0 ∨ r = 1 := by
    have hr' : r < 2 := hr
    omega
  have hc : c = 0 ∨ c = 1 := by
    have hc' : c < 2 := hc
    omega
  rw [hentry, terms_overlapping]
  rcases hr with rfl | rfl <;> rcases hc with rfl | rfl <;>
    simp [Bound.landing, overlappingBlocks, usedVariable, Variable.Covers, Variable.stop, entryAt,
      Grid.entry, sum]
  norm_num

end Separable
