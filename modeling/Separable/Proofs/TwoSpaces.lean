import Separable.Proofs.Copies
import Separable.Proofs.Twofold
import Separable.Term.Elementary

/-!
# Solver space and user space

An objective can be evaluated at a state, or where the arrays of the caller stand. A state reaches
the scratch vectors by way of the reparameterizations, and the arrays are copied into them as they
are. The two ways agree where a copy between states and memory loses nothing:

* A state that was written to memory is seen there if every array is of double precision and no two
  have an entry in common. Reparameterizations were applied when it was written, and what they gave
  then is what they give when the state is loaded, if they write all of their output
  (`Reparam.Whole`).
* What memory holds is seen in the state gathered from it if nothing is reparameterized. Nothing is
  written to memory, so arrays may be of any floating-point kind, and may share entries.

In both cases the registry is the same after loading (`Registry.load_stored`,
`Registry.load_gathered`), and an evaluation takes no other notice of where its point came from.

## Main results

* `Graph.value_eq_valueAtStorage`: evaluations from registries that loading makes the same.
* `Graph.value_in_both_spaces`: the two ways agree on values and on faults.
-/

namespace Separable

variable {α : Type} [Backend α]

namespace Registry

/-! ## The scratch vectors -/

/-- A state and memory leave the same registry if for each variable the state holds what its array
holds. -/
theorem load_eq_loadStorage {r : Registry α} (hr : r.Sound) {m : Memory α} (hheld : m.Holds r.vars)
    {x : Tensor α} (hslots : ∀ s ∈ r.slots,
      s.valuesFrom x s.scratch = (m.read s.storage, .ok ())) :
    load x r = Action.modify (loadStorage m) r := by
  have hok : (load x r).result = .ok () :=
    load_ok fun s hs => congrArg Prod.snd (hslots s hs)
  have hscratch : (r.withScratch fun s => (s.load x).1.scratch) = r.loadStorage m := by
    rw [loadStorage_eq hr hheld, withScratch, vars, List.map_map]
    congr 1
    refine List.map_congr_left fun s hs => ?_
    have hvalues : (s.load x).1.scratch = m.read s.storage := congrArg Prod.fst (hslots s hs)
    rw [hvalues]
    rfl
  rw [load_of_ok hok, hscratch]
  rfl

/-- A state that was written to memory is loaded from there as well. It may be converted to double
precision on the way, unless reparameterizations have computed with it in another kind. -/
theorem load_stored {r : Registry α} (hr : r.Sound) {m : Memory α} (hheld : m.Holds r.vars)
    (hdouble : ∀ v ∈ r.vars, v.storage.kind = .double)
    (happart : r.vars.Pairwise fun v w => m.Apart v.storage w.storage)
    (hwhole : ∀ v ∈ r.vars, v.Whole) {x : Tensor α} {n : Nat} (hx : x.shape = [n])
    (hkind : x.kind = .double ∨ ∀ v ∈ r.vars, v.reparam = none)
    (hok : (r.store x m).result = .ok ()) :
    load x.converted r = Action.modify (loadStorage (r.store x m).state) r := by
  have hstored {v : Variable α} (hv : v ∈ r.vars) :
      v.valuesFrom x (m.read v.storage) = ((r.store x m).state.read v.storage, .ok ()) := by
    obtain ⟨hresult, hread⟩ := of_storeFrom_eq_ok happart hok hv
    rw [hdouble v hv, ElementKind.map_round_double] at hread
    exact Prod.ext hread.symm hresult
  have hheld' : (r.store x m).state.Holds r.vars := fun v hv =>
    (length_read_storeFrom x r.vars m v.storage).trans (hheld v hv)
  refine load_eq_loadStorage hr hheld' fun s hs => ?_
  have hv : s.toVariable ∈ r.vars := List.mem_map_of_mem hs
  have hlength : (m.read s.storage).length = s.scratch.length :=
    (hheld _ hv).trans (hr.length_slot hs).symm
  obtain ⟨hresult, hvalues⟩ :=
    Variable.values_congr (hwhole _ hv) (s.part x.entries) hlength
  have hvector (old : List α) : s.valuesFrom x old = s.values (s.part x.entries) old := by
    simp only [Variable.valuesFrom, hx]
    rcases hkind with hkind | hplain
    · rw [hkind]
      rfl
    · simp only [Variable.values, Variable.valuesIn, hplain _ hv]
  have hconverted (old : List α) :
      s.valuesFrom x.converted old = s.values (s.part x.entries) old := by
    simp only [Variable.valuesFrom, Tensor.shape_converted, hx]
    rfl
  have hmemory := hstored hv
  rw [hvector] at hmemory
  rw [hconverted]
  rw [hmemory] at hresult hvalues
  exact Prod.ext (hvalues rfl).symm hresult.symm

/-- What memory holds is loaded from the state that was gathered from it as well. -/
theorem load_gathered {r : Registry α} (hr : r.Sound) {m : Memory α} (hheld : m.Holds r.vars)
    (hplain : ∀ v ∈ r.vars, v.reparam = none) :
    ∃ x, r.gather m = .ok x ∧ x.length = r.scalars ∧
      load (.ofVector x) r = Action.modify (loadStorage m) r := by
  have hgathered {v : Variable α} (hv : v ∈ r.vars) : v.gathered m = (m.read v.storage, .ok ()) :=
    Variable.gathered_of_plain (hplain v hv) m
  refine ⟨_, hr.gather_eq hheld fun v hv => congrArg Prod.snd (hgathered hv),
    hr.length_gathered hheld, load_eq_loadStorage hr hheld fun s hs => ?_⟩
  have hv : s.toVariable ∈ r.vars := List.mem_map_of_mem hs
  have hlength : (m.read s.storage).length = s.scratch.length :=
    (hheld _ hv).trans (hr.length_slot hs).symm
  have hpart := (hr.part_gathered hheld hv).trans (congrArg Prod.fst (hgathered hv))
  show s.values (s.part (r.vars.flatMap fun v => (v.gathered m).1)) s.scratch = _
  rw [hpart, Variable.values_none (hplain _ hv), copied_of_length_eq hlength]

end Registry

namespace Graph

/-! ## Evaluations -/

/-- An evaluation does not see how the scratch vectors were loaded. -/
theorem value_eq_valueAtStorage (m : Multipliers α) {g : Graph α} {x : Tensor α}
    (hx : x.shape = [g.scalars]) {memory : Memory α}
    (hload : Registry.load x.converted g.registry =
      Action.modify (Registry.loadStorage memory) g.registry) :
    value m x g = valueAtStorage m memory g := by
  have hcheck : checkState x g = ⟨g, [], .ok ()⟩ := by simp [checkState, Action.require, hx]
  have hloaded : onRegistry (Registry.load x.converted) { g with pool := some g.current } =
      onRegistry (Action.modify (Registry.loadStorage memory))
        { g with pool := some g.current } := by
    simp only [onRegistry, Action.within, hload]
  have hrest : (onRegistry (Registry.load x.converted) >>= fun _ => sumValues m g.current)
        { g with pool := some g.current } =
      (onRegistry (Action.modify (Registry.loadStorage memory)) >>= fun _ =>
        sumValues m g.current) { g with pool := some g.current } := by
    show Action.bind _ _ _ = Action.bind _ _ _
    simp only [Action.bind, hloaded]
  unfold value valueAtStorage
  rw [Action.bind_ok hcheck, Action.bind_ok (refreshed_eq g), Action.bind_ok (refreshed_eq g),
    hrest]
  rfl

/-- A state of the right shape is written by the registry. -/
theorem store_of_shape {g : Graph α} {x : Tensor α} (hx : x.shape = [g.scalars])
    (memory : Memory α) : g.store x memory = g.registry.store x memory := by
  have hcheck : (Action.require (decide (x.shape = [g.scalars])) (.stateShape x.shape g.scalars) :
      Action (Memory α) α Unit) memory = ⟨memory, [], .ok ()⟩ := by
    simp [Action.require, hx]
  rw [store, Action.bind_ok hcheck]
  rfl

/-- The value at a state of double precision is the value at the caller's storage after the state
was written there; where nothing is reparameterized, the state may be of any kind. And the value at
the caller's storage is the value at the state gathered from there. It does not matter what was
evaluated before, on the one hand and on the other. -/
theorem value_in_both_spaces {g h : Graph α} (hg : g.Reachable) (hh : h.Reachable)
    (hsame : h.outline = g.outline) (m : Multipliers α) {memory : Memory α}
    (hheld : memory.Holds g.registry.vars) :
    ((∀ v ∈ g.registry.vars, v.storage.kind = .double) →
      (g.registry.vars.Pairwise fun v w => memory.Apart v.storage w.storage) →
      (∀ v ∈ g.registry.vars, v.Whole) →
      ∀ x : Tensor α, x.shape = [g.scalars] →
        (x.kind = .double ∨ ∀ v ∈ g.registry.vars, v.reparam = none) →
        (g.registry.store x memory).result = .ok () →
        g.store x memory = g.registry.store x memory ∧
        (valueAtStorage m (g.store x memory).state g).result = (value m x h).result) ∧
    ((∀ v ∈ g.registry.vars, v.reparam = none) →
      ∃ x, g.gather memory = .ok x ∧
        (value m (.ofVector x) h).result = (valueAtStorage m memory g).result) := by
  have hsound := hg.sound.registry
  constructor
  · intro hdouble happart hwhole x hx hkind hok
    have hcoupled : g.Coupled h := ⟨hg.sound, hh.sound, hsame, hwhole⟩
    have hload := Registry.load_stored hsound hheld hdouble happart hwhole hx hkind hok
    refine ⟨store_of_shape hx memory, ?_⟩
    rw [store_of_shape hx, ← value_eq_valueAtStorage m hx hload, hcoupled.value_congr]
  · intro hplain
    have hcoupled : g.Coupled h := ⟨hg.sound, hh.sound, hsame, fun v hv c hc => by
      rw [hplain v hv] at hc
      cases hc⟩
    obtain ⟨x, hx, hlength, hload⟩ := Registry.load_gathered hsound hheld hplain
    refine ⟨x, hx, ?_⟩
    have hshape : (Tensor.ofVector x).shape = [g.scalars] := congrArg (fun n => [n]) hlength
    rw [← hcoupled.value_congr, value_eq_valueAtStorage m hshape hload]

end Graph

/-! ### Two graphs -/

/-- Two workers, and one term: the square of the product of a plain variable and one that is the
square of its coordinate. -/
def squaredFactor : Graph Float :=
  (Graph.addTerm (.plain (.product 1)) [.handle 0, .handle 1]
    (Graph.addVariable ⟨"b", 1, true, [1], .double⟩ none none
      (Graph.addVariable ⟨"a", 0, true, [1], .double⟩ none (some (.square 1 none))
        (.empty false 2)).state).state).state

/-- The square of the inner product of two plain variables whose arrays, in single precision, have an
entry in common. -/
def sharedFactor : Graph Float :=
  (Graph.addTerm (.plain (.product 2)) [.handle 0, .handle 1]
    (Graph.addVariable ⟨"d", ⟨0, some ⟨1, 0, 2, false⟩⟩, true, [2], .narrow .single⟩ none none
      (Graph.addVariable ⟨"c", ⟨0, some ⟨0, 0, 2, false⟩⟩, true, [2], .narrow .single⟩ none none
        (.empty false 2)).state).state).state

theorem reachable_squaredFactor : squaredFactor.Reachable :=
  .addTerm (.addVariable (.addVariable
    (.new (show Graph.new false 2 = .ok (.empty false 2) from rfl)) _ _ _) _ _ _) _ _

theorem reachable_sharedFactor : sharedFactor.Reachable :=
  .addTerm (.addVariable (.addVariable
    (.new (show Graph.new false 2 = .ok (.empty false 2) from rfl)) _ _ _) _ _ _) _ _

theorem vars_squaredFactor : squaredFactor.registry.vars =
    [⟨0, ⟨"a", 0, true, [1], .double⟩, 1, 1, 0, some (.square 1 none)⟩,
      ⟨1, ⟨"b", 1, true, [1], .double⟩, 1, 1, 1, none⟩] := rfl

theorem vars_sharedFactor : sharedFactor.registry.vars =
    [⟨0, ⟨"c", ⟨0, some ⟨0, 0, 2, false⟩⟩, true, [2], .narrow .single⟩, 2, 2, 0, none⟩,
      ⟨1, ⟨"d", ⟨0, some ⟨1, 0, 2, false⟩⟩, true, [2], .narrow .single⟩, 2, 2, 2, none⟩] := rfl

theorem whole_squaredFactor : ∀ v ∈ squaredFactor.registry.vars, v.Whole := by
  intro v hv c hc
  rw [vars_squaredFactor] at hv
  rcases List.mem_pair.1 hv with rfl | rfl
  · obtain rfl : Reparam.square 1 none = c := Option.some.inj hc
    exact Reparam.whole_square 1 none
  · cases hc

theorem holds_squaredFactor (a b : Cell Float) :
    (⟨[[a], [b]]⟩ : Memory Float).Holds squaredFactor.registry.vars := by
  simp only [vars_squaredFactor, Memory.Holds, List.forall_mem_cons]
  exact ⟨rfl, rfl, List.forall_mem_nil _⟩

theorem double_squaredFactor : ∀ v ∈ squaredFactor.registry.vars, v.storage.kind = .double := by
  simp [vars_squaredFactor]

theorem apart_squaredFactor (m : Memory Float) :
    squaredFactor.registry.vars.Pairwise fun v w => m.Apart v.storage w.storage := by
  rw [vars_squaredFactor, List.pairwise_pair]
  exact fun hregion => absurd hregion (by decide)

/-- The state `[3, 5]` is written as `[9]` and `[5]`, and the value is `2025` there and here; and
where the variables hold `[3, 4]` and `[4, 5]`, the state that is gathered has the value `1024`. -/
theorem value_in_both_spaces_factors :
    (Graph.store (.ofVector [3, 5]) squaredFactor ⟨[[1], [1]]⟩).state.regions = [[9], [5]] ∧
    (Graph.valueAtStorage Multipliers.none
        (Graph.store (.ofVector [3, 5]) squaredFactor ⟨[[1], [1]]⟩).state squaredFactor).result =
      .ok 2025 ∧
    ∃ x, sharedFactor.gather ⟨[[3, 4, 5]]⟩ = .ok x ∧
      (Graph.value Multipliers.none (.ofVector x) sharedFactor).result = .ok 1024 := by
  have hvalue : (Graph.value Multipliers.none (.ofVector [3, 5]) squaredFactor).result.toOption =
      some 2025 := by decide +kernel
  have hshared :
      (Graph.valueAtStorage Multipliers.none ⟨[[3, 4, 5]]⟩ sharedFactor).result.toOption =
        some 1024 := by decide +kernel
  have hstored : (squaredFactor.registry.store (.ofVector [3, 5]) ⟨[[1], [1]]⟩).result.toOption =
      some () := by decide +kernel
  have hheld : (⟨[[3, 4, 5]]⟩ : Memory Float).Holds sharedFactor.registry.vars := by
    simp only [vars_sharedFactor, Memory.Holds, List.forall_mem_cons]
    exact ⟨rfl, rfl, nofun⟩
  obtain ⟨hwritten, -⟩ := Graph.value_in_both_spaces reachable_squaredFactor
    reachable_squaredFactor rfl Multipliers.none (holds_squaredFactor 1 1)
  obtain ⟨-, hgathered⟩ := Graph.value_in_both_spaces reachable_sharedFactor
    reachable_sharedFactor rfl Multipliers.none hheld
  refine ⟨by decide +kernel, ?_, ?_⟩
  · obtain ⟨-, hagree⟩ := hwritten double_squaredFactor (apart_squaredFactor _)
      whole_squaredFactor (.ofVector [3, 5]) rfl (.inl rfl) (Action.of_toOption_eq_some hstored)
    rw [hagree]
    exact Action.of_toOption_eq_some hvalue
  · rw [← Action.of_toOption_eq_some hshared]
    exact hgathered (by simp [vars_sharedFactor])

/-! ### States that come out differently -/

/-- The square of a variable that is the square of its coordinate. -/
def fourthPower : Graph Float :=
  (Graph.addTerm (.plain (.squaredDistance [0] 1)) [.handle 0]
    (Graph.addVariable ⟨"a", 0, true, [1], .double⟩ none (some (.square 1 none))
      (.empty false 1)).state).state

/-- The square of a plain variable. -/
def secondPower : Graph Float :=
  (Graph.addTerm (.plain (.squaredDistance [0] 1)) [.handle 0]
    (Graph.addVariable ⟨"a", 0, true, [1], .double⟩ none none (.empty false 1)).state).state

/-- The number after `1` in single precision, as a state. -/
def singleStep : Tensor Float := ⟨[1], [1.00000011920928955078125], .narrow .single⟩

/-- A state of single precision is squared in single precision when it is written, and in double
precision when it is evaluated. And the registry writes a state that is too long, which has no
value. -/
theorem values_apart :
    (fourthPower.store singleStep ⟨[[1]]⟩).result = .ok () ∧
    (Graph.valueAtStorage Multipliers.none (fourthPower.store singleStep ⟨[[1]]⟩).state
      fourthPower).result = .ok 1.000000476837215 ∧
    (Graph.value Multipliers.none singleStep fourthPower).result = .ok 1.0000004768372435 ∧
    (1.000000476837215 : Float) ≠ 1.0000004768372435 ∧
    (secondPower.registry.store (.ofVector [3, 4]) ⟨[[1]]⟩).result = .ok () ∧
    (Graph.valueAtStorage Multipliers.none
      (secondPower.registry.store (.ofVector [3, 4]) ⟨[[1]]⟩).state secondPower).result = .ok 9 ∧
    (Graph.value Multipliers.none (.ofVector [3, 4]) secondPower).result =
      .error (.stateShape [2] 1) := by
  refine ⟨Action.of_toOption_eq_some (by decide +kernel),
    Action.of_toOption_eq_some (by decide +kernel), Action.of_toOption_eq_some (by decide +kernel),
    by decide +kernel, Action.of_toOption_eq_some (by decide +kernel),
    Action.of_toOption_eq_some (by decide +kernel), rfl⟩

end Separable
