import Mathlib.Data.List.Nodup
import Mathlib.Data.List.Pairwise
import Separable.Registry

/-!
# The layout of a registry

Registration keeps a registry sound: handles count from zero, slices cut the state vector into
consecutive pieces, every variable has the dimensions of its storage and its reparameterization,
no storage is registered twice, the index has every storage with its handle, and scratch vectors
have the user dimension of their variables. Copies into the scratch vectors change none of this.

From a sound registry follow the facts that evaluations rest on: a variable that is looked up is
found with its own scratch vector, slices of different variables do not overlap, and the slices of
a state, one after another, are the state.

## Main results

* `sound_add`, `sound_load`, `sound_loadStorage`: what the registry is asked to do keeps it sound.
* `Sound.findStorage?_eq`: the index leads to the variable that the list has for a storage.
* `eq_or_apart`: two variables are the same, or their slices lie apart.
* `flatMap_part`: the slices of a state make up the state.
* `Laid.slice_flatMap`: the slices of a vector that was put together from them.
* `load_of_ok`: what a load that succeeds leaves in the scratch vectors.
-/

namespace Separable

variable {α : Type}

namespace Variable

/-- The place behind the slice of a variable. -/
def stop (v : Variable α) : Nat := v.offset + v.solverDimension

/-- Whether a place of the state belongs to the variable. -/
def Covers (v : Variable α) (k : Nat) : Prop := v.offset ≤ k ∧ k < v.stop

instance (v : Variable α) (k : Nat) : Decidable (v.Covers k) :=
  inferInstanceAs (Decidable (_ ∧ _))

/-- Whether the dimensions of a variable are those of its storage and its reparameterization. -/
structure Fits (v : Variable α) : Prop where
  length : v.storage.vectorLength? = some v.userDimension
  floating : v.storage.kind.otherThanFloating? = none
  plain : v.reparam = none → v.solverDimension = v.userDimension
  reparam : ∀ c, v.reparam = some c →
    c.userDimension = v.userDimension ∧ c.solverDimension = v.solverDimension

theorem length_part {v : Variable α} {x : List α} (h : v.stop ≤ x.length) :
    (v.part x).length = v.solverDimension := by
  simp only [part, slice, List.length_take, List.length_drop]
  unfold stop at h
  omega

theorem getElem?_part (v : Variable α) (x : List α) (k : Nat) :
    (v.part x)[k]? = if k < v.solverDimension then x[v.offset + k]? else none := by
  simp [part, slice, List.getElem?_take, List.getElem?_drop]

end Variable

namespace Registry

/-! ## Consecutive slices -/

/-- Whether the slices of some variables follow each other from `start` to `stop`. -/
def Laid : (start : Nat) → List (Variable α) → (stop : Nat) → Prop
  | start, [], stop => start = stop
  | start, v :: rest, stop => v.offset = start ∧ Laid v.stop rest stop

theorem Laid.snoc {vars : List (Variable α)} {start stop : Nat} (h : Laid start vars stop)
    {v : Variable α} (hv : v.offset = stop) : Laid start (vars ++ [v]) v.stop := by
  induction vars generalizing start with
  | nil =>
      have hstart : start = stop := h
      exact ⟨hv.trans hstart.symm, rfl⟩
  | cons w rest ih => exact ⟨h.1, ih h.2⟩

theorem Laid.bounds {vars : List (Variable α)} {start stop : Nat} (h : Laid start vars stop) :
    start ≤ stop ∧ ∀ v ∈ vars, start ≤ v.offset ∧ v.stop ≤ stop := by
  induction vars generalizing start with
  | nil => exact ⟨Nat.le_of_eq h, by simp⟩
  | cons w rest ih =>
      obtain ⟨hw, hrest⟩ := h
      obtain ⟨hle, hall⟩ := ih hrest
      have hstart : start ≤ w.stop := by
        rw [← hw]
        exact Nat.le_add_right _ _
      refine ⟨Nat.le_trans hstart hle, fun v hv => ?_⟩
      rcases List.mem_cons.1 hv with rfl | hv
      · exact ⟨Nat.le_of_eq hw.symm, hle⟩
      · exact ⟨Nat.le_trans hstart (hall v hv).1, (hall v hv).2⟩

theorem Laid.pairwise {vars : List (Variable α)} {start stop : Nat} (h : Laid start vars stop) :
    vars.Pairwise fun v w => v.stop ≤ w.offset := by
  induction vars generalizing start with
  | nil => exact List.Pairwise.nil
  | cons w rest ih =>
      exact List.pairwise_cons.2 ⟨fun v hv => (h.2.bounds.2 v hv).1, ih h.2⟩

/-- The slices of a vector that was put together from them. -/
theorem Laid.slice_flatMap {vars : List (Variable α)} {start stop : Nat}
    (h : Laid start vars stop) {f : Variable α → List α}
    (hf : ∀ v ∈ vars, (f v).length = v.solverDimension) {v : Variable α} (hv : v ∈ vars) :
    slice (v.offset - start) v.solverDimension (vars.flatMap f) = f v := by
  induction vars generalizing start with
  | nil => cases hv
  | cons w rest ih =>
      obtain ⟨rfl, hrest⟩ := h
      have hw := hf w (by simp)
      rw [List.flatMap_cons]
      rcases List.mem_cons.1 hv with rfl | hv
      · simp [slice, ← hw]
      · have hle := (hrest.bounds.2 v hv).1
        have hskip : v.offset - w.offset = (f w).length + (v.offset - w.stop) := by
          unfold Variable.stop at hle ⊢
          omega
        rw [← ih hrest (fun u hu => hf u (List.mem_cons_of_mem w hu)) hv, slice, slice, hskip,
          List.drop_length_add_append]

theorem Laid.length_flatMap {vars : List (Variable α)} {start stop : Nat}
    (h : Laid start vars stop) {f : Variable α → List α}
    (hf : ∀ v ∈ vars, (f v).length = v.solverDimension) :
    start + (vars.flatMap f).length = stop := by
  induction vars generalizing start with
  | nil => exact h
  | cons w rest ih =>
      obtain ⟨rfl, hrest⟩ := h
      have hw := hf w (by simp)
      have htail := ih hrest fun u hu => hf u (List.mem_cons_of_mem w hu)
      rw [List.flatMap_cons, List.length_append, hw, ← Nat.add_assoc]
      exact htail

/-- Every place between the ends lies in a slice. -/
theorem Laid.exists_slice {vars : List (Variable α)} {start stop : Nat} (h : Laid start vars stop)
    {k : Nat} (hstart : start ≤ k) (hstop : k < stop) :
    ∃ v ∈ vars, ∃ j < v.solverDimension, k = v.offset + j := by
  induction vars generalizing start with
  | nil =>
      have heq : start = stop := h
      omega
  | cons w rest ih =>
      obtain ⟨rfl, hrest⟩ := h
      by_cases hk : k < w.stop
      · unfold Variable.stop at hk
        exact ⟨w, by simp, k - w.offset, by omega, by omega⟩
      · obtain ⟨v, hv, hj⟩ := ih hrest (Nat.not_lt.1 hk)
        exact ⟨v, List.mem_cons_of_mem w hv, hj⟩

/-! ## Sound registries -/

/-- What every registry is that was made by registration. -/
structure Sound (r : Registry α) : Prop where
  ids : r.vars.map (·.id) = List.range r.vars.length
  slices : Laid 0 r.vars r.scalars
  fits : ∀ v ∈ r.vars, v.Fits
  keys : (r.vars.map (·.storage.key)).Nodup
  /-- The index is in step with the variables. -/
  index : r.index = r.vars.map fun v => (v.storage.key, v.id)
  scratch : r.slots.map (·.scratch.length) = r.vars.map (·.userDimension)

theorem sound_empty : (empty : Registry α).Sound where
  ids := rfl
  slices := rfl
  fits := by simp [vars, empty]
  keys := List.nodup_nil
  index := rfl
  scratch := rfl

/-- Soundness is about variables and lengths, and does not depend on what the scratch vectors
hold. -/
theorem Sound.of_eq {r q : Registry α} (h : r.Sound) (hvars : q.vars = r.vars)
    (hindex : q.index = r.index) (hscalars : q.scalars = r.scalars)
    (hscratch : q.slots.map (·.scratch.length) = r.slots.map (·.scratch.length)) : q.Sound where
  ids := hvars ▸ h.ids
  slices := by
    rw [hvars, hscalars]
    exact h.slices
  fits := hvars ▸ h.fits
  keys := hvars ▸ h.keys
  index := by rw [hvars, hindex, h.index]
  scratch := by rw [hvars, hscratch, h.scratch]

/-! ## Looking variables up -/

theorem mem_of_findStorage? {r : Registry α} {s : Storage} {v : Variable α}
    (h : r.findStorage? s = some v) : v ∈ r.vars := by
  obtain ⟨id, -, hid⟩ := Option.bind_eq_some_iff.1 h
  exact List.mem_of_getElem? hid

theorem mem_of_resolve {r : Registry α} {ref : Ref} {v : Variable α}
    (h : r.resolve ref = .ok v) : v ∈ r.vars := by
  cases ref with
  | handle index =>
      simp only [resolve, findHandle?] at h
      split at h
      · next w hw =>
        cases h
        split at hw
        · exact List.mem_of_getElem? hw
        · cases hw
      · cases h
  | storage s =>
      simp only [resolve] at h
      split at h
      · next w hw =>
        cases h
        exact mem_of_findStorage? hw
      · cases h

/-- A variable stands at the place that its handle names. -/
theorem Sound.getElem?_id {r : Registry α} (hr : r.Sound) {v : Variable α} (hv : v ∈ r.vars) :
    r.vars[v.id]? = some v := by
  obtain ⟨i, hi, rfl⟩ := List.getElem_of_mem hv
  have hid : (r.vars.map (·.id))[i]? = some i := by
    rw [hr.ids, List.getElem?_range hi]
  rw [List.getElem?_map, List.getElem?_eq_getElem hi, Option.map_some, Option.some_inj] at hid
  rw [hid, List.getElem?_eq_getElem hi]

theorem Sound.eq_of_id_eq {r : Registry α} (hr : r.Sound) {v w : Variable α} (hv : v ∈ r.vars)
    (hw : w ∈ r.vars) (h : v.id = w.id) : v = w := by
  have hv' := hr.getElem?_id hv
  rw [h, hr.getElem?_id hw] at hv'
  exact (Option.some.inj hv').symm

theorem Sound.eq_of_key_eq {r : Registry α} (hr : r.Sound) {v w : Variable α} (hv : v ∈ r.vars)
    (hw : w ∈ r.vars) (h : v.storage.key = w.storage.key) : v = w :=
  List.inj_on_of_nodup_map hr.keys hv hw h

/-- The index has the handle of the variable that a search through the list finds. -/
theorem Sound.find?_index {r : Registry α} (hr : r.Sound) (s : Storage) :
    r.index.find? s.key = (r.vars.find? fun v => v.storage.key = s.key).map (·.id) := by
  rw [hr.index, Catalog.find?_map]

/-- Through the index is found what a search through the list finds. -/
theorem Sound.findStorage?_eq {r : Registry α} (hr : r.Sound) (s : Storage) :
    r.findStorage? s = r.vars.find? fun v => v.storage.key = s.key := by
  rw [findStorage?, hr.find?_index]
  cases hfind : r.vars.find? fun v => v.storage.key = s.key with
  | none => rfl
  | some v => exact hr.getElem?_id (List.mem_of_find?_eq_some hfind)

theorem Sound.findStorage?_iff {r : Registry α} (hr : r.Sound) (s : Storage) (v : Variable α) :
    r.findStorage? s = some v ↔ v ∈ r.vars ∧ v.storage.key = s.key := by
  rw [hr.findStorage?_eq]
  constructor
  · intro h
    exact ⟨List.mem_of_find?_eq_some h, by simpa using List.find?_some h⟩
  · rintro ⟨hv, hkey⟩
    have hsome : (r.vars.find? fun w => w.storage.key = s.key).isSome :=
      List.find?_isSome.2 ⟨v, hv, by simpa using hkey⟩
    obtain ⟨w, hw⟩ := Option.isSome_iff_exists.1 hsome
    have hother : w.storage.key = s.key := by simpa using List.find?_some hw
    rw [hw, hr.eq_of_key_eq (List.mem_of_find?_eq_some hw) hv (hother.trans hkey.symm)]

theorem Sound.findStorage?_eq_none_iff {r : Registry α} (hr : r.Sound) (s : Storage) :
    r.findStorage? s = none ↔ ∀ v ∈ r.vars, v.storage.key ≠ s.key := by
  rw [hr.findStorage?_eq, List.find?_eq_none]
  simp

/-- A registered storage is found again. -/
theorem Sound.findStorage?_of_mem {r : Registry α} (hr : r.Sound) {v : Variable α}
    (hv : v ∈ r.vars) : r.findStorage? v.storage = some v :=
  (hr.findStorage?_iff v.storage v).2 ⟨hv, rfl⟩

/-! ## Registration -/

section Registration

variable [Scalar α]

/-- The variable that registering a new storage adds. -/
def newVariable (r : Registry α) (s : Storage) (reparam : Option (Reparam α)) : Variable α where
  id := r.slots.length
  storage := s
  userDimension := s.vectorLength?.getD 0
  solverDimension := match reparam with
    | none => s.vectorLength?.getD 0
    | some c => c.solverDimension
  offset := r.scalars
  reparam := reparam

omit [Scalar α] in
@[simp] theorem length_vars (r : Registry α) : r.vars.length = r.slots.length := by
  simp [vars]

@[simp] theorem vars_push (r : Registry α) (s : Storage) (reparam : Option (Reparam α)) :
    (r.push s reparam).vars = r.vars ++ [r.newVariable s reparam] := by
  simp only [push, vars, List.map_append, List.map_singleton]
  rfl

theorem scalars_push (r : Registry α) (s : Storage) (reparam : Option (Reparam α)) :
    (r.push s reparam).scalars = (r.newVariable s reparam).stop := rfl

omit [Scalar α] in
/-- What the registry has checked before it registers a new variable. -/
theorem of_check_none {r : Registry α} {s : Storage} {dimension : Option Int}
    {reparam : Option (Reparam α)} (h : r.check s dimension reparam = .ok none) :
    r.findStorage? s = none ∧ (r.newVariable s reparam).Fits := by
  unfold check at h
  split at h
  · cases h
  · cases h
  · next length hlength hkind =>
    have huser : (r.newVariable s reparam).userDimension = length := by
      simp [newVariable, hlength]
    dsimp only at h
    split at h
    · split at h <;> cases h
    · next hnew =>
      refine ⟨hnew, by rw [huser]; exact hlength, hkind, ?_, ?_⟩
      · intro hnone
        have hplain : reparam = none := hnone
        subst hplain
        rfl
      · intro c hc
        have hsome : reparam = some c := hc
        subst hsome
        dsimp only at h
        split at h
        · split at h
          · next hdimension =>
            exact ⟨by rw [huser]; exact hdimension, rfl⟩
          · cases h
        · cases h

/-- A new storage goes to the end of the index. -/
theorem Sound.index_push {r : Registry α} (hr : r.Sound) {s : Storage} {dimension : Option Int}
    {reparam : Option (Reparam α)} (h : r.check s dimension reparam = .ok none) :
    (r.push s reparam).index = r.index ++ [(s.key, r.slots.length)] := by
  have hnew := (of_check_none h).1
  have hunknown : r.index.find? s.key = none := by
    rw [hr.find?_index, ← hr.findStorage?_eq, hnew, Option.map_none]
  exact Catalog.put_of_find?_eq_none hunknown r.slots.length

theorem sound_push {r : Registry α} {s : Storage} {dimension : Option Int}
    {reparam : Option (Reparam α)} (hr : r.Sound)
    (h : r.check s dimension reparam = .ok none) : (r.push s reparam).Sound := by
  obtain ⟨hunknown, hfits⟩ := of_check_none h
  have hnew := (hr.findStorage?_eq_none_iff s).1 hunknown
  refine ⟨?_, ?_, ?_, ?_, ?_, ?_⟩
  · rw [vars_push, List.map_append, hr.ids]
    simp [newVariable, List.range_succ]
  · rw [vars_push, scalars_push]
    exact hr.slices.snoc rfl
  · intro v hv
    rw [vars_push] at hv
    rcases List.mem_append.1 hv with hv | hv
    · exact hr.fits v hv
    · rw [List.mem_singleton.1 hv]
      exact hfits
  · rw [vars_push, List.map_append, List.map_singleton, List.nodup_append]
    refine ⟨hr.keys, by simp, ?_⟩
    intro key hkey other hother
    obtain ⟨v, hv, rfl⟩ := List.mem_map.1 hkey
    rw [List.mem_singleton.1 hother]
    exact hnew v hv
  · rw [vars_push, List.map_append, ← hr.index]
    exact hr.index_push h
  · rw [vars_push, List.map_append, ← hr.scratch]
    simp [push, newVariable]

theorem sound_add {r : Registry α} (hr : r.Sound) (s : Storage) (dimension : Option Int)
    (reparam : Option (Reparam α)) : (add s dimension reparam r).state.Sound := by
  cases h : r.check s dimension reparam with
  | error fault =>
      rw [add_of_check_error h]
      exact hr
  | ok known =>
      cases known with
      | some id =>
          rw [add_of_check_some h]
          exact hr
      | none =>
          rw [add_of_check_none h]
          exact sound_push hr h

/-- Registration only ever adds to the variables. -/
theorem exists_vars_add (r : Registry α) (s : Storage) (dimension : Option Int)
    (reparam : Option (Reparam α)) :
    ∃ more, (add s dimension reparam r).state.vars = r.vars ++ more := by
  cases hcheck : r.check s dimension reparam with
  | error fault => exact ⟨[], by rw [add_of_check_error hcheck, List.append_nil]⟩
  | ok known =>
      cases known with
      | some id => exact ⟨[], by rw [add_of_check_some hcheck, List.append_nil]⟩
      | none => exact ⟨_, by rw [add_of_check_none hcheck, vars_push]⟩

end Registration

/-! ## Slices -/

theorem Sound.stop_le {r : Registry α} (hr : r.Sound) {v : Variable α} (hv : v ∈ r.vars) :
    v.stop ≤ r.scalars :=
  (hr.slices.bounds.2 v hv).2

/-- Two variables are the same, or their slices lie apart. -/
theorem Sound.eq_or_apart {r : Registry α} (hr : r.Sound) {v w : Variable α} (hv : v ∈ r.vars)
    (hw : w ∈ r.vars) : v = w ∨ v.stop ≤ w.offset ∨ w.stop ≤ v.offset := by
  have hall : r.vars.Pairwise fun v w => v.stop ≤ w.offset ∨ w.stop ≤ v.offset :=
    hr.slices.pairwise.imp Or.inl
  have hsymm : Std.Symm fun v w : Variable α => v.stop ≤ w.offset ∨ w.stop ≤ v.offset :=
    ⟨fun _ _ h => h.symm⟩
  by_cases heq : v = w
  · exact Or.inl heq
  · exact Or.inr (hall.forall hv hw heq)

/-- A registered variable has a slot of its own. -/
theorem Sound.exists_slot {r : Registry α} (hr : r.Sound) {v : Variable α} (hv : v ∈ r.vars) :
    ∃ s, r.slots[v.id]? = some s ∧ s.toVariable = v := by
  have hget := hr.getElem?_id hv
  rw [vars, List.getElem?_map, Option.map_eq_some_iff] at hget
  exact hget

/-- A scratch vector is as long as its variable. -/
theorem Sound.length_slot {r : Registry α} (hr : r.Sound) {s : Slot α} (hs : s ∈ r.slots) :
    s.scratch.length = s.userDimension := by
  have hlengths := hr.scratch
  rw [vars, List.map_map] at hlengths
  exact List.map_inj_left.1 hlengths s hs

theorem Sound.length_scratch {r : Registry α} (hr : r.Sound) {v : Variable α} (hv : v ∈ r.vars) :
    (r.scratch v).length = v.userDimension := by
  obtain ⟨s, hs, hvar⟩ := hr.exists_slot hv
  have hlength : (r.slots.map (·.scratch.length))[v.id]? = some v.userDimension := by
    rw [hr.scratch, List.getElem?_map, hr.getElem?_id hv]
    rfl
  rw [List.getElem?_map, hs, Option.map_some, Option.some_inj] at hlength
  rw [Registry.scratch, hs]
  exact hlength

/-- The registry with another scratch vector in every slot. -/
def withScratch (f : Slot α → List α) (r : Registry α) : Registry α :=
  { r with slots := r.slots.map fun s => { s with scratch := f s } }

@[simp] theorem vars_withScratch (f : Slot α → List α) (r : Registry α) :
    (r.withScratch f).vars = r.vars := by
  simp [withScratch, vars, Function.comp_def]

theorem scratch_withScratch {f : Slot α → List α} {r : Registry α} {v : Variable α} {s : Slot α}
    (hs : r.slots[v.id]? = some s) : (r.withScratch f).scratch v = f s := by
  simp [withScratch, Registry.scratch, hs]

/-! ## Loading a state -/

section Loading

variable [Scalar α]

/-- Some slots after a state was copied into all of them. -/
private theorem loadSlots_of_ok {x : Tensor α} {slots : List (Slot α)}
    (h : (loadSlots x slots).2 = .ok ()) :
    (loadSlots x slots).1 = slots.map (fun s => (s.load x).1) ∧
      ∀ s ∈ slots, (s.load x).2 = .ok () := by
  induction slots with
  | nil => simp [loadSlots]
  | cons s rest ih =>
      rcases hs : s.load x with ⟨s', fault | value⟩
      · simp [loadSlots, hs] at h
      · simp only [loadSlots, hs] at h ⊢
        obtain ⟨hslots, hall⟩ := ih h
        refine ⟨by simp [hs, hslots], fun t ht => ?_⟩
        rcases List.mem_cons.1 ht with rfl | ht
        · rw [hs]
        · exact hall t ht

private theorem loadSlots_ok {x : Tensor α} {slots : List (Slot α)}
    (h : ∀ s ∈ slots, (s.load x).2 = .ok ()) : (loadSlots x slots).2 = .ok () := by
  induction slots with
  | nil => rfl
  | cons s rest ih =>
      have hhead := h s (by simp)
      have htail := ih fun t ht => h t (by simp [ht])
      rcases hs : s.load x with ⟨s', result⟩
      rw [hs] at hhead
      dsimp only at hhead
      subst hhead
      simpa [loadSlots, hs] using htail

/-- What a load that succeeds leaves in the scratch vectors. -/
theorem load_of_ok {x : Tensor α} {r : Registry α} (h : (load x r).result = .ok ()) :
    load x r = ⟨r.withScratch fun s => (s.load x).1.scratch, [], .ok ()⟩ := by
  have hslots : (loadSlots x r.slots).2 = .ok () := h
  obtain ⟨heq, _⟩ := loadSlots_of_ok hslots
  simp only [load, Action.run, hslots, heq]
  rfl

/-- A load succeeds if all copies do. -/
theorem load_ok {x : Tensor α} {r : Registry α} (h : ∀ s ∈ r.slots, (s.load x).2 = .ok ()) :
    (load x r).result = .ok () :=
  loadSlots_ok h

@[simp] theorem map_length_load (x : Tensor α) (r : Registry α) :
    (load x r).state.slots.map (·.scratch.length) = r.slots.map (·.scratch.length) := by
  have hslots (slots : List (Slot α)) :
      (loadSlots x slots).1.map (·.scratch.length) = slots.map (·.scratch.length) := by
    induction slots with
    | nil => rfl
    | cons s rest ih =>
        have hlength := Slot.length_scratch_load x s
        simp only [loadSlots]
        split <;> simp_all
  exact hslots r.slots

theorem sound_load {r : Registry α} (hr : r.Sound) (x : Tensor α) : (load x r).state.Sound :=
  hr.of_eq (vars_load x r) rfl rfl (map_length_load x r)

omit [Scalar α] in
theorem sound_loadStorage {r : Registry α} (hr : r.Sound) (m : Memory α) :
    (r.loadStorage m).Sound :=
  hr.of_eq (vars_loadStorage m r) rfl rfl (by simp [loadStorage, Function.comp_def])

omit [Scalar α] in
/-- The scratch vector of a variable after a state was loaded. -/
theorem Sound.scratch_loaded {r : Registry α} (hr : r.Sound) (x : List α) {v : Variable α}
    (hv : v ∈ r.vars) :
    (r.withScratch fun s => (s.load (.ofVector x)).1.scratch).scratch v =
      (v.values (v.part x) (r.scratch v)).1 := by
  obtain ⟨s, hs, rfl⟩ := hr.exists_slot hv
  rw [scratch_withScratch hs, Registry.scratch, hs]
  rfl

end Loading

end Registry

end Separable
