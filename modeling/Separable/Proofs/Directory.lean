import Mathlib.Algebra.Ring.Nat
import Separable.Proofs.Registry

/-!
# Registries as directories

A registry is filled by requests to register a storage, and each of them is granted or refused. A
storage may be asked for again, with another dimension or another reparameterization, and storages
that fit and such that do not may come in any order. Whatever the requests are, the registry is a
directory in the end: handles are the places of the variables, slices cut the state vector into
consecutive pieces, and a variable is found by its handle or by its storage, and else by neither.

Behind the look-up by storage stands the index of the registry, which has one entry for each storage
that was new when it was asked for. The index and the list of variables tell the same, and what a
request is answered with is what both of them have afterwards.

## Main results

* `Laid.offset_eq`, `Laid.stop_eq_sum`: where a slice begins, and where the last one ends.
* `Sound.resolve_handle_iff`, `Sound.resolve_storage_iff`: what is found.
* `Sound.answered_add`: what the answer to a request says of the registry that it leaves.
* `directory_after`: any course of requests makes a directory, entries last, and answers are true.
-/

namespace Separable

variable {α : Type}

/-- A request to register a storage. -/
structure Request (α : Type) where
  storage : Storage
  dimension : Option Int
  reparam : Option (Reparam α)

/-- The fault of a reference that means nothing. -/
def Ref.fault : Ref → Fault
  | handle index => .unknownHandle index
  | storage _ => .unknownStorage

namespace Registry

/-! ## Courses of requests -/

section Requests

variable [Scalar α]

/-- The registry after some requests, granted or refused. -/
def after (r : Registry α) (requests : List (Request α)) : Registry α :=
  requests.foldl (fun r q => (add q.storage q.dimension q.reparam r).state) r

theorem after_append (r : Registry α) (requests more : List (Request α)) :
    r.after (requests ++ more) = (r.after requests).after more :=
  List.foldl_append

theorem sound_after {r : Registry α} (hr : r.Sound) (requests : List (Request α)) :
    (r.after requests).Sound := by
  induction requests generalizing r with
  | nil => exact hr
  | cons q rest ih => exact ih (sound_add hr q.storage q.dimension q.reparam)

/-- Variables that are registered stay where they are. -/
theorem vars_after (r : Registry α) (requests : List (Request α)) :
    r.vars <+: (r.after requests).vars := by
  induction requests generalizing r with
  | nil => exact ⟨[], List.append_nil _⟩
  | cons q rest ih =>
      obtain ⟨more, hmore⟩ := exists_vars_add r q.storage q.dimension q.reparam
      have hstep : r.vars <+: (add q.storage q.dimension q.reparam r).state.vars :=
        ⟨more, hmore.symm⟩
      exact hstep.trans (ih _)

end Requests

/-! ## Slices -/

/-- A slice begins where the slices before it end. -/
theorem Laid.offset_eq {vars : List (Variable α)} {start stop : Nat} (h : Laid start vars stop)
    {k : Nat} {v : Variable α} (hv : vars[k]? = some v) :
    v.offset = start + ((vars.take k).map (·.solverDimension)).sum := by
  induction vars generalizing start k with
  | nil => cases hv
  | cons w rest ih =>
      obtain ⟨rfl, hrest⟩ := h
      cases k with
      | zero =>
          cases hv
          simp
      | succ k =>
          have htail := ih hrest hv
          rw [htail, List.take_succ_cons, List.map_cons, List.sum_cons, Variable.stop,
            Nat.add_assoc]

/-- The last slice ends where all of them end. -/
theorem Laid.stop_eq_sum {vars : List (Variable α)} {start stop : Nat} (h : Laid start vars stop) :
    stop = start + (vars.map (·.solverDimension)).sum := by
  induction vars generalizing start with
  | nil =>
      have hstop : start = stop := h
      simp [hstop]
  | cons w rest ih =>
      obtain ⟨rfl, hrest⟩ := h
      rw [ih hrest, List.map_cons, List.sum_cons, Variable.stop, Nat.add_assoc]

section Sound

variable {r : Registry α} (hr : r.Sound)

include hr

/-- Every place of the state belongs to one variable and to one only, and no other place does. -/
theorem Sound.lt_scalars_iff (k : Nat) : k < r.scalars ↔ ∃! v, v ∈ r.vars ∧ v.Covers k := by
  constructor
  · intro hk
    obtain ⟨v, hv, j, hj, rfl⟩ := hr.slices.exists_slice (Nat.zero_le k) hk
    have hcovers : v.Covers (v.offset + j) :=
      ⟨Nat.le_add_right _ _, Nat.add_lt_add_left hj _⟩
    refine ⟨v, ⟨hv, hcovers⟩, ?_⟩
    rintro w ⟨hw, hlow, hhigh⟩
    obtain ⟨_, hbelow⟩ := hcovers
    rcases hr.eq_or_apart hw hv with heq | hbefore | hbehind
    · exact heq
    · omega
    · omega
  · rintro ⟨v, ⟨hv, _, hk⟩, _⟩
    exact Nat.lt_of_lt_of_le hk (hr.stop_le hv)

/-! ## Looking up -/

/-- A variable stands at a place of the list exactly if its handle is the place. -/
theorem Sound.getElem?_eq_some_iff {k : Nat} {v : Variable α} :
    r.vars[k]? = some v ↔ v ∈ r.vars ∧ v.id = k := by
  constructor
  · intro hv
    have hk : k < r.vars.length := (List.getElem?_eq_some_iff.1 hv).1
    have hids : (r.vars.map (·.id))[k]? = some k := by
      rw [hr.ids, List.getElem?_range hk]
    rw [List.getElem?_map, hv, Option.map_some, Option.some_inj] at hids
    exact ⟨List.mem_of_getElem? hv, hids⟩
  · rintro ⟨hv, rfl⟩
    exact hr.getElem?_id hv

theorem Sound.resolve_handle_iff (index : Int) (v : Variable α) :
    r.resolve (.handle index) = .ok v ↔ v ∈ r.vars ∧ (v.id : Int) = index := by
  constructor
  · intro h
    simp only [resolve, findHandle?] at h
    split at h
    · next w hw =>
      cases h
      split at hw
      · next hindex =>
        obtain ⟨hv, hid⟩ := hr.getElem?_eq_some_iff.1 hw
        exact ⟨hv, by omega⟩
      · cases hw
    · cases h
  · rintro ⟨hv, rfl⟩
    simp only [resolve, findHandle?, Int.natCast_nonneg, if_true, Int.toNat_natCast,
      hr.getElem?_id hv]

theorem Sound.resolve_storage_iff (s : Storage) (v : Variable α) :
    r.resolve (.storage s) = .ok v ↔ v ∈ r.vars ∧ v.storage.key = s.key := by
  rw [← hr.findStorage?_iff, resolve]
  cases r.findStorage? s with
  | none => simp
  | some w => simp

/-- A storage is a member exactly if the index has it. -/
theorem Sound.contains_storage_eq (s : Storage) :
    r.contains (.storage s) = (r.index.find? s.key).isSome := by
  rw [contains, hr.find?_index, hr.findStorage?_eq, Option.isSome_map]

/-- A storage is looked up through the index. -/
theorem Sound.resolve_storage_eq (s : Storage) :
    r.resolve (.storage s) =
      match r.index.find? s.key with
      | some id => r.resolve (.handle id)
      | none => .error .unknownStorage := by
  rw [hr.find?_index, ← hr.findStorage?_eq, resolve]
  cases hfind : r.findStorage? s with
  | none => rfl
  | some v =>
      have hv := ((hr.findStorage?_iff s v).1 hfind).1
      exact ((hr.resolve_handle_iff v.id v).2 ⟨hv, rfl⟩).symm

end Sound

/-- Whether a reference means anything is whether it is found. -/
theorem contains_eq_false_iff (r : Registry α) (ref : Ref) :
    r.contains ref = false ↔ r.resolve ref = .error ref.fault := by
  cases ref with
  | handle index =>
      simp only [contains, resolve, Ref.fault]
      cases r.findHandle? index <;> simp
  | storage s =>
      simp only [contains, resolve, Ref.fault]
      cases r.findStorage? s <;> simp

theorem contains_handle_iff (r : Registry α) (index : Int) :
    r.contains (.handle index) = true ↔ 0 ≤ index ∧ index < r.vars.length := by
  simp only [contains, findHandle?]
  by_cases hindex : 0 ≤ index
  · simp [hindex, Int.toNat_lt hindex]
  · simp [hindex]

/-! ## Directories -/

/-- What every registry is that was filled by requests. -/
structure Directory (r : Registry α) : Prop where
  /-- Handles count from zero. -/
  handle : ∀ k (v : Variable α), r.vars[k]? = some v → v.id = k
  /-- A slice begins where the slices before it end. -/
  offset : ∀ k (v : Variable α), r.vars[k]? = some v →
    v.offset = ((r.vars.take k).map (·.solverDimension)).sum
  /-- The state vector is as long as all slices. -/
  scalars : r.scalars = (r.vars.map (·.solverDimension)).sum
  /-- The slices leave no gap, do not overlap, and do not reach beyond the state vector. -/
  partition : ∀ k, k < r.scalars ↔ ∃! v, v ∈ r.vars ∧ v.Covers k
  /-- Dimensions are those of the storage and the reparameterization. -/
  fits : ∀ v ∈ r.vars, v.Fits
  /-- No two variables have one storage. -/
  storages : (r.vars.map (·.storage.key)).Nodup
  /-- A handle finds the variable that has it, and nothing else. -/
  byHandle : ∀ (index : Int) (v : Variable α),
    r.resolve (.handle index) = .ok v ↔ v ∈ r.vars ∧ (v.id : Int) = index
  /-- A storage finds the variable that has it, and nothing else. -/
  byStorage : ∀ (s : Storage) (v : Variable α),
    r.resolve (.storage s) = .ok v ↔ v ∈ r.vars ∧ v.storage.key = s.key
  /-- The index has the storage of every variable, with the handle of the variable. -/
  index : r.index = r.vars.map fun v => (v.storage.key, v.id)
  /-- The storages of members are those of the index. -/
  members : ∀ s, r.contains (.storage s) = (r.index.find? s.key).isSome
  /-- Looking up a storage is looking up the handle that the index has for it. -/
  byIndex : ∀ s, r.resolve (.storage s) =
    match r.index.find? s.key with
    | some id => r.resolve (.handle id)
    | none => .error .unknownStorage
  /-- What is no member is not found, and everything else is. -/
  unknown : ∀ ref, r.contains ref = false ↔ r.resolve ref = .error ref.fault
  /-- The handles of members are the places of the list. -/
  handles : ∀ index : Int, r.contains (.handle index) = true ↔
    0 ≤ index ∧ index < r.vars.length

theorem Sound.directory {r : Registry α} (hr : r.Sound) : r.Directory where
  handle := fun _ _ hv => (hr.getElem?_eq_some_iff.1 hv).2
  offset := fun _ _ hv => (hr.slices.offset_eq hv).trans (Nat.zero_add _)
  scalars := hr.slices.stop_eq_sum.trans (Nat.zero_add _)
  partition := hr.lt_scalars_iff
  fits := hr.fits
  storages := hr.keys
  byHandle := hr.resolve_handle_iff
  byStorage := hr.resolve_storage_iff
  index := hr.index
  members := hr.contains_storage_eq
  byIndex := hr.resolve_storage_eq
  unknown := contains_eq_false_iff r
  handles := contains_handle_iff r

/-- What comes of a request for a storage that is registered already. -/
theorem Sound.check_of_mem {r : Registry α} (hr : r.Sound) {v : Variable α} (hv : v ∈ r.vars)
    (dimension : Option Int) (reparam : Option (Reparam α)) :
    r.check v.storage dimension reparam =
      if dimension.getD v.userDimension = v.userDimension then .ok (some v.id)
      else .error (.registeredAs v.userDimension (dimension.getD v.userDimension)) := by
  have hfits := hr.fits v hv
  simp only [check, hfits.length, hfits.floating, hr.findStorage?_of_mem hv, eq_comm]

/-- A storage that is answered for at once is the storage of a variable. -/
theorem exists_of_check_some {r : Registry α} {s : Storage} {dimension : Option Int}
    {reparam : Option (Reparam α)} {id : Nat} (h : r.check s dimension reparam = .ok (some id)) :
    ∃ v, r.findStorage? s = some v ∧ v.id = id := by
  unfold check at h
  split at h
  · cases h
  · cases h
  · dsimp only at h
    split at h
    · next v hv =>
      split at h
      · cases h
        exact ⟨v, hv, rfl⟩
      · cases h
    · split at h
      · split at h
        · cases h
        · split at h <;> cases h
      · cases h

/-- What the answer to a request says of the registry before it and after it. -/
structure Answered (r : Registry α) (q : Request α) (answer : Except Fault Nat)
    (after : Registry α) : Prop where
  /-- A refusal changes nothing. -/
  refused : ∀ fault, answer = .error fault → after = r
  /-- A handle that is granted leads to the variable of the storage, and so does the storage. -/
  found : ∀ id, answer = .ok id → ∃ v, after.resolve (.handle id) = .ok v ∧
    after.resolve (.storage q.storage) = .ok v ∧ v.storage.key = q.storage.key
  /-- Nothing changes for a storage that is known. -/
  known : r.contains (.storage q.storage) = true → after = r
  /-- A new storage that is granted a handle makes one more variable, behind all others, and the
  state vector grows by the scalars of the variable. -/
  new : ∀ id, answer = .ok id → r.contains (.storage q.storage) = false →
    ∃ v, after.vars = r.vars ++ [v] ∧ v.storage = q.storage ∧ v.reparam = q.reparam ∧
      id = r.vars.length ∧ after.scalars = r.scalars + v.solverDimension

variable [Scalar α]

/-- A storage that is registered already is known to the registry, whatever else is asked for. -/
theorem state_add_of_contains {r : Registry α} {s : Storage}
    (h : r.contains (.storage s) = true) (dimension : Option Int) (reparam : Option (Reparam α)) :
    (add s dimension reparam r).state = r := by
  cases hcheck : r.check s dimension reparam with
  | error fault => rw [add_of_check_error hcheck]
  | ok known =>
      cases known with
      | some id => rw [add_of_check_some hcheck]
      | none =>
          rw [contains, (of_check_none hcheck).1] at h
          cases h

theorem Sound.answered_add {r : Registry α} (hr : r.Sound) (q : Request α) :
    r.Answered q (add q.storage q.dimension q.reparam r).result
      (add q.storage q.dimension q.reparam r).state := by
  have hafter := sound_add hr q.storage q.dimension q.reparam
  have hknown := fun h : r.contains (.storage q.storage) = true =>
    state_add_of_contains h q.dimension q.reparam
  cases hcheck : r.check q.storage q.dimension q.reparam with
  | error fault =>
      rw [add_of_check_error hcheck]
      exact ⟨fun _ _ => rfl, nofun, fun _ => rfl, nofun⟩
  | ok known =>
      cases known with
      | some id =>
          rw [add_of_check_some hcheck]
          obtain ⟨v, hv, hid⟩ := exists_of_check_some hcheck
          obtain ⟨hmem, hkey⟩ := (hr.findStorage?_iff q.storage v).1 hv
          refine ⟨nofun, ?_, fun _ => rfl, ?_⟩
          · rintro _ ⟨⟩
            exact ⟨v, (hr.resolve_handle_iff id v).2 ⟨hmem, by rw [hid]⟩,
              (hr.resolve_storage_iff q.storage v).2 ⟨hmem, hkey⟩, hkey⟩
          · intro _ _ hnew
            rw [contains, hv] at hnew
            cases hnew
      | none =>
          rw [add_of_check_none hcheck] at hafter hknown ⊢
          have hmem : r.newVariable q.storage q.reparam ∈ (r.push q.storage q.reparam).vars := by
            simp
          refine ⟨nofun, ?_, hknown, ?_⟩
          · rintro _ ⟨⟩
            exact ⟨r.newVariable q.storage q.reparam,
              (hafter.resolve_handle_iff _ _).2 ⟨hmem, rfl⟩,
              (hafter.resolve_storage_iff _ _).2 ⟨hmem, rfl⟩, rfl⟩
          · rintro _ ⟨⟩ _
            exact ⟨r.newVariable q.storage q.reparam, vars_push r q.storage q.reparam, rfl, rfl,
              (length_vars r).symm, scalars_push r q.storage q.reparam⟩

/-- Any course of requests fills a directory. Requests that follow leave every variable where it is
and as it is, and a storage that is asked for again is known by its handle, if the dimension is the
right one or none is given. What the next request is answered with is what the directory has. -/
theorem directory_after (requests more : List (Request α)) :
    (empty.after requests).Directory ∧
    (empty.after requests).vars <+: (empty.after (requests ++ more)).vars ∧
    (∀ v ∈ (empty.after requests).vars, ∀ dimension reparam,
      add v.storage dimension reparam (empty.after (requests ++ more)) =
        ⟨empty.after (requests ++ more), [],
          if dimension.getD v.userDimension = v.userDimension then .ok v.id
          else .error (.registeredAs v.userDimension (dimension.getD v.userDimension))⟩) ∧
    ∀ q : Request α, (empty.after requests).Answered q
      (add q.storage q.dimension q.reparam (empty.after requests)).result
      (empty.after (requests ++ [q])) := by
  have hbefore : (empty.after requests).Sound := sound_after sound_empty requests
  have hafter : (empty.after (requests ++ more)).Sound := sound_after sound_empty _
  have hlasts : (empty.after requests).vars <+: (empty.after (requests ++ more)).vars := by
    rw [after_append]
    exact vars_after _ more
  refine ⟨hbefore.directory, hlasts, fun v hv dimension reparam => ?_, fun q => ?_⟩
  · have hcheck := hafter.check_of_mem (hlasts.subset hv) dimension reparam
    by_cases hdim : dimension.getD v.userDimension = v.userDimension
    · rw [if_pos hdim] at hcheck ⊢
      exact add_of_check_some hcheck
    · rw [if_neg hdim] at hcheck ⊢
      exact add_of_check_error hcheck
  · rw [after_append]
    exact hbefore.answered_add q

/-- A course of requests: the first and the third are granted, the second asks for too much, and
the last one is for a storage that is known. -/
def fourRequests : List (Request Float) :=
  let first : Storage := ⟨"a", 0, true, [1], .double⟩
  let second : Storage := ⟨"b", 1, true, [2], .double⟩
  let tall : Reparam Float := .linear [[1], [1]] [[1, 0]] [0, 0]
  [⟨first, none, none⟩, ⟨second, some 3, none⟩, ⟨second, none, some tall⟩,
    ⟨first, some 1, some tall⟩]

/-- Two variables come of the four requests, and the handle with which a further request for the
first storage is answered leads to its variable. -/
theorem directory_after_four :
    let r := empty.after fourRequests
    (r.vars.map fun v => (v.id, v.offset, v.solverDimension)) = [(0, 0, 1), (1, 1, 1)] ∧
      r.scalars = 2 ∧ r.index = [("a", 0), ("b", 1)] ∧ r.Directory ∧
      ∃ v, (r.after [⟨⟨"a", 0, true, [1], .double⟩, none, none⟩]).resolve (.handle 0) = .ok v ∧
        v.storage.key = "a" := by
  obtain ⟨hdirectory, -, -, hanswered⟩ := directory_after fourRequests []
  obtain ⟨v, hv, -, hkey⟩ :=
    (hanswered ⟨⟨"a", 0, true, [1], .double⟩, none, none⟩).found 0 (by decide)
  rw [after_append] at hv
  exact ⟨by decide, by decide, by decide, hdirectory, v, hv, hkey⟩

end Registry

end Separable
