import Separable.Proofs.Action
import Separable.Proofs.Registry

/-!
# Copies between states and memory

A state is written to the arrays of the caller variable by variable, and what the arrays hold is
gathered into a state in the same order. Both copies work in place: an array keeps its length, and
so does the state.

What a copy leaves behind is simple if no step undoes an earlier one. Slices of a state never
overlap, so a gathered state is what each variable gives, one after another. Arrays can overlap, as
the caller pleases; where they lie apart (`Memory.Apart`), each of them holds in the end what was
written to it, rounded to its kind.

## Main results

* `length_read_storeFrom`, `length_read_write`: arrays keep their lengths.
* `elements_storeFrom_of_apart`: arrays that lie apart from all that is written keep their elements.
* `of_storeFrom_eq_ok`: what each array holds after a state was written.
* `Sound.gather_eq`, `Sound.part_gathered`: what is gathered, as a whole and slice by slice.
-/

namespace Separable

variable {α : Type}

/-! ## Arrays that lie apart -/

namespace Memory

/-- Whether variables find as many entries in memory as they have. -/
def Holds (m : Memory α) (vars : List (Variable α)) : Prop :=
  ∀ v ∈ vars, (m.read v.storage).length = v.userDimension

end Memory

namespace Variable

variable [Scalar α]

theorem read_store (x : Tensor α) (v : Variable α) (m : Memory α) :
    (v.store x m).1.read v.storage =
      (v.valuesFrom x (m.read v.storage)).1.map v.storage.kind.round :=
  m.read_write_same _ _ (length_valuesFrom x v _)

theorem elements_store_of_apart (x : Tensor α) {v : Variable α} {m : Memory α} {s : Storage}
    (h : m.Apart v.storage s) : (v.store x m).1.elements s = m.elements s :=
  m.elements_write_of_apart _ h

theorem read_store_of_apart (x : Tensor α) {v : Variable α} {m : Memory α} {s : Storage}
    (h : m.Apart v.storage s) : (v.store x m).1.read s = m.read s :=
  m.read_write_of_apart _ h

theorem apart_store_iff (x : Tensor α) (v : Variable α) (m : Memory α) (s t : Storage) :
    (v.store x m).1.Apart s t ↔ m.Apart s t :=
  m.apart_write_iff s t v.storage _

end Variable

/-! ## Writing a state to memory -/

namespace Registry

theorem length_read_storeFrom [Scalar α] (x : Tensor α) (vars : List (Variable α)) (m : Memory α)
    (t : Storage) : ((storeFrom x vars m).1.read t).length = (m.read t).length := by
  induction vars generalizing m with
  | nil => rfl
  | cons v rest ih =>
      have hfirst : ((v.store x m).1.read t).length = (m.read t).length :=
        m.length_read_write v.storage t _
      unfold storeFrom
      split
      · next hstore =>
        rw [hstore] at hfirst
        exact hfirst
      · next hstore =>
        rw [hstore] at hfirst
        exact (ih _).trans hfirst

theorem length_read_write [Scalar α] (ref : Ref) (xs : List α) (r : Registry α) (m : Memory α)
    (t : Storage) : ((r.write ref xs m).state.read t).length = (m.read t).length := by
  rw [write, Action.state_run]
  cases r.resolve ref with
  | error fault => rfl
  | ok v =>
      dsimp only
      unfold Variable.write
      split
      · rfl
      · exact m.length_read_write v.storage t _

section Storing

variable [Scalar α] {x : Tensor α} {vars : List (Variable α)} {m : Memory α}

theorem elements_storeFrom_of_apart {s : Storage} (h : ∀ v ∈ vars, m.Apart v.storage s) :
    (storeFrom x vars m).1.elements s = m.elements s := by
  induction vars generalizing m with
  | nil => rfl
  | cons v rest ih =>
      obtain ⟨hv, hrest⟩ := List.forall_mem_cons.1 h
      have hstep := v.elements_store_of_apart x hv
      have hlater : ∀ w ∈ rest, (v.store x m).1.Apart w.storage s :=
        fun w hw => (v.apart_store_iff x m _ _).2 (hrest w hw)
      rcases hstore : v.store x m with ⟨m', fault | done⟩
      · rw [hstore] at hstep
        simpa only [storeFrom, hstore] using hstep
      · rw [hstore] at hstep hlater
        simp only [storeFrom, hstore]
        rw [ih hlater, hstep]

theorem read_storeFrom_of_apart {s : Storage} (h : ∀ v ∈ vars, m.Apart v.storage s) :
    (storeFrom x vars m).1.read s = m.read s :=
  congrArg (List.map Cell.number) (elements_storeFrom_of_apart h)

/-- If a state is written, then each variable can be, and its array holds what was written to it. -/
theorem of_storeFrom_eq_ok (happart : vars.Pairwise fun v w => m.Apart v.storage w.storage)
    (hok : (storeFrom x vars m).2 = .ok ()) {v : Variable α} (hv : v ∈ vars) :
    (v.valuesFrom x (m.read v.storage)).2 = .ok () ∧
      (storeFrom x vars m).1.read v.storage =
        (v.valuesFrom x (m.read v.storage)).1.map v.storage.kind.round := by
  induction vars generalizing m with
  | nil => cases hv
  | cons w rest ih =>
      obtain ⟨hw, hrest⟩ := List.pairwise_cons.1 happart
      have hothers : ∀ u ∈ rest, (w.store x m).1.read u.storage = m.read u.storage :=
        fun u hu => w.read_store_of_apart x (hw u hu)
      have hbehind : ∀ u ∈ rest, (w.store x m).1.Apart u.storage w.storage :=
        fun u hu => (w.apart_store_iff x m _ _).2 (hw u hu).symm
      have happart' : rest.Pairwise fun u u' => (w.store x m).1.Apart u.storage u'.storage :=
        hrest.imp fun huu' => (w.apart_store_iff x m _ _).2 huu'
      have hheld := w.read_store x m
      have houtcome : (w.store x m).2 = (w.valuesFrom x (m.read w.storage)).2 := rfl
      rcases hstore : w.store x m with ⟨m', fault | done⟩
      · simp only [storeFrom, hstore] at hok
        cases hok
      · rw [hstore] at hothers hbehind happart' hheld houtcome
        simp only [storeFrom, hstore] at hok ⊢
        rcases List.mem_cons.1 hv with rfl | hv
        · refine ⟨houtcome.symm, ?_⟩
          rw [read_storeFrom_of_apart hbehind, hheld]
        · have hvalues := ih happart' hok hv
          rwa [hothers v hv] at hvalues

end Storing

end Registry

/-! ## Gathering a state from memory -/

namespace Variable

variable [Scalar α]

/-- What a variable gives to a state of zeros. -/
def gathered (m : Memory α) (v : Variable α) : List α × Except Fault Unit :=
  match v.reparam with
  | none => (m.read v.storage, .ok ())
  | some c => c.toSolver (m.read v.storage) (zeros v.solverDimension)

theorem gathered_of_plain {v : Variable α} (hv : v.reparam = none) (m : Memory α) :
    v.gathered m = (m.read v.storage, .ok ()) := by
  rw [gathered, hv]

theorem length_gathered {v : Variable α} (hv : v.Fits) {m : Memory α}
    (hheld : (m.read v.storage).length = v.userDimension) :
    (v.gathered m).1.length = v.solverDimension := by
  unfold gathered
  cases hc : v.reparam with
  | none => exact hheld.trans (hv.plain hc).symm
  | some c => exact (c.toSolver_length _ _).trans (length_zeros _)

/-- A variable is gathered behind what was gathered before it. -/
theorem gather_append_zeros {v : Variable α} {m : Memory α} {done : List α}
    (hdone : done.length = v.offset) (hlength : (v.gathered m).1.length = v.solverDimension)
    (n : Nat) :
    v.gather m (done ++ zeros (v.solverDimension + n)) =
      ((done ++ (v.gathered m).1) ++ zeros n, (v.gathered m).2) := by
  have hzeros : (zeros (v.solverDimension + n) : List α) = zeros v.solverDimension ++ zeros n :=
    List.replicate_add _ _ _
  have hpart : v.part (done ++ (zeros v.solverDimension ++ zeros n)) = zeros v.solverDimension := by
    rw [part, slice, ← hdone, List.drop_left, List.take_left' (length_zeros _)]
  have hwrite : overwrite v.offset (v.gathered m).1 (done ++ (zeros v.solverDimension ++ zeros n)) =
      (done ++ (v.gathered m).1) ++ zeros n := by
    rw [← hdone, overwrite_append, overwrite_zero_append (hlength.trans (length_zeros _).symm),
      List.append_assoc]
  rw [hzeros, ← hwrite]
  unfold gather gathered
  cases v.reparam with
  | none => rfl
  | some c => simp only [hpart]

end Variable

namespace Registry

section Gathering

variable [Scalar α] {m : Memory α}

theorem Laid.gatherFrom_eq {vars : List (Variable α)} {start stop : Nat} (h : Laid start vars stop)
    (hlengths : ∀ v ∈ vars, (v.gathered m).1.length = v.solverDimension)
    (hok : ∀ v ∈ vars, (v.gathered m).2 = .ok ()) {done : List α} (hdone : done.length = start) :
    gatherFrom m vars (done ++ zeros (stop - start)) =
      .ok (done ++ vars.flatMap fun v => (v.gathered m).1) := by
  induction vars generalizing start done with
  | nil =>
      have hstop : start = stop := h
      simp [gatherFrom, hstop, zeros]
  | cons v rest ih =>
      obtain ⟨rfl, hrest⟩ := h
      obtain ⟨hlength, hlengths⟩ := List.forall_mem_cons.1 hlengths
      obtain ⟨hv, hok⟩ := List.forall_mem_cons.1 hok
      have hleft : stop - v.offset = v.solverDimension + (stop - v.stop) := by
        have hle := hrest.bounds.1
        unfold Variable.stop at hle ⊢
        omega
      have hnext : (done ++ (v.gathered m).1).length = v.stop := by
        rw [List.length_append, hdone, hlength, Variable.stop]
      rw [hleft, gatherFrom, Variable.gather_append_zeros hdone hlength, hv]
      dsimp only
      rw [ih hrest hlengths hok hnext, List.flatMap_cons, List.append_assoc]

variable {r : Registry α} (hr : r.Sound) (hheld : m.Holds r.vars)

include hr hheld

/-- A gathered state is what the variables give, one after another. -/
theorem Sound.gather_eq (hok : ∀ v ∈ r.vars, (v.gathered m).2 = .ok ()) :
    r.gather m = .ok (r.vars.flatMap fun v => (v.gathered m).1) := by
  have hlengths : ∀ v ∈ r.vars, (v.gathered m).1.length = v.solverDimension :=
    fun v hv => Variable.length_gathered (hr.fits v hv) (hheld v hv)
  have hnothing : ([] : List α).length = 0 := rfl
  simpa [gather] using hr.slices.gatherFrom_eq hlengths hok hnothing

theorem Sound.length_gathered :
    (r.vars.flatMap fun v => (v.gathered m).1).length = r.scalars :=
  (Nat.zero_add _).symm.trans <| hr.slices.length_flatMap fun v hv =>
    Variable.length_gathered (hr.fits v hv) (hheld v hv)

/-- The slice of a variable in a gathered state is what it gives. -/
theorem Sound.part_gathered {v : Variable α} (hv : v ∈ r.vars) :
    v.part (r.vars.flatMap fun v => (v.gathered m).1) = (v.gathered m).1 :=
  hr.slices.slice_flatMap
    (fun w hw => Variable.length_gathered (hr.fits w hw) (hheld w hw)) hv

end Gathering

end Registry

end Separable
