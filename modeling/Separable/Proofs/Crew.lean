import Separable.Crew
import Separable.Proofs.Partition

/-!
# What a crew does to its terms

`Crew.run` shares one list of terms among workers that know their chunks by position. Since the
chunks follow each other and cover the list, each worker may be looked at alone: `Worker.through`
takes it through its own piece of the list, up to its first fault, and `run_start` says that the
crew ends with the workers side by side and with the pieces one after another.

What a crew reports then depends on the terms alone, if the result of each term does not depend on
the worker that evaluates it (`Steady`): all succeed, or the first term of the whole list that
fails is the one that is reported, however the list was cut.

## Main results

* `run_start`: a run is every worker's way through its own piece.
* `outcome_run_of_fault`: the reported fault is that of the first failing term of the list.
* `outcome_run_of_mem`: if a term fails, then the fault of some term comes out, fatal ones included.
* `run_of_ok`: without a failing term, the values of the pieces are added up.
* `turn_eq_some_iff`, `of_step`: what one turn does.
* `run_keeps`, `alike_run`, `forall_run`: what every turn keeps, and what every evaluation keeps, a
  run keeps.
-/

namespace Separable

open Scalar

variable {α : Type} [Scalar α]

/-- What comes out of a crew for a fault that a worker meets. -/
def Fault.escaped (cause : Fault) : Fault := if cause.isFatal then cause else .concurrent cause

namespace Worker

/-- A worker before its chunk. -/
def fresh (scratch : Scratch α) (chunk : Nat × Nat) : Worker α :=
  ⟨scratch, chunk.1, chunk.2, 0, none⟩

/-- The worker after some terms, which it takes up to its first fault, and the terms then. -/
def through (task : Task α) : List (Bound α) → Worker α → Worker α × List (Bound α)
  | [], w => (w, [])
  | b :: rest, w =>
    match task w.scratch b with
    | ((scratch, b), .error fault) => (w.record scratch (.error fault), b :: rest)
    | ((scratch, b), .ok value) =>
      let (w, rest) := through task rest (w.record scratch (.ok value))
      (w, b :: rest)

@[simp] theorem length_through (task : Task α) (chunk : List (Bound α)) (w : Worker α) :
    (w.through task chunk).2.length = chunk.length := by
  induction chunk generalizing w with
  | nil => rfl
  | cons b rest ih =>
      simp only [through]
      split <;> simp [ih]

@[simp] theorem scratch_record (w : Worker α) (scratch : Scratch α) (result : Except Fault α) :
    (w.record scratch result).scratch = scratch := by
  cases result <;> rfl

end Worker

namespace Crew

omit [Scalar α] in
private theorem set_of_getElem? {β : Type} {xs : List β} {i : Nat} {x : β} (h : xs[i]? = some x) :
    xs.set i x = xs := by
  obtain ⟨_, rfl⟩ := List.getElem?_eq_some_iff.1 h
  simp

/-! ## Runs -/

/-- What a turn of worker `w` is: the worker has a term to evaluate, and keeps the term and what it
gets for it. -/
theorem turn_eq_some_iff {task : Task α} {c d : Crew α} {w : Nat} :
    c.turn task w = some d ↔
      ∃ worker b, c.workers[w]? = some worker ∧ worker.isBusy = true ∧
        c.terms[worker.next]? = some b ∧
        d = ⟨c.workers.set w (worker.record (task worker.scratch b).1.1 (task worker.scratch b).2),
          c.terms.set worker.next (task worker.scratch b).1.2⟩ := by
  constructor
  · intro hturn
    unfold turn at hturn
    split at hturn
    · cases hturn
    · next worker hw =>
      split at hturn
      · next hbusy =>
        split at hturn
        · cases hturn
        · next b hb => exact ⟨worker, b, hw, hbusy, hb, (Option.some.inj hturn).symm⟩
      · cases hturn
  · rintro ⟨worker, b, hw, hbusy, hb, rfl⟩
    simp [turn, hw, hbusy, hb]

/-- What a turn of some worker is. -/
theorem of_step {task : Task α} {c d : Crew α} (h : Step task c d) :
    ∃ w worker b, c.workers[w]? = some worker ∧ c.terms[worker.next]? = some b ∧
      d = ⟨c.workers.set w (worker.record (task worker.scratch b).1.1 (task worker.scratch b).2),
        c.terms.set worker.next (task worker.scratch b).1.2⟩ := by
  obtain ⟨w, hturn⟩ := h
  obtain ⟨worker, b, hw, _, hb, hd⟩ := turn_eq_some_iff.1 hturn
  exact ⟨w, worker, b, hw, hb, hd⟩

/-- What every turn keeps, a run keeps. -/
theorem run_keeps {task : Task α} {P : Crew α → Prop} (h : ∀ c d, Step task c d → P c → P d)
    {c : Crew α} (hc : P c) : P (c.run task) := by
  have hwork (c : Crew α) (w turns : Nat) (hc : P c) : P (c.work task w turns) := by
    induction turns generalizing c with
    | zero => exact hc
    | succ turns ih =>
        simp only [work]
        cases hturn : c.turn task w with
        | none => exact hc
        | some d => exact ih d (h c d ⟨w, hturn⟩ hc)
  unfold run
  generalize List.range c.workers.length = order
  induction order generalizing c with
  | nil => exact hc
  | cons w order ih => exact ih (hwork c w (c.turnsLeft w) hc)

/-! ## What every evaluation keeps -/

section Keeps

variable {β γ : Type}

/-- Whether an evaluation never changes a view of the buffers and a view of the term. -/
def Keeps (task : Task α) (ofScratch : Scratch α → β) (ofTerm : Bound α → γ) : Prop :=
  ∀ s b, ofScratch (task s b).1.1 = ofScratch s ∧ ofTerm (task s b).1.2 = ofTerm b

/-- Whether two crews agree in a view of the workers' buffers and a view of the terms. -/
def Alike (ofScratch : Scratch α → β) (ofTerm : Bound α → γ) (c d : Crew α) : Prop :=
  d.workers.map (ofScratch ·.scratch) = c.workers.map (ofScratch ·.scratch) ∧
    d.terms.map ofTerm = c.terms.map ofTerm

variable {task : Task α} {ofScratch : Scratch α → β} {ofTerm : Bound α → γ}

theorem alike_step (h : Keeps task ofScratch ofTerm) {c d : Crew α} (hstep : Step task c d) :
    Alike ofScratch ofTerm c d := by
  obtain ⟨w, worker, b, hw, hb, rfl⟩ := of_step hstep
  obtain ⟨hscratch, hterm⟩ := h worker.scratch b
  constructor
  · rw [List.map_set, Worker.scratch_record, hscratch]
    exact set_of_getElem? (by simp [hw])
  · rw [List.map_set, hterm]
    exact set_of_getElem? (by simp [hb])

/-- What every evaluation keeps, a run keeps, whether terms fail or not. -/
theorem alike_run (h : Keeps task ofScratch ofTerm) (c : Crew α) :
    Alike ofScratch ofTerm c (c.run task) := by
  refine run_keeps (fun d e hstep hd => ?_) ⟨rfl, rfl⟩
  obtain ⟨hworkers, hterms⟩ := alike_step h hstep
  exact ⟨hworkers.trans hd.1, hterms.trans hd.2⟩

end Keeps

/-- What every evaluation keeps of the buffers at terms of some kind, and of terms of that kind, a
run keeps of all buffers and terms. -/
theorem forall_run {task : Task α} {P : Scratch α → Prop} {Q : Bound α → Prop}
    (h : ∀ s b, P s → Q b → P (task s b).1.1 ∧ Q (task s b).1.2) {c : Crew α}
    (hworkers : ∀ w ∈ c.workers, P w.scratch) (hterms : ∀ b ∈ c.terms, Q b) :
    (∀ w ∈ (c.run task).workers, P w.scratch) ∧ ∀ b ∈ (c.run task).terms, Q b := by
  refine run_keeps (P := fun c => (∀ w ∈ c.workers, P w.scratch) ∧ ∀ b ∈ c.terms, Q b)
    (fun c d hstep hc => ?_) ⟨hworkers, hterms⟩
  obtain ⟨w, worker, b, hw, hb, rfl⟩ := of_step hstep
  obtain ⟨hscratch, hterm⟩ := h worker.scratch b (hc.1 _ (List.mem_of_getElem? hw))
    (hc.2 _ (List.mem_of_getElem? hb))
  refine ⟨fun other hother => ?_, fun other hother => ?_⟩
  · rcases List.mem_or_eq_of_mem_set hother with hother | rfl
    · exact hc.1 other hother
    · rw [Worker.scratch_record]
      exact hscratch
  · rcases List.mem_or_eq_of_mem_set hother with hother | rfl
    · exact hc.2 other hother
    · exact hterm

/-! ## One worker at its chunk -/

theorem turn_of_not_busy {task : Task α} {c : Crew α} {w : Nat} {worker : Worker α}
    (hw : c.workers[w]? = some worker) (h : worker.isBusy = false) : c.turn task w = none := by
  simp [turn, hw, h]

theorem work_of_not_busy {task : Task α} {c : Crew α} {w : Nat} {worker : Worker α}
    (hw : c.workers[w]? = some worker) (h : worker.isBusy = false) (turns : Nat) :
    c.work task w turns = c := by
  cases turns with
  | zero => rfl
  | succ turns => simp [work, turn_of_not_busy hw h]

/-- A turn of a worker that stands at the first term of `b :: rest`. -/
private theorem turn_of_busy (task : Task α) {w : Nat} (pre rest post : List (Bound α))
    (b : Bound α) {workers : List (Worker α)} {worker : Worker α}
    (hw : workers[w]? = some worker) (hfault : worker.fault = none)
    (hnext : worker.next = pre.length) (hstop : pre.length < worker.stop) :
    (⟨workers, pre ++ (b :: rest) ++ post⟩ : Crew α).turn task w =
      some ⟨workers.set w (worker.record (task worker.scratch b).1.1 (task worker.scratch b).2),
        pre ++ ((task worker.scratch b).1.2 :: rest) ++ post⟩ := by
  have hbusy : worker.isBusy = true := by simp [Worker.isBusy, hfault, hnext, hstop]
  have hget : (pre ++ (b :: rest) ++ post)[worker.next]? = some b := by simp [hnext]
  have hset (d : Bound α) :
      (pre ++ (b :: rest) ++ post).set worker.next d = pre ++ (d :: rest) ++ post := by
    simp [hnext]
  simp only [turn, hw, hbusy, if_true, hget, hset]

/-- A worker that takes as many turns as its chunk has terms goes through the chunk, and leaves the
terms before and after it alone. -/
theorem work_eq_through (task : Task α) {w : Nat} (pre chunk post : List (Bound α))
    {workers : List (Worker α)} {worker : Worker α} (hw : workers[w]? = some worker)
    (hfault : worker.fault = none) (hnext : worker.next = pre.length)
    (hstop : worker.stop = pre.length + chunk.length) :
    (⟨workers, pre ++ chunk ++ post⟩ : Crew α).work task w chunk.length =
      ⟨workers.set w (worker.through task chunk).1,
        pre ++ (worker.through task chunk).2 ++ post⟩ := by
  have hlt : w < workers.length := (List.getElem?_eq_some_iff.1 hw).1
  induction chunk generalizing pre workers worker with
  | nil =>
      simp [work, Worker.through, set_of_getElem? hw]
  | cons b rest ih =>
      have hbusy : pre.length < worker.stop := by simp [hstop]
      have hturn := turn_of_busy task pre rest post b hw hfault hnext hbusy
      simp only [List.length_cons, work, hturn]
      rcases hresult : task worker.scratch b with ⟨⟨scratch, b'⟩, fault | value⟩
      · -- The worker has failed and takes no further turn.
        have hidle : (workers.set w (worker.record scratch (.error fault)))[w]? =
            some (worker.record scratch (.error fault)) := by simp [hlt]
        have hstays : (⟨workers.set w (worker.record scratch (.error fault)),
            pre ++ (b' :: rest) ++ post⟩ : Crew α).work task w rest.length = _ :=
          work_of_not_busy hidle (by simp [Worker.record, Worker.isBusy]) rest.length
        simp only [hstays, Worker.through, hresult]
      · have hnow : (workers.set w (worker.record scratch (.ok value)))[w]? =
            some (worker.record scratch (.ok value)) := by simp [hlt]
        have hrest := ih (pre ++ [b']) hnow
          (by simpa [Worker.record] using hfault) (by simp [Worker.record, hnext])
          (by simp [Worker.record, hstop]; omega) (by simpa using hlt)
        simp only [List.append_assoc, List.cons_append, List.nil_append, List.set_set] at hrest ⊢
        rw [hrest]
        simp [Worker.through, hresult]

/-! ## All workers, one after another -/

/-- Whether workers stand at the beginnings of their chunks, which follow each other from `start`
on. -/
def Assigned : (start : Nat) → List (Worker α × List (Bound α)) → Prop
  | _, [] => True
  | start, (w, chunk) :: rest =>
    w.fault = none ∧ w.next = start ∧ w.stop = start + chunk.length ∧ Assigned w.stop rest

/-- The workers that are left finish one after another. -/
private theorem foldl_work (task : Task α) (finished : List (Worker α)) (pre : List (Bound α))
    (rest : List (Worker α × List (Bound α))) (h : Assigned pre.length rest) :
    (List.range' finished.length rest.length).foldl (fun c w => c.work task w (c.turnsLeft w))
        (⟨finished ++ rest.map (·.1), pre ++ (rest.map (·.2)).flatten⟩ : Crew α) =
      ⟨finished ++ rest.map (fun p => (p.1.through task p.2).1),
        pre ++ (rest.map fun p => (p.1.through task p.2).2).flatten⟩ := by
  induction rest generalizing finished pre with
  | nil => simp
  | cons p rest ih =>
      obtain ⟨worker, chunk⟩ := p
      obtain ⟨hfault, hnext, hstop, hrest⟩ := h
      have hw : (finished ++ worker :: rest.map (·.1))[finished.length]? = some worker := by simp
      have hturns : (⟨finished ++ worker :: rest.map (·.1),
          pre ++ (chunk ++ (rest.map (·.2)).flatten)⟩ : Crew α).turnsLeft finished.length =
          chunk.length := by
        simp [turnsLeft, hnext, hstop]
      have hwork := work_eq_through task pre chunk (rest.map (·.2)).flatten hw hfault hnext hstop
      have hnextAssigned : Assigned (pre ++ (worker.through task chunk).2).length rest := by
        simpa [hstop] using hrest
      have htail := ih (finished ++ [(worker.through task chunk).1])
        (pre ++ (worker.through task chunk).2) hnextAssigned
      simp only [List.length_cons, List.range'_succ, List.foldl_cons, List.map_cons,
        List.flatten_cons]
      rw [hturns, ← List.append_assoc pre, hwork]
      simpa using htail

/-- All workers go through their chunks. -/
theorem run_eq_through (task : Task α) (crew : List (Worker α × List (Bound α)))
    (h : Assigned 0 crew) :
    (⟨crew.map (·.1), (crew.map (·.2)).flatten⟩ : Crew α).run task =
      ⟨crew.map (fun p => (p.1.through task p.2).1),
        (crew.map fun p => (p.1.through task p.2).2).flatten⟩ := by
  have hfold := foldl_work task [] [] crew h
  simpa [run, List.range_eq_range'] using hfold

/-! ## A crew at the terms of a graph -/

/-- The pieces of some terms that this many workers have to evaluate. -/
def pieces (terms : List (Bound α)) (workers : Nat) : List (List (Bound α)) :=
  (Partition.assignments terms workers).map (·.2)

omit [Scalar α] in
theorem flatten_pieces (terms : List (Bound α)) {workers : Nat} (h : 0 < workers) :
    (pieces terms workers).flatten = terms :=
  Partition.flatten_assignments terms h

omit [Scalar α] in
@[simp] theorem length_pieces (terms : List (Bound α)) (workers : Nat) :
    (pieces terms workers).length = workers := by
  simp [pieces]

/-- The workers of a pool at the beginnings of their chunks, each with its piece of the terms. -/
def lineup (terms : List (Bound α)) (scratch : List (Scratch α)) :
    List (Worker α × List (Bound α)) :=
  (scratch.zip (Partition.assignments terms scratch.length)).map fun (s, part) =>
    (Worker.fresh s part.1, part.2)

private theorem assigned_zip (scratch : List (Scratch α)) (start : Nat)
    (parts : List ((Nat × Nat) × List (Bound α))) (h : Partition.Consecutive start parts) :
    Assigned start ((scratch.zip parts).map fun (s, part) => (Worker.fresh s part.1, part.2)) := by
  induction parts generalizing start scratch with
  | nil => simp [Assigned]
  | cons part parts ih =>
      obtain ⟨chunk, piece⟩ := part
      obtain ⟨hfirst, hstop, hrest⟩ := h
      cases scratch with
      | nil => trivial
      | cons s scratch => exact ⟨rfl, hfirst, hstop, ih scratch chunk.2 hrest⟩

theorem assigned_lineup (terms : List (Bound α)) (scratch : List (Scratch α))
    (h : 0 < scratch.length) : Assigned 0 (lineup terms scratch) :=
  assigned_zip scratch 0 _ (Partition.consecutive_assignments terms h)

theorem map_snd_lineup (terms : List (Bound α)) (scratch : List (Scratch α)) :
    (lineup terms scratch).map (·.2) = pieces terms scratch.length := by
  have hzip : (scratch.zip (Partition.assignments terms scratch.length)).map Prod.snd =
      Partition.assignments terms scratch.length := List.map_snd_zip (by simp)
  rw [lineup, List.map_map, pieces]
  conv_rhs => rw [← hzip, List.map_map]
  rfl

theorem start_eq_lineup {terms : List (Bound α)} {p : Pool α} (h : 0 < p.scratch.length)
    (hchunks : p.chunks = Partition.chunks terms.length p.scratch.length) :
    start terms p =
      ⟨(lineup terms p.scratch).map (·.1), ((lineup terms p.scratch).map (·.2)).flatten⟩ := by
  rw [map_snd_lineup, flatten_pieces terms h, start, hchunks]
  simp only [lineup, Partition.assignments, List.zip_map_right, List.map_map]
  rw [List.map_zip_eq_zipWith]
  rfl

/-- A run over the terms of a graph is every worker's way through its own piece. -/
theorem run_start (task : Task α) {terms : List (Bound α)} {p : Pool α}
    (h : 0 < p.scratch.length)
    (hchunks : p.chunks = Partition.chunks terms.length p.scratch.length) :
    (start terms p).run task =
      ⟨(lineup terms p.scratch).map (fun q => (q.1.through task q.2).1),
        ((lineup terms p.scratch).map fun q => (q.1.through task q.2).2).flatten⟩ := by
  rw [start_eq_lineup h hchunks]
  exact run_eq_through task _ (assigned_lineup terms p.scratch h)

/-- A crew reports a sum if no worker has failed, and then the sum of the workers' sums. -/
theorem outcome_eq_ok_iff {c : Crew α} {total : α} :
    c.outcome = .ok total ↔
      (∀ w ∈ c.workers, w.fault = none) ∧ sum (c.workers.map (·.value)) = total := by
  rw [← List.filterMap_eq_nil_iff]
  change _ ↔ c.faults = [] ∧ _
  unfold outcome
  cases hfaults : c.faults with
  | nil => simp
  | cons fault rest => cases hfatal : (fault :: rest).find? Fault.isFatal <;> simp

/-! ## Results that do not depend on the worker -/

/-- The fault of the first of some terms that fails. -/
def firstFault (result : Bound α → Except Fault α) (terms : List (Bound α)) : Option Fault :=
  terms.findSome? fun b =>
    match result b with
    | .error fault => some fault
    | .ok _ => none

/-- The values of the terms that succeed. -/
def valuesOf (result : Bound α → Except Fault α) (terms : List (Bound α)) : List α :=
  terms.filterMap fun b => (result b).toOption

/-- Whether every worker whose buffers fit gets the same result for each term, leaves the same term
behind, and has buffers that fit afterwards. -/
structure Steady (task : Task α) (fits : Scratch α → Prop) (result : Bound α → Except Fault α)
    (after : Bound α → Bound α) (terms : List (Bound α)) : Prop where
  result_eq : ∀ s, fits s → ∀ b ∈ terms, (task s b).2 = result b
  term_eq : ∀ s, fits s → ∀ b ∈ terms, (task s b).1.2 = after b
  fits_after : ∀ s, fits s → ∀ b ∈ terms, fits (task s b).1.1

section Steady

variable {task : Task α} {fits : Scratch α → Prop} {result : Bound α → Except Fault α}
  {after : Bound α → Bound α}

omit [Scalar α] in
theorem Steady.mono {terms part : List (Bound α)} (h : Steady task fits result after terms)
    (hsub : ∀ b ∈ part, b ∈ terms) : Steady task fits result after part :=
  ⟨fun s hs b hb => h.result_eq s hs b (hsub b hb),
    fun s hs b hb => h.term_eq s hs b (hsub b hb),
    fun s hs b hb => h.fits_after s hs b (hsub b hb)⟩

omit [Scalar α] in
/-- The evaluation of the first of some terms, taken apart. -/
private theorem Steady.head {b : Bound α} {rest : List (Bound α)}
    (h : Steady task fits result after (b :: rest)) {s : Scratch α} (hs : fits s) :
    ∃ scratch, task s b = ((scratch, after b), result b) ∧ fits scratch := by
  have hresult := h.result_eq s hs b (by simp)
  have hterm := h.term_eq s hs b (by simp)
  have hfits := h.fits_after s hs b (by simp)
  rcases htask : task s b with ⟨⟨scratch, b'⟩, r⟩
  rw [htask] at hresult hterm hfits
  exact ⟨scratch, by rw [← hresult, ← hterm], hfits⟩

omit [Scalar α] in
private theorem Steady.tail {b : Bound α} {rest : List (Bound α)}
    (h : Steady task fits result after (b :: rest)) : Steady task fits result after rest :=
  h.mono fun _ hd => List.mem_cons_of_mem b hd

/-- A worker stops at the first failing term of its chunk. -/
theorem fault_through {chunk : List (Bound α)} (h : Steady task fits result after chunk)
    {w : Worker α} (hw : fits w.scratch) (hfault : w.fault = none) :
    (w.through task chunk).1.fault = firstFault result chunk := by
  induction chunk generalizing w with
  | nil => simpa [Worker.through, firstFault] using hfault
  | cons b rest ih =>
      obtain ⟨scratch, htask, hscratch⟩ := h.head hw
      cases hb : result b with
      | error fault => simp [Worker.through, htask, hb, Worker.record, firstFault]
      | ok value =>
          have hlater := ih h.tail (w := w.record scratch (.ok value)) hscratch hfault
          simpa [Worker.through, htask, hb, firstFault] using hlater

/-- Without a failing term in its chunk, a worker hands its buffers from term to term, adds up the
values in order, and leaves every term as its evaluation does. -/
theorem through_of_ok {chunk : List (Bound α)} (h : Steady task fits result after chunk)
    {w : Worker α} (hw : fits w.scratch) (hok : firstFault result chunk = none) :
    w.through task chunk =
      ({ w with
          scratch := chunk.foldl (fun s b => (task s b).1.1) w.scratch
          next := w.next + chunk.length
          value := (valuesOf result chunk).foldl (· + ·) w.value }, chunk.map after) := by
  induction chunk generalizing w with
  | nil => rfl
  | cons b rest ih =>
      obtain ⟨scratch, htask, hscratch⟩ := h.head hw
      cases hb : result b with
      | error fault => simp [firstFault, hb] at hok
      | ok value =>
          have hokRest : firstFault result rest = none := by simpa [firstFault, hb] using hok
          have hlater := ih h.tail (w := w.record scratch (.ok value)) hscratch hokRest
          simp only [Worker.through, htask, hb]
          rw [hlater]
          simp [Worker.record, valuesOf, hb, htask, Except.toOption, Nat.add_comm,
            Nat.add_assoc]

/-! ## What a crew reports -/

omit [Scalar α] in
theorem firstFault_append (some more : List (Bound α)) :
    firstFault result (some ++ more) =
      (firstFault result some).or (firstFault result more) := by
  simp [firstFault]

omit [Scalar α] in
theorem firstFault_eq_none_iff (terms : List (Bound α)) :
    firstFault result terms = none ↔ ∀ b ∈ terms, ∃ value, result b = .ok value := by
  simp only [firstFault, List.findSome?_eq_none_iff]
  refine forall_congr' fun b => forall_congr' fun _ => ?_
  cases result b <;> simp

omit [Scalar α] in
/-- The first fault of a list is that of its first term that fails. -/
theorem exists_of_firstFault_eq_some {terms : List (Bound α)} {fault : Fault}
    (h : firstFault result terms = some fault) :
    ∃ before b rest, terms = before ++ b :: rest ∧ result b = .error fault ∧
      ∀ d ∈ before, ∃ value, result d = .ok value := by
  simp only [firstFault, List.findSome?_eq_some_iff] at h
  obtain ⟨before, b, rest, hterms, hb, hbefore⟩ := h
  refine ⟨before, b, rest, hterms, ?_, ?_⟩
  · cases hr : result b with
    | error other => simpa [hr] using hb
    | ok value => simp [hr] at hb
  · exact (firstFault_eq_none_iff before).1 (by simpa [firstFault] using hbefore)

omit [Scalar α] in
/-- The faults of pieces begin with the first fault of the whole. -/
private theorem head?_filterMap_firstFault (parts : List (List (Bound α))) :
    (parts.filterMap (firstFault result)).head? = firstFault result parts.flatten := by
  induction parts with
  | nil => simp [firstFault]
  | cons part parts ih =>
      rw [List.flatten_cons, firstFault_append, ← ih]
      cases h : firstFault result part <;> simp [h]

variable {terms : List (Bound α)} {p : Pool α}

theorem of_mem_lineup (hpos : 0 < p.scratch.length) {q : Worker α × List (Bound α)}
    (hq : q ∈ lineup terms p.scratch) :
    (∀ b ∈ q.2, b ∈ terms) ∧ q.1.scratch ∈ p.scratch ∧ q.1.fault = none ∧ q.1.value = 0 := by
  constructor
  · intro b hb
    rw [← flatten_pieces terms hpos, ← map_snd_lineup]
    exact List.mem_flatten.2 ⟨q.2, List.mem_map_of_mem hq, hb⟩
  · obtain ⟨⟨s, part⟩, hmem, rfl⟩ := List.mem_map.1 hq
    exact ⟨(List.of_mem_zip hmem).1, rfl, rfl⟩

/-- The faults of the workers are the first faults of their pieces. -/
private theorem faults_run (hpos : 0 < p.scratch.length)
    (hchunks : p.chunks = Partition.chunks terms.length p.scratch.length)
    (h : Steady task fits result after terms) (hfits : ∀ s ∈ p.scratch, fits s) :
    ((start terms p).run task).faults =
      (pieces terms p.scratch.length).filterMap (firstFault result) := by
  rw [run_start task hpos hchunks, faults, ← map_snd_lineup, List.filterMap_map,
    List.filterMap_map]
  refine List.filterMap_congr fun q hq => ?_
  obtain ⟨hsub, hscratch, hfault, _⟩ := of_mem_lineup hpos hq
  exact fault_through (h.mono hsub) (hfits _ hscratch) hfault

/-- If a term fails, then the failure of one of the terms is reported: as it is if workers let it
through, and else as a concurrent failure. -/
theorem outcome_run_of_mem (hpos : 0 < p.scratch.length)
    (hchunks : p.chunks = Partition.chunks terms.length p.scratch.length)
    (h : Steady task fits result after terms) (hfits : ∀ s ∈ p.scratch, fits s)
    {b : Bound α} (hb : b ∈ terms) {cause : Fault} (hcause : result b = .error cause) :
    ∃ d ∈ terms, ∃ fault, result d = .error fault ∧
      ((start terms p).run task).outcome = .error fault.escaped := by
  have hfaults := faults_run hpos hchunks h hfits
  have hmem : ∀ fault ∈ ((start terms p).run task).faults,
      ∃ d ∈ terms, result d = .error fault := by
    rw [hfaults]
    intro fault hfault
    obtain ⟨piece, hpiece, hfirst⟩ := List.mem_filterMap.1 hfault
    obtain ⟨before, d, rest, rfl, hd, _⟩ := exists_of_firstFault_eq_some hfirst
    refine ⟨d, ?_, hd⟩
    rw [← flatten_pieces terms hpos]
    exact List.mem_flatten.2 ⟨_, hpiece, by simp⟩
  rw [outcome]
  cases hfatal : ((start terms p).run task).faults.find? Fault.isFatal with
  | some fault =>
      obtain ⟨d, hd, hresult⟩ := hmem fault (List.mem_of_find?_eq_some hfatal)
      refine ⟨d, hd, fault, hresult, ?_⟩
      rw [Fault.escaped, if_pos (List.find?_some hfatal)]
  | none =>
      cases hcons : ((start terms p).run task).faults with
      | nil =>
          have hhead := @head?_filterMap_firstFault α result (pieces terms p.scratch.length)
          rw [flatten_pieces terms hpos, ← hfaults, hcons] at hhead
          obtain ⟨value, hvalue⟩ := (firstFault_eq_none_iff terms).1 hhead.symm b hb
          cases hvalue.symm.trans hcause
      | cons fault rest =>
          have hhead : fault ∈ ((start terms p).run task).faults := hcons ▸ List.mem_cons_self
          obtain ⟨d, hd, hresult⟩ := hmem fault hhead
          refine ⟨d, hd, fault, hresult, ?_⟩
          rw [Fault.escaped, if_neg (List.find?_eq_none.1 hfatal fault hhead)]

/-- If no term fails, then every term is left as its evaluation leaves it, the buffers go from term
to term of a piece, and the sums of the pieces are added up. -/
theorem run_of_ok (hpos : 0 < p.scratch.length)
    (hchunks : p.chunks = Partition.chunks terms.length p.scratch.length)
    (h : Steady task fits result after terms) (hfits : ∀ s ∈ p.scratch, fits s)
    (hok : firstFault result terms = none) :
    ((start terms p).run task).terms = terms.map after ∧
      ((start terms p).run task).workers.map (·.scratch) =
        (p.scratch.zip (pieces terms p.scratch.length)).map
          (fun (s, piece) => piece.foldl (fun s b => (task s b).1.1) s) ∧
      ((start terms p).run task).outcome =
        .ok (sum ((pieces terms p.scratch.length).map fun piece => sum (valuesOf result piece))) := by
  have hall := (firstFault_eq_none_iff terms).1 hok
  have hway : ∀ q ∈ lineup terms p.scratch, q.1.through task q.2 =
      ({ q.1 with
          scratch := q.2.foldl (fun s b => (task s b).1.1) q.1.scratch
          next := q.1.next + q.2.length
          value := sum (valuesOf result q.2) }, q.2.map after) := by
    intro q hq
    obtain ⟨hsub, hscratch, _, hvalue⟩ := of_mem_lineup hpos hq
    have hokPiece : firstFault result q.2 = none :=
      (firstFault_eq_none_iff q.2).2 fun b hb => hall b (hsub b hb)
    rw [through_of_ok (h.mono hsub) (hfits _ hscratch) hokPiece, hvalue, sum]
  have hfaults : ((start terms p).run task).faults = [] := by
    rw [faults_run hpos hchunks h hfits, List.filterMap_eq_nil_iff]
    intro piece hpiece
    refine (firstFault_eq_none_iff piece).2 fun b hb => hall b ?_
    rw [← flatten_pieces terms hpos]
    exact List.mem_flatten.2 ⟨piece, hpiece, hb⟩
  have hrun := run_start task hpos hchunks
  refine ⟨?_, ?_, ?_⟩
  · rw [hrun]
    have hterms : (lineup terms p.scratch).map (fun q => (q.1.through task q.2).2) =
        ((lineup terms p.scratch).map (·.2)).map (List.map after) := by
      rw [List.map_map]
      exact List.map_congr_left fun q hq => by rw [hway q hq]; rfl
    simp only [hterms]
    rw [← List.map_flatten, map_snd_lineup, flatten_pieces terms hpos]
  · rw [hrun, List.map_map]
    have hscratch : (lineup terms p.scratch).map
          ((·.scratch) ∘ fun q => (q.1.through task q.2).1) =
        (lineup terms p.scratch).map
          (fun q => q.2.foldl (fun s b => (task s b).1.1) q.1.scratch) :=
      List.map_congr_left fun q hq => by rw [Function.comp_apply, hway q hq]
    rw [hscratch, lineup, pieces, List.zip_map_right, List.map_map, List.map_map]
    rfl
  · have hvalues : ((start terms p).run task).workers.map (·.value) =
        (pieces terms p.scratch.length).map fun piece => sum (valuesOf result piece) := by
      rw [hrun, ← map_snd_lineup, List.map_map, List.map_map]
      exact List.map_congr_left fun q hq => by rw [Function.comp_apply, hway q hq]; rfl
    rw [outcome, hfaults, hvalues]
    rfl

end Steady

end Crew

end Separable
