import Mathlib.Logic.Relation
import Separable.Proofs.Workers

/-!
# Workers in any order

Nothing says in which order the workers of a crew take their turns. Two of them may change places in
the middle of their chunks as often as they like, or one may be done before another begins.
`Crew.Step` allows all of this, and `Crew.run` is one order among many.

But the chunks of two workers have no term in common, and a turn writes to nothing but the buffers of
the worker and the term it stands at. So turns of two workers can be exchanged (`turn_comm`), and from
this every two orders can be continued to a common end (`join_of_orders`). As each turn brings
a worker forward or out, every order comes to an end (`wellFounded_turns`); and as nobody has a turn
left after `Crew.run`, this end is the one that `Crew.run` leads to. It is the same crew: the sums,
the faults, the accumulators and the blocks of every term agree to the last bit, in every arithmetic.

## Main results

* `Crew.turn_comm`: turns of two workers can be exchanged.
* `Crew.wellFounded_turns`: no order goes on for ever.
* `Crew.eq_run_of_finishes`: every order ends as `Crew.run` does.
* `Graph.evaluations_in_any_order`: an evaluation gives what is read off the crew in the end, in
  whatever order the workers took their turns.
-/

namespace Separable

open Scalar

variable {α : Type} [Backend α]

namespace Worker

theorem stop_record (w : Worker α) (scratch : Scratch α) (result : Except Fault α) :
    (w.record scratch result).stop = w.stop := by
  cases result <;> rfl

theorem next_le_record (w : Worker α) (scratch : Scratch α) (result : Except Fault α) :
    w.next ≤ (w.record scratch result).next := by
  cases result with
  | error fault => exact Nat.le_refl _
  | ok value => exact Nat.le_succ _

/-- How many turns the worker can still take. -/
def ahead (w : Worker α) : Nat := if w.isBusy then w.stop - w.next else 0

theorem ahead_record_lt {w : Worker α} (h : w.isBusy = true) (scratch : Scratch α)
    (result : Except Fault α) : (w.record scratch result).ahead < w.ahead := by
  obtain ⟨hfault, hnext⟩ : w.fault.isNone = true ∧ w.next < w.stop := by
    simpa [isBusy] using h
  have hahead : w.ahead = w.stop - w.next := if_pos h
  rw [hahead]
  cases result with
  | error fault => simpa [ahead, record, isBusy] using hnext
  | ok value =>
      simp only [ahead, record, isBusy, hfault, Bool.true_and]
      split <;> omega

/-- After its chunk a worker has nothing left to do: it failed, or it is at the end. -/
theorem isBusy_through (task : Task α) (chunk : List (Bound α)) {w : Worker α}
    (hstop : w.stop = w.next + chunk.length) : (w.through task chunk).1.isBusy = false := by
  induction chunk generalizing w with
  | nil => simp [through, isBusy, hstop]
  | cons b rest ih =>
      rcases hresult : task w.scratch b with ⟨⟨scratch, d⟩, fault | value⟩
      · simp [through, hresult, record, isBusy]
      · have hlater : (w.record scratch (.ok value)).stop =
            (w.record scratch (.ok value)).next + rest.length := by
          simp only [record, hstop, List.length_cons]
          omega
        simpa [through, hresult] using ih hlater

end Worker

namespace Crew

variable {task : Task α} {c d e : Crew α}

/-! ## Two workers -/

/-- Whether each worker's chunk ends before the next term of every later worker. -/
def Apart (c : Crew α) : Prop := c.workers.Pairwise fun v w => v.stop ≤ w.next

omit [Backend α] in
/-- Two workers that have a turn stand at different terms. -/
theorem Apart.next_ne (hc : c.Apart) {v w : Nat} {first second : Worker α} (hne : v ≠ w)
    (hv : c.workers[v]? = some first) (hw : c.workers[w]? = some second)
    (hfirst : first.isBusy = true) (hsecond : second.isBusy = true) :
    first.next ≠ second.next := by
  obtain ⟨hvlt, rfl⟩ := List.getElem?_eq_some_iff.1 hv
  obtain ⟨hwlt, rfl⟩ := List.getElem?_eq_some_iff.1 hw
  simp only [Worker.isBusy, Bool.and_eq_true, decide_eq_true_eq] at hfirst hsecond
  rcases Nat.lt_or_gt_of_ne hne with hlt | hlt
  · have hstop := List.pairwise_iff_getElem.1 hc v w hvlt hwlt hlt
    omega
  · have hstop := List.pairwise_iff_getElem.1 hc w v hwlt hvlt hlt
    omega

/-- Turns of two workers can be exchanged. -/
theorem turn_comm (hc : c.Apart) {v w : Nat} (hne : v ≠ w) (hv : c.turn task v = some d)
    (hw : c.turn task w = some e) : ∃ f, d.turn task w = some f ∧ e.turn task v = some f := by
  obtain ⟨first, a, hfirst, hbusyFirst, ha, rfl⟩ := turn_eq_some_iff.1 hv
  obtain ⟨second, b, hsecond, hbusySecond, hb, rfl⟩ := turn_eq_some_iff.1 hw
  have hnext := hc.next_ne hne hfirst hsecond hbusyFirst hbusySecond
  refine ⟨_, turn_eq_some_iff.2 ⟨second, b, ?_, hbusySecond, ?_, rfl⟩,
    turn_eq_some_iff.2 ⟨first, a, ?_, hbusyFirst, ?_, ?_⟩⟩
  · rwa [List.getElem?_set_ne hne]
  · rwa [List.getElem?_set_ne hnext]
  · rwa [List.getElem?_set_ne hne.symm]
  · rwa [List.getElem?_set_ne hnext.symm]
  · rw [List.set_comm _ _ hne, List.set_comm _ _ hnext]

/-- Workers stay apart: the ends of their chunks stay, and they only move forward. -/
theorem Apart.step (hc : c.Apart) (hstep : Step task c d) : d.Apart := by
  obtain ⟨w, worker, b, hw, -, rfl⟩ := of_step hstep
  obtain ⟨hlt, rfl⟩ := List.getElem?_eq_some_iff.1 hw
  refine List.pairwise_iff_getElem.2 fun i j hi hj hij => ?_
  rw [List.length_set] at hi hj
  have hstop := List.pairwise_iff_getElem.1 hc i j hi hj hij
  rw [List.getElem_set, List.getElem_set]
  by_cases hwi : w = i
  · subst hwi
    rw [if_pos rfl, if_neg (Nat.ne_of_lt hij), Worker.stop_record]
    exact hstop
  · rw [if_neg hwi]
    by_cases hwj : w = j
    · subst hwj
      rw [if_pos rfl]
      exact hstop.trans (Worker.next_le_record _ _ _)
    · rw [if_neg hwj]
      exact hstop

/-! ## Any order -/

/-- Whether a crew can come to another by turns of its workers, in some order. -/
def Reaches (task : Task α) : Crew α → Crew α → Prop := Relation.ReflTransGen (Step task)

/-- Whether no worker can take a turn. -/
def Settled (task : Task α) (c : Crew α) : Prop := ∀ d, ¬Step task c d

/-- Whether a crew comes to another by turns in some order until nobody has a turn left. -/
structure Finishes (task : Task α) (c d : Crew α) : Prop where
  reaches : Reaches task c d
  settled : Settled task d

/-- What is left of two different orders can be brought to a common end. -/
theorem join_of_orders (hc : c.Apart) (hd : Reaches task c d) (he : Reaches task c e) :
    ∃ f, Reaches task d f ∧ Reaches task e f := by
  -- Turns can be exchanged only while the workers are apart, so this becomes part of the relation.
  have hrestrict {f : Crew α} (hf : Reaches task c f) :
      Relation.ReflTransGen (fun a b => a.Apart ∧ Step task a b) c f ∧ f.Apart := by
    induction hf with
    | refl => exact ⟨.refl, hc⟩
    | tail _ hstep ih => exact ⟨ih.1.tail ⟨ih.2, hstep⟩, ih.2.step hstep⟩
  have hrelax {a b : Crew α}
      (h : Relation.ReflTransGen (fun a b => a.Apart ∧ Step task a b) a b) : Reaches task a b :=
    Relation.ReflTransGen.mono (fun _ _ h => h.2) a b h
  have hdiamond {a b b' : Crew α} (hb : a.Apart ∧ Step task a b) (hb' : a.Apart ∧ Step task a b') :
      ∃ f, Relation.ReflGen (fun a b => a.Apart ∧ Step task a b) b f ∧
        Relation.ReflTransGen (fun a b => a.Apart ∧ Step task a b) b' f := by
    obtain ⟨ha, v, hv⟩ := hb
    obtain ⟨_, w, hw⟩ := hb'
    by_cases hvw : v = w
    · subst hvw
      rw [hv] at hw
      cases hw
      exact ⟨b, .refl, .refl⟩
    · obtain ⟨f, hf, hf'⟩ := turn_comm ha hvw hv hw
      exact ⟨f, .single ⟨ha.step ⟨v, hv⟩, w, hf⟩, .single ⟨ha.step ⟨w, hw⟩, v, hf'⟩⟩
  obtain ⟨f, hdf, hef⟩ := Relation.church_rosser (fun _ _ _ => hdiamond)
    (hrestrict hd).1 (hrestrict he).1
  exact ⟨f, hrelax hdf, hrelax hef⟩

omit [Backend α] in
private theorem sum_map_set_lt {β : Type} {f : β → Nat} {xs : List β} {i : Nat} {x y : β}
    (hx : xs[i]? = some x) (h : f y < f x) : ((xs.set i y).map f).sum < (xs.map f).sum := by
  induction xs generalizing i with
  | nil => cases hx
  | cons z xs ih =>
      cases i with
      | zero =>
          cases Option.some.inj hx
          simpa using h
      | succ i => simpa using ih hx

/-- No order goes on for ever: each turn brings a worker closer to the end of its chunk, or out. -/
theorem wellFounded_turns (task : Task α) : WellFounded fun d c => Step task c d := by
  refine Subrelation.wf (fun {d c} hstep => ?_)
    (measure fun c : Crew α => (c.workers.map Worker.ahead).sum).wf
  obtain ⟨w, hturn⟩ := hstep
  obtain ⟨worker, b, hw, hbusy, -, rfl⟩ := turn_eq_some_iff.1 hturn
  exact sum_map_set_lt hw (Worker.ahead_record_lt hbusy _ _)

/-- Running the workers one after another is one order. -/
theorem reaches_run (task : Task α) (c : Crew α) : Reaches task c (c.run task) :=
  run_keeps (fun _ _ hstep hd => Relation.ReflTransGen.tail hd hstep) .refl

/-! ## A crew at the terms of a graph -/

omit [Backend α] in
private theorem pairwise_of_assigned {start : Nat} {crew : List (Worker α × List (Bound α))}
    (h : Assigned start crew) :
    (crew.map (·.1)).Pairwise (fun v w => v.stop ≤ w.next) ∧ ∀ w ∈ crew.map (·.1), start ≤ w.next := by
  induction crew generalizing start with
  | nil => simp
  | cons q crew ih =>
      obtain ⟨w, chunk⟩ := q
      obtain ⟨_, hnext, hstop, hrest⟩ := h
      obtain ⟨hpairwise, hlater⟩ := ih hrest
      refine ⟨List.pairwise_cons.2 ⟨hlater, hpairwise⟩, fun v hv => ?_⟩
      rcases List.mem_cons.1 hv with rfl | hv
      · exact hnext.ge
      · have := hlater v hv
        omega

omit [Backend α] in
private theorem stop_of_assigned {start : Nat} {crew : List (Worker α × List (Bound α))}
    (h : Assigned start crew) : ∀ q ∈ crew, q.1.stop = q.1.next + q.2.length := by
  induction crew generalizing start with
  | nil => simp
  | cons q crew ih =>
      obtain ⟨_, hnext, hstop, hrest⟩ := h
      intro r hr
      rcases List.mem_cons.1 hr with rfl | hr
      · rw [hstop, hnext]
      · exact ih hrest r hr

section Start

variable {terms : List (Bound α)} {p : Pool α} (hpos : 0 < p.scratch.length)
  (hchunks : p.chunks = Partition.chunks terms.length p.scratch.length)

include hpos hchunks

theorem apart_start : (start terms p).Apart := by
  rw [start_eq_lineup hpos hchunks]
  exact (pairwise_of_assigned (assigned_lineup terms p.scratch hpos)).1

/-- Nobody has a turn left after a run. -/
theorem settled_run (task : Task α) : Settled task ((start terms p).run task) := by
  rintro d ⟨w, hturn⟩
  obtain ⟨worker, b, hw, hbusy, -, -⟩ := turn_eq_some_iff.1 hturn
  rw [run_start task hpos hchunks] at hw
  obtain ⟨q, hq, rfl⟩ := List.mem_map.1 (List.mem_of_getElem? hw)
  have hstop := stop_of_assigned (assigned_lineup terms p.scratch hpos) q hq
  rw [Worker.isBusy_through task q.2 hstop] at hbusy
  cases hbusy

/-- From wherever the workers are, the rest of their turns leads to the end of a run. -/
theorem reaches_run_of_reaches (h : Reaches task (start terms p) c) :
    Reaches task c ((start terms p).run task) := by
  obtain ⟨f, hcf, hrun⟩ := join_of_orders (apart_start hpos hchunks) h (reaches_run task _)
  rcases hrun.cases_head with heq | ⟨d, hstep, -⟩
  · rwa [heq]
  · exact absurd hstep (settled_run hpos hchunks task d)

/-- Every order of turns ends as a run does. -/
theorem eq_run_of_finishes (h : Finishes task (start terms p) c) :
    c = (start terms p).run task := by
  rcases (reaches_run_of_reaches hpos hchunks h.reaches).cases_head with heq | ⟨d, hstep, -⟩
  · exact heq
  · exact absurd hstep (h.settled d)

theorem finishes_run (task : Task α) :
    Finishes task (start terms p) ((start terms p).run task) :=
  ⟨reaches_run task _, settled_run hpos hchunks task⟩

end Start

end Crew

/-! ## Evaluations -/

namespace Graph

variable {g : Graph α}

/-- The graph after the workers left the crew `d` behind at the state `x`. -/
def leftBy (d : Crew α) (x : List α) (g : Graph α) : Graph α :=
  { g with
    registry := g.registry.loaded x
    terms := d.terms
    pool := some { g.current with scratch := d.workers.map (·.scratch) }
    derivativeCount := g.derivativeCount + 1 }

/-- The derivatives that are read off a crew in the end, or the error that is raised: the faults of
the workers, else the sum of their values, the sum of their accumulators and the Hessian of the
blocks. -/
def readOff (d : Crew α) (x : List α) (mode : Option HessianMode) (kind : ElementKind)
    (g : Graph α) : Except Fault (Derivatives α) :=
  d.outcome.bind fun value =>
    ((g.leftBy d x).reducedIn kind).2.bind fun () =>
      (mode.mapM (g.leftBy d x).collectHessian).map fun hessian =>
        ⟨value, ((g.leftBy d x).reducedIn kind).1, hessian⟩

/-- In whatever order the workers take their turns, they end as if they had worked one after another,
and what is read off them is what the evaluation gives. -/
theorem evaluations_in_any_order (hg : g.Reachable) (m : Multipliers α) :
    (∀ memory d,
      Crew.Finishes (valueTask m (g.registry.loadStorage memory)) (Crew.start g.terms g.current) d →
        d = (Crew.start g.terms g.current).run (valueTask m (g.registry.loadStorage memory)) ∧
          (valueAtStorage m memory g).result = d.outcome) ∧
    (∀ x d, x.length = g.scalars →
      (Registry.load (.ofVector x) g.registry).result = .ok () →
      Crew.Finishes (valueTask m (g.registry.loaded x)) (Crew.start g.terms g.current) d →
        d = (Crew.start g.terms g.current).run (valueTask m (g.registry.loaded x)) ∧
          (value m (.ofVector x) g).result = d.outcome) ∧
    ∀ x mode buffer d, x.length = g.scalars → g.Passes mode buffer →
      (Registry.load (.ofVector x) g.registry).result = .ok () →
      Crew.Finishes (derivativeTask m (g.registry.loaded x) x mode.isSome)
        (Crew.start g.terms g.current.cleared) d →
        d = (Crew.start g.terms g.current.cleared).run
            (derivativeTask m (g.registry.loaded x) x mode.isSome) ∧
          (derivatives m (.ofVector x) mode (g, buffer)).state.1 = g.leftBy d x ∧
          (derivatives m (.ofVector x) mode (g, buffer)).result =
            g.readOff d x mode (gradientKind buffer) := by
  have hsound := hg.sound
  have hcleared : 0 < g.current.cleared.scratch.length :=
    (length_cleared hsound).symm ▸ hsound.workers
  refine ⟨fun memory d hd => ?_, fun x d hx hload hd => ?_,
    fun x mode buffer d hx hpasses hload hd => ?_⟩
  · have heq := Crew.eq_run_of_finishes (pos_current hsound) (chunks_current hsound) hd
    exact ⟨heq, heq ▸ (valueAtStorage_eq m memory g).2⟩
  · have heq := Crew.eq_run_of_finishes (pos_current hsound) (chunks_current hsound) hd
    exact ⟨heq, heq ▸ value_eq m hx hload⟩
  · have heq := Crew.eq_run_of_finishes hcleared (chunks_cleared hsound) hd
    obtain ⟨hstate, hresult⟩ := evaluateTerms_eq m hsound hx hpasses hload
    rw [worked, ← heq] at hstate hresult
    obtain ⟨hgraph, hderivatives⟩ := derivatives_eq m (.ofVector x) mode g buffer
    refine ⟨heq, hgraph.trans hstate, ?_⟩
    rw [hderivatives, hresult, hstate]
    rfl

end Graph

/-! ### Two workers, the second of them first -/

/-- The graph `paired` with two workers. -/
noncomputable def pairedByTwo : Graph ℝ := (Graph.setWorkers 2 paired).state

/-- What a worker does with a term of `pairedByTwo` at the state `[2]`. -/
noncomputable def pairedTask : Task ℝ :=
  derivativeTask Multipliers.none (pairedByTwo.registry.loaded [2]) [2] true

/-- The second worker may take its turn before the first. -/
theorem pairedByTwo_in_reverse :
    ∃ c d, (Crew.start pairedByTwo.terms pairedByTwo.current.cleared).turn pairedTask 1 = some c ∧
      c.turn pairedTask 0 = some d ∧
      d = (Crew.start pairedByTwo.terms pairedByTwo.current.cleared).run pairedTask ∧
      (Graph.derivatives Multipliers.none (.ofVector [2]) (some .sparse) (pairedByTwo, none)).result =
        pairedByTwo.readOff d [2] (some .sparse) .double := by
  obtain ⟨c, hfirst⟩ : ∃ c,
      (Crew.start pairedByTwo.terms pairedByTwo.current.cleared).turn pairedTask 1 = some c := ⟨_, rfl⟩
  obtain ⟨d, hsecond⟩ : ∃ d, c.turn pairedTask 0 = some d := by
    cases hfirst
    exact ⟨_, rfl⟩
  have hsettled : Crew.Settled pairedTask d := by
    rintro e ⟨w, hturn⟩
    cases hfirst
    cases hsecond
    match w with
    | 0 => cases hturn
    | 1 => cases hturn
    | _ + 2 => cases hturn
  have hpasses : pairedByTwo.Passes (some .sparse) none := by
    refine ⟨by simp, fun form hform => ?_⟩
    cases hform
    exact ⟨rfl, Or.inr rfl, rfl⟩
  obtain ⟨hrun, -, hresult⟩ := (Graph.evaluations_in_any_order (reachable_paired.setWorkers 2)
    Multipliers.none).2.2 [2] (some .sparse) none d rfl hpasses rfl
    ⟨.tail (.single ⟨1, hfirst⟩) ⟨0, hsecond⟩, hsettled⟩
  exact ⟨c, d, hfirst, hsecond, hrun, hresult⟩

end Separable
