import Separable.Program
import Separable.Proofs.Copies
import Separable.Proofs.History

/-!
# A solver's turn on two graphs of one structure

A solver program sees nothing but answers, and the answers depend on the structure of the graph and
on what the storages hold. So a program that is run on two graphs of one structure, which may hold
different things from earlier evaluations, takes the same course on both. It comes to the same
result, writes the same to the storages, and leaves two graphs of one structure.

What the graphs have in common has to survive the writes of the program, also for graphs that the
program is not run on but that share the storages. Nothing more is asked of a storage than its
length, and no write changes that.

## Main results

* `Program.length_read_run`: a program keeps the lengths of all storages.
* `View.Peers.answer`, `View.Peers.run`: answers to a question, and the course of a program.
-/

namespace Separable

open Scalar

variable {α : Type} [Backend α]

/-! ## Lengths of storages -/

theorem Graph.length_read_store (x : Tensor α) (g : Graph α) (m : Memory α) (t : Storage) :
    ((g.store x m).state.read t).length = (m.read t).length := by
  refine Action.state_bind (P := fun n : Memory α => (n.read t).length = (m.read t).length)
    (fun _ _ => rfl) fun _ _ => ?_
  exact Registry.length_read_storeFrom x g.registry.vars m t

theorem Query.length_read_answer (m : Multipliers α) (q : Query α) (v : View α) (t : Storage) :
    ((q.answer m v).1.memory.read t).length = (v.memory.read t).length := by
  cases q with
  | store x => exact Graph.length_read_store x v.graph v.memory t
  | write ref xs => exact Registry.length_read_write ref xs v.graph.registry v.memory t
  | scalars | start | value | valueAtStorage | derivatives | penaltyParameter | log => rfl

/-- A program keeps the lengths of all storages. -/
theorem Program.length_read_run {β : Type} (m : Multipliers α) (program : Program α β) (v : View α)
    (t : Storage) : ((program.run m v).1.memory.read t).length = (v.memory.read t).length := by
  induction program generalizing v with
  | done b => rfl
  | ask q next ih => exact (ih _ _).trans (q.length_read_answer m v t)

/-! ## Two graphs of one structure -/

/-- Whether two graphs have one structure and are both ready for evaluations. -/
structure Graph.Peers (memory : Memory α) (g h : Graph α) : Prop where
  left : g.Ready memory
  right : h.Ready memory
  same : h.outline = g.outline

namespace Graph.Peers

variable {memory : Memory α} {g h : Graph α}

theorem coupled (hgh : g.Peers memory h) : g.Coupled h :=
  ⟨hgh.left.sound, hgh.right.sound, hgh.same, hgh.left.whole⟩

theorem of_evaluated (hgh : g.Peers memory h) {g' h' : Graph α} (hg : g.Evaluated g')
    (hh : h.Evaluated h') : g'.Peers memory h' where
  left := hgh.left.of_evaluated hg
  right := hgh.right.of_evaluated hh
  same := hh.toAlike.outline_eq.trans (hgh.same.trans hg.toAlike.outline_eq.symm)

theorem of_lengths (hgh : g.Peers memory h) {other : Memory α}
    (hlengths : ∀ t, (other.read t).length = (memory.read t).length) : g.Peers other h :=
  ⟨hgh.left.of_lengths hlengths, hgh.right.of_lengths hlengths, hgh.same⟩

theorem gather_eq (hgh : g.Peers memory h) : h.gather memory = g.gather memory := by
  have hscalars : h.registry.scalars = g.registry.scalars := hgh.coupled.scalars_eq
  rw [gather, gather, Registry.gather, Registry.gather, hgh.coupled.vars_eq, hscalars]

theorem store_eq (hgh : g.Peers memory h) (x : Tensor α) : h.store x = g.store x := by
  rw [store, store, Registry.store, Registry.store, hgh.coupled.vars_eq, hgh.coupled.scalars_eq]

/-- An observation at the storages gives the same of both graphs. -/
theorem valueAtStorage (hgh : g.Peers memory h) (m : Multipliers α) :
    (Graph.valueAtStorage m memory g).result = (Graph.valueAtStorage m memory h).result ∧
      (Graph.valueAtStorage m memory g).state.Peers memory
        (Graph.valueAtStorage m memory h).state :=
  ⟨hgh.coupled.valueAtStorage_congr hgh.left.held m,
    hgh.of_evaluated (evaluated_valueAtStorage hgh.left.sound m memory)
      (evaluated_valueAtStorage hgh.right.sound m memory)⟩

end Graph.Peers

/-! ## One program on two graphs -/

/-- Whether two views are of one memory and of graphs of one structure. -/
structure View.Peers (v w : View α) : Prop where
  memory : w.memory = v.memory
  graph : v.graph.Peers v.memory w.graph

namespace View.Peers

variable {v w : View α}

/-- A question gets one answer, and leaves views of one memory and one structure. -/
theorem answer (h : v.Peers w) (m : Multipliers α) (q : Query α) :
    (q.answer m w).2.2 = (q.answer m v).2.2 ∧ (q.answer m v).1.Peers (q.answer m w).1 := by
  have hsound := h.graph.left.sound
  have hsound' := h.graph.right.sound
  cases q with
  | scalars => exact ⟨h.graph.coupled.scalars_eq, h⟩
  | start => exact ⟨(congrArg w.graph.gather h.memory).trans h.graph.gather_eq, h⟩
  | value x =>
      exact ⟨(h.graph.coupled.value_congr m x).symm, h.memory,
        h.graph.of_evaluated (Graph.evaluated_value hsound m x)
          (Graph.evaluated_value hsound' m x)⟩
  | valueAtStorage =>
      obtain ⟨hresult, hgraph⟩ := h.graph.valueAtStorage m
      simp only [Query.answer]
      rw [h.memory]
      exact ⟨hresult.symm, rfl, hgraph⟩
  | derivatives x mode =>
      exact ⟨(h.graph.coupled.derivatives_congr m x mode none).symm, h.memory,
        h.graph.of_evaluated (Graph.evaluated_derivatives hsound m x mode none)
          (Graph.evaluated_derivatives hsound' m x mode none)⟩
  | store x =>
      have hstored : w.graph.store x w.memory = v.graph.store x v.memory := by
        rw [h.graph.store_eq, h.memory]
      refine ⟨congrArg Outcome.result hstored, congrArg Outcome.state hstored, ?_⟩
      exact h.graph.of_lengths (Graph.length_read_store x v.graph v.memory)
  | write ref xs =>
      have hwritten : w.graph.registry.write ref xs w.memory =
          v.graph.registry.write ref xs v.memory := by
        have hresolve := Registry.resolve_congr hsound'.registry hsound.registry
          h.graph.coupled.vars_eq ref
        rw [Registry.write, Registry.write, hresolve, h.memory]
      refine ⟨congrArg Outcome.result hwritten, congrArg Outcome.state hwritten, ?_⟩
      exact h.graph.of_lengths (Registry.length_read_write ref xs v.graph.registry v.memory)
  | penaltyParameter | log => exact ⟨rfl, h⟩

/-- A program takes the same course on both views. -/
theorem run {β : Type} (h : v.Peers w) (m : Multipliers α) (program : Program α β) :
    (program.run m w).2.2 = (program.run m v).2.2 ∧
      (program.run m v).1.Peers (program.run m w).1 := by
  induction program generalizing v w with
  | done b => exact ⟨rfl, h⟩
  | ask q next ih =>
      obtain ⟨hanswer, hviews⟩ := h.answer m q
      obtain ⟨hresult, hrest⟩ := ih (q.answer m v).2.2 hviews
      simp only [Program.run]
      rw [hanswer]
      exact ⟨hresult, hrest⟩

end View.Peers

end Separable
