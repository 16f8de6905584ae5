import Separable.Proofs.InStep
import Separable.Proofs.Lockstep
import Separable.Proofs.NotANumber
import Separable.Proofs.Turn

/-!
# A solve starts afresh

A problem that has been used holds things that a new one does not: the outer state, the multipliers
and the values of an earlier solve, counts of evaluations, and whatever is in the scratch vectors,
the blocks and the pools of its graphs. A solve overwrites all this before it reads it. The outer
state and the multipliers are put back at the start. The value of a constraint is only read after
the constraint was observed in the same round. And what evaluations have left in a graph does not
come out of it.

So two problems of one structure are solved in step: round by round the solver takes its turn at the
same inner problem, and what follows from its turn is the same. After a fault the values of the
constraints are the one thing that may differ, since those that were still to be observed are left
from before; `Peers` therefore says whether the constraints have been seen.

The graphs have to be ready, and the part of this that is not up to the caller is that a pool which
counts as up to date was built for all variables. This is so however a problem was built and used
through its own calls. But a variable that is added directly to the registry of the combined graph,
under a pool in force, is unknown to that pool. Such a problem can be solved differently from one of
the same structure that was never evaluated.

## Main results

* `Peers.lockstep`, `Peers.of_loop`: two solves in progress, step by step and for the loop.
* `Problem.Coherent.ready`, `Problem.Ready.solve`: problems that are ready, before and after a solve.
* `solve_restarts`: problems of one structure are solved alike.
* `parted_by_pool`: two problems that differ in their pools, and are solved differently.
-/

namespace Separable

open Scalar

variable {α σ : Type} [Backend α]

/-! ## Constraints -/

namespace Constraint

/-- Whether two constraints have one name, one multiplier and graphs of one structure, and, once
they have been seen, one value. -/
structure Peers (memory : Memory α) (seen : Prop) (c d : Constraint α) : Prop where
  name : d.name = c.name
  dual : d.dual = c.dual
  value : seen → d.value = c.value
  graph : c.graph.Peers memory d.graph

namespace Peers

variable {memory : Memory α} {seen : Prop} {c d : Constraint α} {cs ds : List (Constraint α)}

theorem unseen (h : c.Peers memory seen d) : c.Peers memory False d :=
  ⟨h.name, h.dual, False.elim, h.graph⟩

theorem of_lengths (h : c.Peers memory seen d) {other : Memory α}
    (hlengths : ∀ t, (other.read t).length = (memory.read t).length) : c.Peers other seen d :=
  ⟨h.name, h.dual, h.value, h.graph.of_lengths hlengths⟩

theorem duals_eq (h : List.Forall₂ (Peers memory seen) cs ds) :
    ds.map (·.dual) = cs.map (·.dual) :=
  (forall₂_map_eq_iff.1 (h.imp fun _ _ hcd => hcd.dual.symm)).symm

/-- An observation gives the same values, and what was seen is the same then. -/
theorem evaluateAll (h : List.Forall₂ (Peers memory seen) cs ds) :
    Outcome.Parallel (List.Forall₂ (Peers memory False))
      (fun a s b t => a = b ∧ List.Forall₂ (Peers memory True) s t)
      (Constraint.evaluateAll memory cs) (Constraint.evaluateAll memory ds) := by
  induction h with
  | nil => exact .of_ok rfl rfl .nil ⟨rfl, .nil⟩
  | @cons c d rest rest' hcd hrest ih =>
      obtain ⟨hresult, hgraph⟩ := hcd.graph.valueAtStorage Multipliers.none
      cases hvalue : (Graph.valueAtStorage Multipliers.none memory c.graph).result with
      | error fault =>
          simp only [Constraint.evaluateAll, evaluate, ← hresult, hvalue]
          exact ⟨.cons ⟨hcd.name, hcd.dual, False.elim, hgraph⟩
            (hrest.imp fun _ _ h => h.unseen), .inl ⟨fault, rfl, rfl⟩⟩
      | ok value =>
          simp only [Constraint.evaluateAll, evaluate, ← hresult, hvalue]
          refine ⟨.cons ⟨hcd.name, hcd.dual, False.elim, hgraph⟩ ih.1, ?_⟩
          rcases ih.2 with ⟨fault, hfault, hfault'⟩ | ⟨values, _, hvalues, hvalues', rfl, hseen⟩
          · exact .inl ⟨fault, congrArg (Except.map (value :: ·)) hfault,
              congrArg (Except.map (value :: ·)) hfault'⟩
          · exact .inr ⟨value :: values, value :: values,
              congrArg (Except.map (value :: ·)) hvalues,
              congrArg (Except.map (value :: ·)) hvalues',
              rfl, .cons ⟨hcd.name, hcd.dual, fun _ => rfl, hgraph⟩ hseen⟩

/-- Multipliers of constraints that were seen move alike. -/
theorem moveDuals (h : List.Forall₂ (Peers memory True) cs ds) (mu : α) :
    (Constraint.moveDuals mu ds).2 = (Constraint.moveDuals mu cs).2 ∧
      List.Forall₂ (Peers memory True) (Constraint.moveDuals mu cs).1
        (Constraint.moveDuals mu ds).1 := by
  induction h with
  | nil => exact ⟨rfl, .nil⟩
  | @cons c d rest rest' hcd hrest ih =>
      have hdual : d.movedDual mu = c.movedDual mu := by
        rw [movedDual, movedDual, hcd.dual, hcd.value trivial]
      simp only [Constraint.moveDuals, hdual]
      cases c.movedDual mu with
      | error fault => exact ⟨rfl, .cons hcd hrest⟩
      | ok dual => exact ⟨ih.1, .cons ⟨hcd.name, rfl, hcd.value, hcd.graph⟩ ih.2⟩

end Peers

end Constraint

namespace Run

/-! ## Solves in progress -/

/-- Whether two solves in progress agree in everything but what evaluations have left in the graphs
and, unless the constraints have been seen, the values of the constraints. -/
structure Peers (seen : Prop) (r q : Run α σ) : Prop where
  memory : q.memory = r.memory
  solver : q.solver = r.solver
  results : q.results = r.results
  config : q.problem.config = r.problem.config
  outer : q.problem.outer = r.problem.outer
  objective : r.problem.objective.Peers r.memory q.problem.objective
  combined : r.problem.combined.Peers r.memory q.problem.combined
  constraints : List.Forall₂ (Constraint.Peers r.memory seen) r.problem.constraints
    q.problem.constraints

/-- Whether two steps give one result and leave solves that agree, after a success with constraints
that have been seen or not, as it is said. -/
def Abreast {β : Type} (seen : Prop) (o p : Outcome (Run α σ) α β) : Prop :=
  Outcome.Parallel (Peers False) (fun b r c q => b = c ∧ r.Peers seen q) o p

theorem Abreast.result_eq {β : Type} {seen : Prop} {o p : Outcome (Run α σ) α β}
    (h : Abreast seen o p) : o.result = p.result := Together.result_eq h

theorem Abreast.peers {β : Type} {seen : Prop} {o p : Outcome (Run α σ) α β} {b : β}
    (h : Abreast seen o p) (hok : o.result = .ok b) : o.state.Peers seen p.state :=
  Together.of_ok h hok

namespace Peers

variable {seen : Prop} {r q : Run α σ}

section Steps

variable (h : r.Peers seen q)

include h

theorem unseen : r.Peers False q :=
  ⟨h.memory, h.solver, h.results, h.config, h.outer, h.objective, h.combined,
    h.constraints.imp fun _ _ hcd => hcd.unseen⟩

theorem multipliers_eq : q.problem.multipliers = r.problem.multipliers := by
  rw [Problem.multipliers, Problem.multipliers, h.outer, Constraint.Peers.duals_eq h.constraints]

/-! ### The steps of a round -/

/-- The solver has the same turn. -/
theorem minimize (s : Solver α σ) : Abreast False (Run.minimize s r) (Run.minimize s q) := by
  have hviews : View.Peers ⟨r.problem.combined, r.memory⟩ ⟨q.problem.combined, q.memory⟩ :=
    ⟨h.memory, h.combined⟩
  obtain ⟨hturn, hleft⟩ := hviews.run r.problem.multipliers (s.solve r.solver Results.fresh)
  have hlengths := Program.length_read_run r.problem.multipliers
    (s.solve r.solver Results.fresh) ⟨r.problem.combined, r.memory⟩
  rw [← h.solver, ← h.multipliers_eq] at hturn hleft hlengths
  have hpeers : (Run.minimize s r).state.Peers False (Run.minimize s q).state := by
    unfold Run.minimize
    dsimp only
    rw [← h.solver, ← h.multipliers_eq]
    exact ⟨hleft.memory, congrArg (·.1) hturn, h.results, h.config, h.outer,
      h.objective.of_lengths hlengths, hleft.graph,
      h.constraints.imp fun _ _ hcd => hcd.unseen.of_lengths hlengths⟩
  refine ⟨hpeers, .of_result_eq ?_ fun _ _ => ⟨rfl, hpeers⟩⟩
  unfold Run.minimize
  dsimp only
  rw [← h.solver, ← h.multipliers_eq]
  exact congrArg (fun turn : σ × Results α × Except Fault Unit =>
    turn.2.2.map fun () => turn.2.1) hturn.symm

theorem objectiveValue : Abreast seen (Run.objectiveValue r) (Run.objectiveValue q) := by
  obtain ⟨hresult, hgraph⟩ := h.objective.valueAtStorage Multipliers.none
  have hpeers : (Run.objectiveValue r).state.Peers seen (Run.objectiveValue q).state := by
    unfold Run.objectiveValue
    rw [h.memory]
    exact ⟨h.memory, h.solver, h.results, h.config, h.outer, hgraph, h.combined, h.constraints⟩
  refine ⟨hpeers.unseen, .of_result_eq ?_ fun _ _ => ⟨rfl, hpeers⟩⟩
  unfold Run.objectiveValue
  rw [h.memory]
  exact hresult

theorem constraintValues : Abreast True (Run.constraintValues r) (Run.constraintValues q) := by
  obtain ⟨hleft, hvalues⟩ := Constraint.Peers.evaluateAll h.constraints
  unfold Run.constraintValues
  rw [h.memory]
  have hpeers {after : Prop} (hconstraints : List.Forall₂ (Constraint.Peers r.memory after)
      (Constraint.evaluateAll r.memory r.problem.constraints).state
      (Constraint.evaluateAll r.memory q.problem.constraints).state) :
      (onProblem (Problem.onConstraints (Constraint.evaluateAll r.memory)) r).state.Peers after
        (onProblem (Problem.onConstraints (Constraint.evaluateAll r.memory)) q).state :=
    ⟨h.memory, h.solver, h.results, h.config, h.outer, h.objective, h.combined, hconstraints⟩
  refine ⟨hpeers hleft, ?_⟩
  rcases hvalues with ⟨fault, hfault, hfault'⟩ | ⟨values, _, hok, hok', rfl, hseen⟩
  · exact .inl ⟨fault, hfault, hfault'⟩
  · exact .inr ⟨values, values, hok, hok', rfl, hpeers hseen⟩

end Steps

theorem moveDuals (h : r.Peers True q) :
    Abreast True
      (onProblem (Problem.onConstraints (Action.run (Constraint.moveDuals r.problem.outer.mu))) r)
      (onProblem (Problem.onConstraints (Action.run (Constraint.moveDuals r.problem.outer.mu)))
        q) := by
  obtain ⟨hresult, hmoved⟩ := Constraint.Peers.moveDuals h.constraints r.problem.outer.mu
  have hpeers : Peers True
      (onProblem (Problem.onConstraints (Action.run (Constraint.moveDuals r.problem.outer.mu)))
        r).state
      (onProblem (Problem.onConstraints (Action.run (Constraint.moveDuals r.problem.outer.mu)))
        q).state :=
    ⟨h.memory, h.solver, h.results, h.config, h.outer, h.objective, h.combined, hmoved⟩
  exact ⟨hpeers.unseen, .of_result_eq hresult.symm fun _ _ => ⟨rfl, hpeers⟩⟩

theorem modifyOuter (h : r.Peers seen q) (f : OuterState α → OuterState α) :
    (Run.modifyOuter f r).state.Peers seen (Run.modifyOuter f q).state :=
  ⟨h.memory, h.solver, h.results, h.config, congrArg f h.outer, h.objective, h.combined,
    h.constraints⟩

theorem modifyResults (h : r.Peers seen q) (f : Results α → Results α) :
    (Run.modifyResults f r).state.Peers seen (Run.modifyResults f q).state :=
  ⟨h.memory, h.solver, congrArg f h.results, h.config, h.outer, h.objective, h.combined,
    h.constraints⟩

/-! ## One round -/

/-- Two solves that agree go through every step alike. -/
theorem lockstep (s : Solver α σ) : Lockstep s s Peers where
  unseen h := h.unseen
  config h := h.config
  outer h := h.outer
  duals h := Constraint.Peers.duals_eq h.constraints
  minimize h := by
    obtain ⟨hpeers, hturn⟩ := h.minimize s
    exact ⟨hpeers, hturn.mono fun inner r' inner' q' hsame => ⟨hsame.1 ▸ rfl, hsame.2⟩⟩
  objective h := h.objectiveValue
  constraints h := h.constraintValues
  moveDuals h := h.moveDuals
  modifyOuter f h := h.modifyOuter f
  number _ h := h.modifyResults _
  answers _ _ h := h.modifyResults _

/-- Two solves that agree go through the same round, and then they have seen their constraints. -/
theorem round (h : r.Peers seen q) (s : Solver α σ) :
    Abreast True (Run.round s r) (Run.round s q) := (lockstep s).round h.unseen

/-! ## The loop -/

theorem exhausted_iff (h : r.Peers seen q) : q.Exhausted ↔ r.Exhausted := by
  rw [Exhausted, Exhausted, h.config, h.outer]

/-- Two solves that agree go through the same loop. -/
theorem of_loop {s : Solver α σ} {turns : List (Run α σ)} {r last : Run α σ}
    {result : Except Fault ExitCondition} (hloop : Loop s turns r last result) {q : Run α σ}
    (h : r.Peers False q) : ∃ turns' last', Loop s turns' q last' result ∧
      List.Forall₂ (Peers False) turns turns' ∧ last.Peers False last' ∧
      ∀ exit, result = .ok exit → last.Peers True last' := by
  induction hloop generalizing q with
  | failed hround =>
      have hnext := h.round s
      exact ⟨[q], _, .failed (hnext.result_eq.symm.trans hround), .cons h .nil, hnext.1,
        fun _ hok => by cases hok⟩
  | ended hround =>
      have hnext := h.round s
      exact ⟨[q], _, .ended (hnext.result_eq.symm.trans hround), .cons h .nil, hnext.1,
        fun _ _ => hnext.peers hround⟩
  | exhausted hround hlimit =>
      have hnext := h.round s
      have hseen := hnext.peers hround
      exact ⟨[q], _, .exhausted (hnext.result_eq.symm.trans hround) (hseen.exhausted_iff.2 hlimit),
        .cons h .nil, hnext.1, fun _ _ => hseen⟩
  | again hround hlimit _ ih =>
      have hnext := h.round s
      obtain ⟨turns', last', hloop, hturns, hlast, hseen⟩ := ih hnext.1
      have hlimit' := fun h => hlimit (hnext.1.exhausted_iff.1 h)
      exact ⟨q :: turns', last', .again (hnext.result_eq.symm.trans hround) hlimit' hloop,
        .cons h hturns, hlast, hseen⟩

end Peers

end Run

/-! ## Problems of one structure -/

namespace Problem

/-- A problem without what evaluations and solves leave in it and without what can be set by hand:
its settings, and the structures of its graphs with the names of the constraints. -/
def outline (p : Problem α) :=
  (p.config, p.objective.outline, p.combined.outline,
    p.constraints.map fun c => (c.name, c.graph.outline))

/-- Whether all graphs of a problem are ready for evaluations. -/
structure Ready (memory : Memory α) (p : Problem α) : Prop where
  objective : p.objective.Ready memory
  combined : p.combined.Ready memory
  constraints : ∀ c ∈ p.constraints, c.graph.Ready memory

/-- A coherent problem is ready if the variables of its combined graph are supplied with what they
need. -/
theorem Coherent.ready {p : Problem α} (hp : p.Coherent) {memory : Memory α}
    (hwhole : ∀ v ∈ p.combined.registry.vars, v.Whole)
    (hheld : ∀ v ∈ p.combined.registry.vars, (memory.read v.storage).length = v.userDimension) :
    p.Ready memory where
  objective := ⟨hp.objective, hp.vars ▸ hwhole, hp.vars ▸ hheld⟩
  combined := ⟨hp.combined, hwhole, hheld⟩
  constraints := by
    intro c hc
    obtain ⟨i, b, hb, henforced⟩ := hp.exists_enforced hc
    obtain ⟨bound, hbound, rfl⟩ := List.mem_map.1 hb
    have htwin : ∀ w ∈ c.graph.registry.vars, ∃ v ∈ p.combined.registry.vars, v.Twin w := by
      intro w hw
      obtain ⟨v, hv, htwin⟩ := henforced.twins w hw
      exact ⟨v, (hp.combined.terms bound hbound).vars v hv, htwin⟩
    refine ⟨henforced.sound, fun w hw => ?_, fun w hw => ?_⟩
    · obtain ⟨v, hv, htwin⟩ := htwin w hw
      intro reparam hreparam
      exact hwhole v hv reparam (htwin.reparam ▸ hreparam)
    · obtain ⟨v, hv, htwin⟩ := htwin w hw
      rw [htwin.storage, htwin.userDimension]
      exact hheld v hv

theorem Ready.of_evaluated {p q : Problem α} {memory : Memory α} (hp : p.Ready memory)
    (h : p.Evaluated q) : q.Ready memory where
  objective := hp.objective.of_evaluated h.objective
  combined := hp.combined.of_evaluated h.combined
  constraints := by
    have hready := (List.forall₂_and_left _ _).2 ⟨hp.constraints, h.constraints⟩
    exact forall_right (hready.imp fun c d ⟨hc, hcd⟩ => hc.of_evaluated hcd.graph)

omit [Backend α] in
/-- Evaluations and changes of multipliers leave the outline alone. -/
theorem outline_of_evaluated {p q : Problem α} (h : p.Evaluated q) (hconfig : q.config = p.config) :
    q.outline = p.outline := by
  have hconstraints : q.constraints.map (fun c => (c.name, c.graph.outline)) =
      p.constraints.map fun c => (c.name, c.graph.outline) := by
    refine (forall₂_map_eq_iff.1 (h.constraints.imp fun c d hcd => ?_)).symm
    rw [hcd.name, hcd.graph.toAlike.outline_eq]
  rw [outline, outline, hconfig, h.objective.toAlike.outline_eq, h.combined.toAlike.outline_eq,
    hconstraints]

theorem Ready.of_lengths {p : Problem α} {memory other : Memory α} (hp : p.Ready memory)
    (hlengths : ∀ t, (other.read t).length = (memory.read t).length) : p.Ready other :=
  ⟨hp.objective.of_lengths hlengths, hp.combined.of_lengths hlengths,
    fun c hc => (hp.constraints c hc).of_lengths hlengths⟩

/-- Whether a problem is ready for evaluations and has the outline of another one. -/
structure ReadyAs (p like : Problem α) (memory : Memory α) : Prop
    extends Ready memory p where
  same : p.outline = like.outline

theorem ReadyAs.of_evaluated {p q like : Problem α} {memory : Memory α}
    (hp : p.ReadyAs like memory) (h : p.Evaluated q) (hconfig : q.config = p.config) :
    q.ReadyAs like memory :=
  ⟨hp.toReady.of_evaluated h, (outline_of_evaluated h hconfig).trans hp.same⟩

theorem ReadyAs.of_lengths {p like : Problem α} {memory other : Memory α}
    (hp : p.ReadyAs like memory)
    (hlengths : ∀ t, (other.read t).length = (memory.read t).length) : p.ReadyAs like other :=
  ⟨hp.toReady.of_lengths hlengths, hp.same⟩

/-- A problem stays ready while it is solved, and keeps its outline. -/
theorem kept_readyAs (s : Solver α σ) (like : Problem α) :
    Run.Kept s fun r => r.problem.ReadyAs like r.memory where
  minimize := by
    intro r h
    have hturn := Program.evaluated_run r.problem.multipliers (s.solve r.solver Results.fresh)
      (v := ⟨r.problem.combined, r.memory⟩) h.combined.sound
    have hlengths := Program.length_read_run r.problem.multipliers
      (s.solve r.solver Results.fresh) ⟨r.problem.combined, r.memory⟩
    have hleft : (Run.minimize s r).state.problem.ReadyAs like r.memory :=
      h.of_evaluated ⟨.refl _, hturn, rfl, Constraint.evaluated_self _⟩ rfl
    exact hleft.of_lengths hlengths
  objective := fun r h => h.of_evaluated ⟨Graph.evaluated_valueAtStorage h.objective.sound _ _,
    .refl _, rfl, Constraint.evaluated_self _⟩ rfl
  constraints := fun r h => h.of_evaluated (evaluated_of_constraints
    (Constraint.evaluated_evaluateAll r.memory fun c hc => (h.constraints c hc).sound)
    r.problem.outer) rfl
  duals := fun r h => h.of_evaluated (evaluated_of_constraints
    (Constraint.evaluated_moveDuals r.problem.outer.mu r.problem.constraints) r.problem.outer) rfl
  penalty := fun r h => h.of_evaluated (evaluated_of_constraints
    (Constraint.evaluated_self r.problem.constraints) _) rfl
  outer := fun f _ r h => h.of_evaluated (evaluated_of_constraints
    (Constraint.evaluated_self r.problem.constraints) _) rfl
  results := fun _ _ h => h

/-- A problem is ready for another solve after a solve, however that has ended. -/
theorem Ready.solve (s : Solver α σ) {r : Run α σ} (h : r.problem.Ready r.memory) :
    (Run.solve s r).state.problem.ReadyAs r.problem (Run.solve s r).state.memory := by
  refine (kept_readyAs s r.problem).keeps_solve ?_ r ⟨h, rfl⟩
  have houter (f : OuterState α → OuterState α) :
      Action.Keeps (fun q : Run α σ => q.problem.ReadyAs r.problem q.memory)
        (Run.modifyOuter f) := fun q h =>
    h.of_evaluated (evaluated_of_constraints (Constraint.evaluated_self q.problem.constraints) _) rfl
  refine .bind (houter _) fun _ => ?_
  refine .bind (.of_state_eq fun _ => rfl) fun nu => ?_
  refine .bind (houter _) fun _ q h => ?_
  refine h.of_evaluated (evaluated_of_constraints ?_ q.problem.outer) rfl
  show List.Forall₂ Constraint.Evaluated q.problem.constraints
    (q.problem.constraints.map fun c => { c with dual := 0 })
  exact List.forall₂_map_right_iff.2 (List.forall₂_same.2 fun c _ => ⟨rfl, .refl c.graph⟩)

/-- The constraints of two problems of one outline are of one structure. -/
theorem peers_of_outline {p q : Problem α} {memory : Memory α} (hp : p.Ready memory)
    (hq : q.Ready memory) (hsame : q.outline = p.outline) :
    List.Forall₂ (fun c d => d.name = c.name ∧ c.graph.Peers memory d.graph) p.constraints
      q.constraints := by
  have hconstraints : q.constraints.map (fun c => (c.name, c.graph.outline)) =
      p.constraints.map fun c => (c.name, c.graph.outline) := congrArg (·.2.2.2) hsame
  obtain ⟨hlength, hzip⟩ := List.forall₂_iff_zip.1 (forall₂_map_eq_iff.2 hconstraints.symm)
  refine List.forall₂_iff_zip.2 ⟨hlength, fun {c d} hmem => ?_⟩
  have hcd : (c.name, c.graph.outline) = (d.name, d.graph.outline) := hzip hmem
  obtain ⟨hc, hd⟩ := List.of_mem_zip hmem
  exact ⟨(congrArg Prod.fst hcd).symm,
    ⟨hp.constraints c hc, hq.constraints d hd, (congrArg Prod.snd hcd).symm⟩⟩

end Problem

namespace Run

/-- Two solves of problems of one outline agree once they have restarted. -/
theorem peers_restarted {r q : Run α σ} (hr : r.problem.Ready r.memory)
    (hq : q.problem.Ready q.memory) (hsame : q.problem.outline = r.problem.outline)
    (hmemory : q.memory = r.memory) (hsolver : q.solver = r.solver)
    (hresults : q.results = r.results) : (restarted r).Peers False (restarted q) where
  memory := hmemory
  solver := hsolver
  results := congrArg (fun results : Results α => { results with exit := .internalError }) hresults
  config := congrArg (·.1) hsame
  outer := rfl
  objective := ⟨hr.objective, hmemory ▸ hq.objective, congrArg (·.2.1) hsame⟩
  combined := ⟨hr.combined, hmemory ▸ hq.combined, congrArg (·.2.2.1) hsame⟩
  constraints := by
    have hpeers := Problem.peers_of_outline hr (hmemory ▸ hq) hsame
    refine List.forall₂_map_left_iff.2 (List.forall₂_map_right_iff.2 ?_)
    exact hpeers.imp fun c d ⟨hname, hgraph⟩ => ⟨hname, rfl, False.elim, hgraph⟩

/-- Whether a solver finds the same inner problem in two turns, and gives the same answer: the
structure of the combined graph, the multipliers and the penalty parameter in force, the storages,
and its own inner state. -/
structure SameTurn (s : Solver α σ) (r q : Run α σ) : Prop where
  graph : q.problem.combined.outline = r.problem.combined.outline
  multipliers : q.problem.multipliers = r.problem.multipliers
  memory : q.memory = r.memory
  solver : q.solver = r.solver
  result : (minimize s q).result = (minimize s r).result

theorem Peers.sameTurn {seen : Prop} {r q : Run α σ} (h : r.Peers seen q) (s : Solver α σ) :
    SameTurn s r q :=
  ⟨h.combined.same, h.multipliers_eq, h.memory, h.solver, (h.minimize s).result_eq.symm⟩

/-- Problems of one outline are solved alike, whatever was done with them before: the solver takes
the same turns, the results are the same and so are the storages, and if the solves return, then
also the outer state, the multipliers and the values of the constraints. -/
theorem solve_restarts (s : Solver α σ) {r q : Run α σ} (hr : r.problem.Ready r.memory)
    (hq : q.problem.Ready q.memory) (hsame : q.problem.outline = r.problem.outline)
    (hmemory : q.memory = r.memory) (hsolver : q.solver = r.solver)
    (hresults : q.results = r.results) (hvars : r.problem.combined.registry.vars ≠ []) :
    (solve s q).result = (solve s r).result ∧
    (solve s q).state.results = (solve s r).state.results ∧
    (solve s q).state.memory = (solve s r).state.memory ∧
    ((∃ nu : α, power initialPenalty violationExponent = .ok nu) →
      ∃ turns turns' last last' result, Loop s turns (restarted r) last result ∧
        Loop s turns' (restarted q) last' result ∧ (solve s r).state = noted last result ∧
        (solve s q).state = noted last' result ∧ (solve s r).result = result.map (fun _ => ()) ∧
        List.Forall₂ (SameTurn s) turns turns') ∧
    ((solve s r).result = .ok () →
      (solve s q).state.problem.outer = (solve s r).state.problem.outer ∧
      (solve s q).state.problem.constraints.map (fun c => (c.name, c.dual, c.value)) =
        (solve s r).state.problem.constraints.map fun c => (c.name, c.dual, c.value)) := by
  have hrestarted := peers_restarted hr hq hsame hmemory hsolver hresults
  have hvars' : q.problem.combined.registry.vars ≠ [] := by
    have hsamevars : q.problem.combined.registry.vars = r.problem.combined.registry.vars :=
      congrArg (·.2.2.1.1) hsame
    rwa [hsamevars]
  cases hpower : power (initialPenalty : α) violationExponent with
  | error fault =>
      obtain ⟨hresult, hstorages, hfilled⟩ := solve_of_no_power (s := s) hvars hpower
      obtain ⟨hresult', hstorages', hfilled'⟩ := solve_of_no_power (s := s) hvars' hpower
      refine ⟨hresult'.trans hresult.symm, ?_, ?_, fun ⟨_, hnu⟩ => (by cases hnu), fun hok => ?_⟩
      · rw [hfilled, hfilled', hresults]
      · rw [hstorages, hstorages', hmemory]
      · cases hresult.symm.trans hok
  | ok nu =>
      obtain ⟨turns, last, result, hloop, _, _, hstate, hresult⟩ :=
        loop_of_solve s hvars ⟨nu, hpower⟩
      obtain ⟨turns', last', _, hloop', _, _, hstate', hresult'⟩ := loop_of_solve s hvars' ⟨nu, hpower⟩
      obtain ⟨_, _, hparallel, hturns, hlast, hseen⟩ := hrestarted.of_loop hloop
      obtain ⟨rfl, rfl, rfl⟩ := hloop'.unique hparallel
      refine ⟨hresult'.trans hresult.symm, ?_, ?_, fun _ => ⟨turns, _, last, _, _, hloop, hparallel,
        hstate, hstate', hresult, hturns.imp fun _ _ hpeers => hpeers.sameTurn s⟩, fun hok => ?_⟩
      · rw [hstate, hstate']
        cases result with
        | error fault => exact hlast.results
        | ok exit =>
            exact congrArg (fun results : Results α => { results with exit := exit }) hlast.results
      · rw [hstate, hstate']
        cases result <;> exact hlast.memory
      · obtain ⟨exit, rfl, _⟩ := Action.of_map_eq_ok (hresult.symm.trans hok)
        have hfinal := hseen exit rfl
        rw [hstate, hstate']
        refine ⟨hfinal.outer, (forall₂_map_eq_iff.1 (hfinal.constraints.imp fun c d hcd => ?_)).symm⟩
        rw [hcd.name, hcd.dual, hcd.value trivial]

theorem built_constant (v : OnePower) : (constant v).problem.Built :=
  .addConstraint (.addTerm (.addVariable
    (.new (show Problem.new .standard 1 = .ok _ from rfl)) soleStorage none none)
    (.constant 1) []) "c" (.constant v) []

theorem ready_constant (v : OnePower) : (constant v).problem.Ready (constant v).memory := by
  have hvars : (constant v).problem.combined.registry.vars =
      [⟨0, soleStorage, 1, 1, 0, none⟩] := rfl
  refine (built_constant v).coherent.ready ?_ ?_
  · rw [hvars]
    intro w hw c hc
    cases List.mem_singleton.1 hw
    cases hc
  · rw [hvars]
    intro w hw
    cases List.mem_singleton.1 hw
    rfl

/-- A solve of the problem with a slack constraint, after it has been solved before, and then the
outer state, the multiplier and the value were set by hand. -/
def spent : Run OnePower Unit :=
  { constant (-1) with problem :=
    { (solve unmoved (constant (-1))).state.problem with
      outer := ⟨5.0, 0, 3, some 2.0⟩
      constraints := (solve unmoved (constant (-1))).state.problem.constraints.map fun c =>
        { c with dual := 7.0, value := 8.0 } } }

theorem readyAs_spent : spent.problem.ReadyAs (constant (-1)).problem spent.memory := by
  have hmemory : (solve unmoved (constant (-1))).state.memory = spent.memory := rfl
  have hsolved := (ready_constant (-1)).solve unmoved
  rw [hmemory] at hsolved
  refine hsolved.of_evaluated (Problem.evaluated_of_constraints ?_ _) rfl
  exact List.forall₂_map_right_iff.2 (List.forall₂_same.2 fun c _ => ⟨rfl, .refl c.graph⟩)

/-- It is solved like the problem that was never solved. -/
theorem restart_spent : (solve unmoved (constant (-1))).result = .ok () ∧
    (solve unmoved spent).result = .ok () ∧
    (solve unmoved spent).state.results = (solve unmoved (constant (-1))).state.results ∧
    (solve unmoved spent).state.problem.constraints.map (fun c => (c.name, c.dual, c.value)) =
      [("c", 0, -1)] ∧
    ∃ turns turns' last last' result, Loop unmoved turns (restarted (constant (-1))) last result ∧
      Loop unmoved turns' (restarted spent) last' result ∧
      List.Forall₂ (SameTurn unmoved) turns turns' := by
  have hok : (solve unmoved (constant (-1))).result = .ok () :=
    Action.of_toOption_eq_some (by decide +kernel)
  have hfinal : (solve unmoved (constant (-1))).state.problem.constraints.map
      (fun c => (c.name, c.dual, c.value)) = [("c", 0, -1)] := by decide +kernel
  have hpower : power (initialPenalty : OnePower) violationExponent = .ok 0.7943282347242815 :=
    Action.of_toOption_eq_some (by decide +kernel)
  obtain ⟨hresult, hresults, _, hturns, hstate⟩ := solve_restarts unmoved (ready_constant (-1))
    readyAs_spent.toReady readyAs_spent.same rfl rfl rfl (List.cons_ne_nil _ _)
  obtain ⟨_, hconstraints⟩ := hstate hok
  obtain ⟨turns, turns', last, last', result, hloop, hloop', _, _, _, hsame⟩ := hturns ⟨_, hpower⟩
  exact ⟨hok, hresult.trans hok, hresults, hconstraints.trans hfinal,
    turns, turns', last, last', result, hloop, hloop', hsame⟩

/-! ### A pool that does not know all variables -/

/-- A solver that asks for the gradient at one point and stores it. -/
def descending : Solver OnePower Unit where
  takesLines := false
  solve := fun s results =>
    .ask (.derivatives (.ofVector [1, 2.0]) none) fun
      | .error fault => .done (s, results, .error fault)
      | .ok d => .ask (.store (.ofVector d.gradient)) fun outcome => .done (s, results, outcome)

/-- A problem of one variable, and one term on it. -/
def cold : Problem OnePower :=
  (Problem.addTerm (.squaredDistance [0] 1) [.handle 0]
    (Problem.addVariable soleStorage none none
      ⟨.standard, 1, .empty false 1, .empty false 1, [], .fresh⟩).state).state

/-- The same problem after an evaluation of its combined graph. -/
def warm : Problem OnePower :=
  { cold with combined :=
    (Graph.derivatives Multipliers.none (.ofVector [1]) none (cold.combined, none)).state.1 }

/-- A solve of a problem whose combined graph was given a second variable directly. -/
def widened (p : Problem OnePower) : Run OnePower Unit where
  problem := { p with combined :=
    (Graph.onRegistry (Registry.add otherStorage none none) p.combined).state }
  memory := ⟨[[1], [2.0]]⟩
  solver := ()
  results := .fresh

theorem exposed_cold : cold.Exposed :=
  .extend (.extend (.new (show Problem.new .standard 1 = .ok _ from rfl))
    (.register soleStorage none none)) (.add (.squaredDistance [0] 1) [.handle 0])

theorem exposed_widened {p : Problem OnePower} (hp : p.Exposed) : (widened p).problem.Exposed :=
  .combined hp (.register otherStorage none none)

/-- No term uses the second variable, and so its storage becomes zero if the pool is built for both
variables. The pool of the first evaluation knows one variable, and the one entry of its accumulator
is added to both entries of the gradient. -/
theorem parted_by_pool : (widened cold).problem.Exposed ∧ (widened warm).problem.Exposed ∧
    (widened warm).problem.outline = (widened cold).problem.outline ∧
    (solve descending (widened cold)).result = .ok () ∧
    (solve descending (widened warm)).result = .ok () ∧
    (solve descending (widened cold)).state.memory = ⟨[[2.0], [0]]⟩ ∧
    (solve descending (widened warm)).state.memory = ⟨[[2.0], [2.0]]⟩ := by
  have hwarm : warm.Exposed :=
    .combined exposed_cold (.derivatives Multipliers.none (.ofVector [1]) none none)
  refine ⟨exposed_widened exposed_cold, exposed_widened hwarm, rfl, ?_, ?_, ?_, ?_⟩
  · exact Action.of_toOption_eq_some (by decide +kernel)
  · exact Action.of_toOption_eq_some (by decide +kernel)
  · decide +kernel
  · decide +kernel

end Run

end Separable
