import Separable.Proofs.Staleness

/-!
# Problems in step

A problem is extended through calls that each go to several graphs, one after the other. While a
problem is only used through these calls, its graphs stay in step: the objective is the combined
graph without the penalties, and the penalties are the constraints, in the order in which these were
added. Each penalty reads the multiplier of its own constraint, and all of them the one penalty
parameter of the problem.

The objective and the combined graph are also at hand for whoever holds the problem. If one of them
is extended directly, then the two can disagree on what they accept. The objective comes first, so
a call that the combined graph refuses may have extended the objective already; such a call is
*torn*. A refused call leaves a trace exactly if it is torn, and none is torn while the two graphs
have the same variables.

## Main results

* `in_step_of_built`: how the graphs of a problem fit together, however it was built and used.
* `Extension.of_refused`: what a refused call leaves, and when it leaves a trace.
* `Extension.torn_by_objective`: a torn call.
-/

namespace Separable

open Scalar

variable {α : Type} [Backend α]

/-! ## Graphs in step -/

namespace Problem

/-- Whether a summand with its variables is the penalty of the `i`-th constraint `c`: it is the one
term of the constraint's graph, under the multiplier of `c` and the penalty parameter in force. -/
def Pairs (p : Problem α) (b : Summand α × List (Variable α)) (c : Constraint α) (i : Nat) : Prop :=
  ∃ t ws, b.1 = .penalty i t ∧ b.1.resolve p.multipliers = t.penalized c.dual p.outer.mu ∧
    c.graph.terms.map Bound.binding = [(.plain t, ws)] ∧ List.Forall₂ Variable.Twin b.2 ws

theorem pairs_of_enforced {p : Problem α} {b : Summand α × List (Variable α)} {c : Constraint α}
    {i : Nat} (hmem : (c, i) ∈ p.constraints.zipIdx) (h : c.Enforced i b) : p.Pairs b c i := by
  obtain ⟨t, ws, hsummand, htwins, hterms⟩ := h.term
  have hresolve : b.1.resolve p.multipliers = t.penalized c.dual p.outer.mu := by
    rw [hsummand, Summand.resolve, dual_multipliers hmem]
    rfl
  exact ⟨t, ws, hsummand, hresolve, hterms, htwins⟩

/-- However a problem was built and used, the objective and the combined graph have the same
variables, the combined graph without its penalties is the objective, and its penalties are those
of the constraints one by one. -/
theorem in_step_of_built {p : Problem α} (hp : p.Built) :
    p.combined.registry.vars = p.objective.registry.vars ∧
    p.combined.scalars = p.objective.scalars ∧
    (p.combined.terms.map Bound.binding).filter (·.1.isPlain) =
      p.objective.terms.map Bound.binding ∧
    (p.constraints.map (·.name)).Nodup ∧
    List.Forall₂ (fun b ci => p.Pairs b ci.1 ci.2)
      ((p.combined.terms.map Bound.binding).filter (!·.1.isPlain)) p.constraints.zipIdx := by
  have hcoherent := hp.coherent
  have hscalars := hcoherent.combined.registry.scalars_eq hcoherent.objective.registry
    hcoherent.vars.symm
  refine ⟨hcoherent.vars.symm, hscalars, hcoherent.plain.symm, hcoherent.names, ?_⟩
  have hpaired := (List.forall₂_and_left _ _).2
    ⟨fun ci (hci : ci ∈ p.constraints.zipIdx) => hci, hcoherent.penalties.flip⟩
  exact (hpaired.imp fun ci b ⟨hmem, henforced⟩ => pairs_of_enforced hmem henforced).flip

/-- Two constraints, before and after a term, on a variable that was registered twice; and a
constraint that was refused. -/
def interleaved : Problem Float :=
  (addConstraint "d" (.affine [[1]] 0) [.handle 0]
    (addTerm (.affine [[1]] 0) [.storage soleStorage]
      (addConstraint "c" (.affine [[1]] 0) [.handle 0]
        (addConstraint "c" (.affine [[1], [1]] (-1)) [.handle 0, .storage soleStorage]
          (addVariable soleStorage none none
            (addVariable soleStorage none none
              ⟨.standard, 1, .empty false 1, .empty false 1, [], .fresh⟩).state).state).state
        ).state).state).state

theorem built_interleaved : interleaved.Built :=
  .addConstraint (.addTerm (.addConstraint (.addConstraint (.addVariable (.addVariable
    (.new (show Problem.new .standard 1 = .ok _ from rfl)) _ _ _) _ _ _) _ _ _) _ _ _) _ _) _ _ _

/-- The penalties are those of the two constraints that were accepted, in this order. -/
theorem in_step_interleaved : ∃ v : Variable Float,
    interleaved.combined.registry.vars = [v] ∧ interleaved.objective.registry.vars = [v] ∧
    interleaved.constraints.map (·.name) = ["c", "d"] ∧
    List.Forall₂ (fun b ci => interleaved.Pairs b ci.1 ci.2)
      [(.penalty 0 (.affine [[1], [1]] (-1)), [v, v]), (.penalty 1 (.affine [[1]] 0), [v])]
      interleaved.constraints.zipIdx := by
  obtain ⟨hvars, _, _, _, hpairs⟩ := in_step_of_built built_interleaved
  exact ⟨⟨0, soleStorage, 1, 1, 0, none⟩, hvars, rfl, rfl, hpairs⟩

end Problem

/-! ## Refused calls -/

namespace Graph

variable {β : Type}

/-- Whether an action on a graph is an addition: it fails and leaves the graph as it was, or it
gives the structure its next version. -/
def Adds (x : Action (Graph α) α β) : Prop :=
  ∀ g, (∃ fault, x g = ⟨g, [], .error fault⟩) ∨
    ∃ h b, x g = ⟨h, [], .ok b⟩ ∧ h.version = g.version + 1

theorem adds_addVariable (s : Storage) (dimension : Option Int) (reparam : Option (Reparam α)) :
    Adds (addVariable s dimension reparam) := by
  intro g
  rcases of_addVariable s dimension reparam g with ⟨fault, h⟩ | ⟨id, h⟩ | ⟨_, id, h⟩
  · exact .inl ⟨fault, h⟩
  · exact .inr ⟨_, id, h, rfl⟩
  · exact .inr ⟨_, id, h, rfl⟩

theorem adds_addTerm (s : Summand α) (arguments : List Ref) : Adds (addTerm s arguments) := by
  intro g
  cases hbind : g.bind s arguments with
  | error fault => exact .inl ⟨fault, addTerm_of_error hbind⟩
  | ok vars => exact .inr ⟨_, _, addTerm_of_ok hbind, rfl⟩

end Graph

namespace Problem

variable {β γ : Type} {x : Action (Graph α) α β} {p : Problem α}

/-- Whether the objective takes up what the combined graph refuses. -/
def TornBy (p : Problem α) (x : Action (Graph α) α β) (fault : Fault) : Prop :=
  (∃ b, (x p.objective).result = .ok b) ∧ (x p.combined).result = .error fault

/-- What a refused call leaves of a problem: all of it, or, if the call is torn, all but an
objective with one more version. -/
def Leaves (p q : Problem α) (torn : Prop) : Prop :=
  (¬ torn ∧ q = p) ∨
    (torn ∧ ∃ g : Graph α, g.version = p.objective.version + 1 ∧ q = { p with objective := g })

omit [Backend α] in
/-- An addition to the objective and then to the combined graph, if it is refused. -/
theorem leaves_of_both (hx : Graph.Adds x) (f : β → γ) {fault : Fault}
    (h : ((onObjective x >>= fun b => onCombined x >>= fun _ => pure (f b) :
      Action (Problem α) α γ) p).result = .error fault) :
    Leaves p ((onObjective x >>= fun b => onCombined x >>= fun _ => pure (f b) :
      Action (Problem α) α γ) p).state (p.TornBy x fault) := by
  rcases hx p.objective with ⟨first, hfirst⟩ | ⟨g, b, hfirst, hversion⟩
  · rw [Action.bind_error (onObjective_of_error hfirst)]
    refine .inl ⟨fun ⟨⟨b, hb⟩, _⟩ => ?_, rfl⟩
    rw [hfirst] at hb
    cases hb
  · have hobjective := onObjective_of_ok hfirst
    rcases hx p.combined with ⟨second, hsecond⟩ | ⟨combined, c, hsecond, _⟩
    · have hcombined := onCombined_of_error (p := { p with objective := g }) hsecond
      rw [Action.bind_ok hobjective, Action.bind_error hcombined] at h ⊢
      have hsame : second = fault := by
        cases h
        rfl
      exact .inr ⟨⟨⟨b, by rw [hfirst]⟩, by rw [hsecond, hsame]⟩, g, hversion, rfl⟩
    · have hcombined := onCombined_of_ok (p := { p with objective := g }) hsecond
      rw [Action.bind_ok hobjective, Action.bind_ok hcombined] at h
      cases h

end Problem

/-- What a problem can be extended by. -/
inductive Extension (α : Type) where
  | register (s : Storage) (dimension : Option Int) (reparam : Option (Reparam α))
  | add (t : Term α) (arguments : List Ref)
  | constrain (name : String) (t : Term α) (arguments : List Ref)

namespace Extension

/-- Extends a problem. -/
def perform : Extension α → Action (Problem α) α Unit
  | .register s dimension reparam => do let _ ← Problem.addVariable s dimension reparam
  | .add t arguments => Problem.addTerm t arguments
  | .constrain name t arguments => do let _ ← Problem.addConstraint name t arguments

/-- Whether the objective takes up what the combined graph refuses. A constraint is none of the
objective's business. -/
def Torn (p : Problem α) (fault : Fault) : Extension α → Prop
  | .register s dimension reparam => p.TornBy (Graph.addVariable s dimension reparam) fault
  | .add t arguments => ∃ vars, p.resolve arguments = .ok vars ∧
      p.TornBy (Graph.addTerm (.plain t) (vars.map fun v => .storage v.storage)) fault
  | .constrain _ _ _ => False

variable {p : Problem α} {fault : Fault}

/-- Nothing is torn while the two graphs have the same variables. -/
theorem not_torn (hobjective : p.objective.registry.Sound) (hcombined : p.combined.registry.Sound)
    (hvars : p.objective.registry.vars = p.combined.registry.vars) (e : Extension α) :
    ¬ e.Torn p fault := by
  cases e with
  | register s dimension reparam =>
      rintro ⟨⟨id, hid⟩, hfault⟩
      have hcheck := Registry.check_congr hobjective hcombined hvars s dimension reparam
      cases hverdict : p.objective.registry.check s dimension reparam with
      | error fault =>
          rw [Graph.addVariable_of_error (Registry.add_of_check_error hverdict)] at hid
          cases hid
      | ok known =>
          rw [hverdict] at hcheck
          cases known with
          | some id =>
              rw [Graph.addVariable_of_ok (Registry.add_of_check_some hcheck.symm)] at hfault
              cases hfault
          | none =>
              rw [Graph.addVariable_of_ok (Registry.add_of_check_none hcheck.symm)] at hfault
              cases hfault
  | add t arguments =>
      rintro ⟨vars, _, ⟨b, hb⟩, hfault⟩
      have hbind := Graph.bind_congr hobjective hcombined hvars (.plain t)
        (vars.map fun v => .storage v.storage)
      cases hbound : p.objective.bind (.plain t) (vars.map fun v => .storage v.storage) with
      | error fault =>
          rw [Graph.addTerm_of_error hbound] at hb
          cases hb
      | ok bound =>
          rw [hbound] at hbind
          rw [Graph.addTerm_of_ok hbind.symm] at hfault
          cases hfault
  | constrain name t arguments => exact id

theorem leaves_add (t : Term α) (arguments : List Ref)
    (h : (Problem.addTerm t arguments p).result = .error fault) :
    Problem.Leaves p (Problem.addTerm t arguments p).state
      ((Extension.add t arguments).Torn p fault) := by
  have hget : ((Action.get : Action (Problem α) α _) p).result = .ok p := rfl
  rw [Problem.addTerm, Action.result_bind_of_ok hget, Action.state_get] at h
  rw [Problem.addTerm, Action.state_bind_of_ok hget, Action.state_get]
  cases hresolve : p.resolve arguments with
  | error first =>
      rw [Action.state_bind_of_error (Action.result_ofExcept _ _), Action.state_ofExcept]
      refine .inl ⟨?_, rfl⟩
      rintro ⟨vars, hvars, _⟩
      rw [hresolve] at hvars
      cases hvars
  | ok vars =>
      rw [hresolve, Action.result_bind_of_ok (Action.result_ofExcept _ _),
        Action.state_ofExcept] at h
      rw [Action.state_bind_of_ok (Action.result_ofExcept _ _), Action.state_ofExcept]
      have hleaves := Problem.leaves_of_both
        (Graph.adds_addTerm (.plain t) (vars.map fun v => .storage v.storage)) (fun _ => ()) h
      have htorn : (Extension.add t arguments).Torn p fault ↔
          p.TornBy (Graph.addTerm (.plain t) (vars.map fun v => .storage v.storage)) fault := by
        constructor
        · rintro ⟨others, hothers, htorn⟩
          rw [hresolve] at hothers
          cases hothers
          exact htorn
        · exact fun htorn => ⟨vars, hresolve, htorn⟩
      rw [htorn]
      exact hleaves

/-- A constraint that is refused leaves no trace. -/
theorem undone_addConstraint (name : String) (t : Term α) (arguments : List Ref) (p : Problem α) :
    Action.Undone (Problem.addConstraint name t arguments) p := by
  refine .bind_of_state rfl fun q hq => ?_
  cases hq
  refine .bind_of_state rfl fun _ _ => .bind_of_state rfl fun vars _ =>
    .bind_of_state rfl fun graph _ => .bind_of_ok ?_ fun _ _ => ⟨_, rfl⟩
  rcases Graph.adds_addTerm (.penalty p.constraints.length t)
    (vars.map fun v => .storage v.storage) p.combined with ⟨first, hfirst⟩ | ⟨g, b, hfirst, _⟩
  · intro fault _
    rw [Problem.onCombined_of_error hfirst]
  · intro fault hfault
    rw [Problem.onCombined_of_ok hfirst] at hfault
    cases hfault

/-- A refused call leaves the combined graph and the constraints as they were. It leaves no trace at
all unless it is torn, and then the objective has one more version. It is not torn while the
objective and the combined graph have the same variables in sound registries. -/
theorem of_refused {e : Extension α} (h : (e.perform p).result = .error fault) :
    (e.perform p).state = { p with objective := (e.perform p).state.objective } ∧
    ((e.perform p).state = p ↔ ¬ e.Torn p fault) ∧
    (e.Torn p fault → (e.perform p).state.objective.version = p.objective.version + 1) ∧
    (p.objective.registry.Sound → p.combined.registry.Sound →
      p.objective.registry.vars = p.combined.registry.vars → (e.perform p).state = p) := by
  have hleaves : Problem.Leaves p (e.perform p).state (e.Torn p fault) := by
    cases e with
    | register s dimension reparam =>
        obtain ⟨hresult, hstate⟩ := Action.of_discarded h
        rw [perform, hstate]
        exact Problem.leaves_of_both (Graph.adds_addVariable s dimension reparam) id hresult
    | add t arguments => exact leaves_add t arguments h
    | constrain name t arguments =>
        obtain ⟨hresult, hstate⟩ := Action.of_discarded h
        rw [perform, hstate]
        exact .inl ⟨id, undone_addConstraint name t arguments p fault hresult⟩
  have hsame (hobjective : p.objective.registry.Sound) (hcombined : p.combined.registry.Sound)
      (hvars : p.objective.registry.vars = p.combined.registry.vars) :
      (e.perform p).state = p := by
    rcases hleaves with ⟨_, hstate⟩ | ⟨htorn, _⟩
    · exact hstate
    · exact absurd htorn (not_torn hobjective hcombined hvars e)
  rcases hleaves with ⟨htorn, hstate⟩ | ⟨htorn, g, hversion, hstate⟩
  · refine ⟨?_, ⟨fun _ => htorn, fun _ => hstate⟩, fun h => absurd h htorn, hsame⟩
    rw [hstate]
  · refine ⟨?_, ⟨fun hp => ?_, fun h => absurd htorn h⟩, fun _ => ?_, hsame⟩
    · rw [hstate]
    · have hmoved := congrArg (fun q => q.objective.version) (hstate.symm.trans hp)
      dsimp only at hmoved
      omega
    · rw [hstate]
      exact hversion

/-- A second constraint of one name leaves no trace. -/
theorem refused_interleaved :
    (perform (.constrain "c" (.affine [[1]] 0) [.handle 0]) Problem.interleaved).result =
      .error (.duplicateConstraint "c") ∧
    (perform (.constrain "c" (.affine [[1]] 0) [.handle 0]) Problem.interleaved).state =
      Problem.interleaved := by
  have hresult : (perform (.constrain "c" (.affine [[1]] 0) [.handle 0])
      Problem.interleaved).result = .error (.duplicateConstraint "c") := rfl
  have hcoherent := Problem.built_interleaved.coherent
  obtain ⟨_, _, _, hsame⟩ := of_refused hresult
  exact ⟨hresult, hsame hcoherent.objective.registry hcoherent.combined.registry rfl⟩

end Extension

/-! ## Graphs in other hands -/

/-- The problems that arise when the objective and the combined graph are also changed directly. -/
inductive Problem.Exposed : Problem α → Prop
  | new {config : Config α} {workers : Int} {p : Problem α}
      (h : Problem.new config workers = .ok p) : Exposed p
  | extend {p : Problem α} (hp : Exposed p) (e : Extension α) : Exposed (e.perform p).state
  | setMultipliers {p : Problem α} (hp : Exposed p) (mu : Option (Supplied α))
      (duals : List (String × Supplied α)) : Exposed (setMultipliers mu duals p).state
  | isFeasible {p : Problem α} (hp : Exposed p) (memory : Memory α) :
      Exposed (isFeasible memory p).state
  | solve {p : Problem α} (hp : Exposed p) {σ : Type} (s : Solver α σ) (memory : Memory α)
      (solver : σ) (results : Results α) :
      Exposed (Run.solve s ⟨p, memory, solver, results⟩).state.problem
  | objective {p : Problem α} (hp : Exposed p) {g : Graph α} (h : p.objective.Change g) :
      Exposed { p with objective := g }
  | combined {p : Problem α} (hp : Exposed p) {g : Graph α} (h : p.combined.Change g) :
      Exposed { p with combined := g }

namespace Extension

/-- A problem with a variable that was added to the objective only. -/
def ahead : Problem Float :=
  ⟨.standard, 1, (Graph.addVariable soleStorage none none (.empty false 1)).state, .empty false 1,
    [], .fresh⟩

theorem exposed_ahead : ahead.Exposed :=
  .objective (.new (show Problem.new .standard 1 = .ok _ from rfl))
    (.addVariable soleStorage none none)

/-- The objective keeps the term that the combined graph refuses. -/
theorem torn_by_objective :
    ahead.Exposed ∧
    (perform (.add (.squaredDistance [1] 1) [.storage soleStorage]) ahead).result =
      .error .unknownStorage ∧
    ahead.objective.terms.length = 0 ∧ ahead.objective.version = 1 ∧
    (perform (.add (.squaredDistance [1] 1) [.storage soleStorage])
      ahead).state.objective.terms.length = 1 ∧
    (perform (.add (.squaredDistance [1] 1) [.storage soleStorage])
      ahead).state.objective.version = 2 :=
  ⟨exposed_ahead, rfl, rfl, rfl, rfl, rfl⟩

end Extension

end Separable
