import Separable.Proofs.Graph
import Separable.Proofs.Rounds

/-!
# Coherent problems

A problem keeps its terms in several graphs over the same storage. However it was built, and
whatever was evaluated or solved in between, these graphs fit together: the objective and the
combined graph have the same variables, the plain terms of the combined graph are those of the
objective, and its penalties are those of the constraints, one by one. The graph of a constraint
has variables of its own; each is a *twin* of one of the combined graph, with another handle and
another slice.

## Main results

* `of_graphOf_eq_ok`: the graph of a constraint has one term, at twins of the variables asked for.
* `Coherent.of_evaluated`: evaluations and changes of multipliers keep a problem coherent.
* `coherent_addVariable`, `coherent_addTerm`, `coherent_addConstraint`, `coherent_solve`: so does
  everything else that a problem can be asked to do.
* `Built.coherent`: every problem that can arise is coherent.
-/

namespace Separable

variable {α : Type}

/-! ## Twins -/

/-- Whether two variables are the same but for their places in their registries. -/
structure Variable.Twin (v w : Variable α) : Prop where
  storage : w.storage = v.storage
  userDimension : w.userDimension = v.userDimension
  solverDimension : w.solverDimension = v.solverDimension
  reparam : w.reparam = v.reparam

namespace Registry

/-- Registering the storage of a variable anew makes a twin. -/
theorem twin_newVariable {v : Variable α} (hv : v.Fits) (r : Registry α) :
    v.Twin (r.newVariable v.storage v.reparam) where
  storage := rfl
  userDimension := by simp [newVariable, hv.length]
  solverDimension := by
    unfold newVariable
    cases hc : v.reparam with
    | none => simp [hv.length, hv.plain hc]
    | some c => exact (hv.reparam c hc).2
  reparam := rfl

/-! ## Registries with the same variables -/

theorem Laid.stop_eq {vars : List (Variable α)} {start stop other : Nat} (h : Laid start vars stop)
    (hother : Laid start vars other) : stop = other := by
  induction vars generalizing start with
  | nil => exact h.symm.trans hother
  | cons v rest ih => exact ih h.2 hother.2

section SameVariables

variable {r q : Registry α}

theorem Sound.scalars_eq (hr : r.Sound) (hq : q.Sound) (h : r.vars = q.vars) :
    r.scalars = q.scalars := by
  have hslices := hr.slices
  rw [h] at hslices
  exact hslices.stop_eq hq.slices

theorem Sound.index_eq (hr : r.Sound) (hq : q.Sound) (h : r.vars = q.vars) : r.index = q.index := by
  rw [hr.index, hq.index, h]

theorem findStorage?_congr (hr : r.Sound) (hq : q.Sound) (h : r.vars = q.vars) (s : Storage) :
    r.findStorage? s = q.findStorage? s := by
  rw [hr.findStorage?_eq, hq.findStorage?_eq, h]

theorem resolve_congr (hr : r.Sound) (hq : q.Sound) (h : r.vars = q.vars) (ref : Ref) :
    r.resolve ref = q.resolve ref := by
  cases ref with
  | handle index => simp only [resolve, findHandle?, h]
  | storage s => simp only [resolve, findStorage?_congr hr hq h s]

theorem check_congr (hr : r.Sound) (hq : q.Sound) (h : r.vars = q.vars) (s : Storage)
    (dimension : Option Int) (reparam : Option (Reparam α)) :
    r.check s dimension reparam = q.check s dimension reparam := by
  simp only [check, findStorage?_congr hr hq h s]

theorem vars_push_congr [Backend α] (hr : r.Sound) (hq : q.Sound) (h : r.vars = q.vars)
    (s : Storage) (reparam : Option (Reparam α)) :
    (r.push s reparam).vars = (q.push s reparam).vars := by
  have hslots : r.slots.length = q.slots.length := by
    rw [← length_vars, ← length_vars, h]
  simp only [vars_push, h, newVariable, hslots, hr.scalars_eq hq h]

/-- Registering does the same to two registries with the same variables. -/
theorem add_congr [Backend α] (hr : r.Sound) (hq : q.Sound) (h : r.vars = q.vars) {s : Storage}
    {dimension : Option Int} {reparam : Option (Reparam α)} {known : Option Nat}
    (hcheck : r.check s dimension reparam = .ok known) :
    ∃ r' q' id, add s dimension reparam r = ⟨r', [], .ok id⟩ ∧
      add s dimension reparam q = ⟨q', [], .ok id⟩ ∧ r'.vars = q'.vars := by
  have hcheck' := (check_congr hr hq h s dimension reparam).symm.trans hcheck
  cases known with
  | some id => exact ⟨r, q, id, add_of_check_some hcheck, add_of_check_some hcheck', h⟩
  | none =>
      have hslots : q.slots.length = r.slots.length := by
        rw [← length_vars, ← length_vars, h]
      refine ⟨r.push s reparam, q.push s reparam, r.slots.length, add_of_check_none hcheck, ?_,
        vars_push_congr hr hq h s reparam⟩
      rw [add_of_check_none hcheck', hslots]

/-- A variable that is looked up by its storage is found. -/
theorem Sound.resolve_storage (hr : r.Sound) {v : Variable α} (hv : v ∈ r.vars) :
    r.resolve (.storage v.storage) = .ok v := by
  rw [resolve, hr.findStorage?_of_mem hv]

/-- A variable that is found by a storage has its key. -/
theorem Sound.key_of_resolve (hr : r.Sound) {s : Storage} {v : Variable α}
    (h : r.resolve (.storage s) = .ok v) : v.storage.key = s.key := by
  simp only [resolve] at h
  split at h
  · next w hw =>
    cases h
    exact ((hr.findStorage?_iff s v).1 hw).2
  · cases h

end SameVariables

end Registry

/-! ## Additions to a graph -/

/-- A bound term without its blocks. -/
def Bound.binding (b : Bound α) : Summand α × List (Variable α) := (b.summand, b.vars)

theorem Bound.map_binding_eq_of_outline {terms others : List (Bound α)}
    (h : others.map outline = terms.map outline) : others.map binding = terms.map binding := by
  refine map_eq_of_outline h fun b d hbd => ?_
  simp only [outline, Prod.mk.injEq] at hbd
  rw [binding, binding, hbd.1, hbd.2.1]

namespace Graph

theorem bind_congr {g h : Graph α} (hg : g.registry.Sound) (hh : h.registry.Sound)
    (hvars : g.registry.vars = h.registry.vars) (s : Summand α) (arguments : List Ref) :
    g.bind s arguments = h.bind s arguments := by
  have hresolve : g.registry.resolve = h.registry.resolve :=
    funext fun ref => Registry.resolve_congr hg hh hvars ref
  simp only [bind, hresolve]

variable [Backend α]

theorem map_binding_push (g : Graph α) (s : Summand α) (vars : List (Variable α)) :
    (g.push s vars).1.terms.map Bound.binding = g.terms.map Bound.binding ++ [(s, vars)] := by
  simp [push, Bound.binding]

theorem addTerm_of_ok {g : Graph α} {s : Summand α} {arguments : List Ref}
    {vars : List (Variable α)} (h : g.bind s arguments = .ok vars) :
    addTerm s arguments g = ⟨(g.push s vars).1, [], .ok (g.push s vars).2⟩ := by
  simp [addTerm, Action.run, h]

theorem addTerm_of_error {g : Graph α} {s : Summand α} {arguments : List Ref} {fault : Fault}
    (h : g.bind s arguments = .error fault) : addTerm s arguments g = ⟨g, [], .error fault⟩ := by
  simp [addTerm, Action.run, h]

end Graph

/-! ## The graph of a constraint -/

variable [Backend α]

namespace Constraint

/-- What is true of the graph of a constraint while its variables are registered. -/
structure Growing (vars : List (Variable α)) (g : Graph α) : Prop where
  sound : g.Sound
  terms : g.terms = []
  twins : ∀ w ∈ g.registry.vars, ∃ v ∈ vars, v.Twin w

theorem keeps_growing {vars : List (Variable α)} {v : Variable α} (hv : v ∈ vars) (hfits : v.Fits) :
    Action.Keeps (Growing vars)
      (Graph.addVariable v.storage (some (v.userDimension : Int)) v.reparam) := by
  intro g hg
  have hsound := Graph.sound_addVariable hg.sound v.storage (some (v.userDimension : Int)) v.reparam
  cases hcheck : g.registry.check v.storage (some (v.userDimension : Int)) v.reparam with
  | error fault =>
      rw [Graph.addVariable_of_error (Registry.add_of_check_error hcheck)] at hsound ⊢
      exact ⟨hsound, hg.terms, hg.twins⟩
  | ok known =>
      cases known with
      | some id =>
          rw [Graph.addVariable_of_ok (Registry.add_of_check_some hcheck)] at hsound ⊢
          exact ⟨hsound, hg.terms, hg.twins⟩
      | none =>
          rw [Graph.addVariable_of_ok (Registry.add_of_check_none hcheck)] at hsound ⊢
          refine ⟨hsound, hg.terms, fun w hw => ?_⟩
          rw [Registry.vars_push] at hw
          rcases List.mem_append.1 hw with hw | hw
          · exact hg.twins w hw
          · rw [List.mem_singleton.1 hw]
            exact ⟨v, hv, Registry.twin_newVariable hfits g.registry⟩

omit [Backend α] in
/-- Arguments that are looked up by storage are bound to twins. -/
theorem twins_of_resolve {r : Registry α} (hr : r.Sound) {q : Registry α} (hq : q.Sound)
    {all vars : List (Variable α)} (hall : ∀ v ∈ all, v ∈ r.vars)
    (htwins : ∀ w ∈ q.vars, ∃ v ∈ all, v.Twin w) (hvars : ∀ v ∈ vars, v ∈ r.vars)
    {ws : List (Variable α)}
    (h : List.Forall₂ (fun ref w => q.resolve ref = .ok w) (vars.map fun v => .storage v.storage)
      ws) : List.Forall₂ Variable.Twin vars ws := by
  rw [List.forall₂_map_left_iff] at h
  refine ((List.forall₂_and_left _ _).2 ⟨hvars, h⟩).imp fun v w ⟨hv, hw⟩ => ?_
  obtain ⟨u, hu, htwin⟩ := htwins w (Registry.mem_of_resolve hw)
  have hkey : u.storage.key = v.storage.key := by
    rw [← htwin.storage]
    exact hq.key_of_resolve hw
  exact hr.eq_of_key_eq (hall u hu) hv hkey ▸ htwin

/-- The graph of a constraint has one term, at twins of the variables asked for, and no other
variables. -/
theorem of_graphOf_eq_ok {r : Registry α} (hr : r.Sound) {workers : Nat} (hworkers : 0 < workers)
    {t : Term α} {vars : List (Variable α)} (hvars : ∀ v ∈ vars, v ∈ r.vars) {g : Graph α}
    (h : graphOf workers t vars = .ok g) :
    g.Sound ∧ (∀ w ∈ g.registry.vars, ∃ v ∈ vars, v.Twin w) ∧
      ∃ ws, List.Forall₂ Variable.Twin vars ws ∧
        g.terms.map Bound.binding = [(.plain t, ws)] := by
  have hempty : Growing vars (Graph.empty false workers) :=
    ⟨Graph.sound_empty false hworkers, rfl, by simp [Graph.empty, Registry.empty, Registry.vars]⟩
  have hkeeps : Action.Keeps (Growing vars) (vars.forM fun v => do
      let _ ← Graph.addVariable v.storage (some (v.userDimension : Int)) v.reparam) :=
    .forM fun v hv => .bind (keeps_growing hv (hr.fits v (hvars v hv))) fun _ =>
      .of_state_eq fun _ => rfl
  have hgrown := hkeeps _ hempty
  unfold graphOf at h
  dsimp only at h
  obtain ⟨b, hresult, rfl⟩ := Action.of_map_eq_ok h
  obtain ⟨_, _, hadd, hstate⟩ := Action.of_result_bind_eq_ok hresult
  rw [hstate]
  generalize ((vars.forM fun v => do
    let _ ← Graph.addVariable v.storage (some (v.userDimension : Int)) v.reparam)
      (Graph.empty false workers)).state = grown at hadd hgrown
  cases hbind : grown.bind (.plain t) (vars.map fun v => .storage v.storage) with
  | error fault =>
      rw [Graph.addTerm_of_error hbind] at hadd
      cases hadd
  | ok ws =>
      have hsound := Graph.sound_addTerm hgrown.sound (.plain t)
        (vars.map fun v => .storage v.storage)
      rw [Graph.addTerm_of_ok hbind] at hsound ⊢
      refine ⟨hsound, hgrown.twins, ws, ?_, ?_⟩
      · exact twins_of_resolve hr hgrown.sound.registry hvars hgrown.twins hvars
          (Graph.of_bind_eq_ok hbind).1
      · rw [Graph.map_binding_push, hgrown.terms]
        rfl

/-! ## Coherence -/

/-- Whether a summand with its variables is the penalty of this constraint, at variables whose twins
the graph of the constraint has. -/
structure Enforced (c : Constraint α) (i : Nat) (b : Summand α × List (Variable α)) : Prop where
  sound : c.graph.Sound
  twins : ∀ w ∈ c.graph.registry.vars, ∃ v ∈ b.2, v.Twin w
  term : ∃ t ws, b.1 = .penalty i t ∧ List.Forall₂ Variable.Twin b.2 ws ∧
    c.graph.terms.map Bound.binding = [(.plain t, ws)]

/-- Whether `d` can be the constraint `c` after some evaluations and changes of its multiplier. -/
structure Evaluated (c d : Constraint α) : Prop where
  name : d.name = c.name
  graph : c.graph.Evaluated d.graph

theorem Enforced.of_evaluated {c d : Constraint α} {i : Nat} {b : Summand α × List (Variable α)}
    (h : c.Enforced i b) (hgraph : c.graph.Evaluated d.graph) : d.Enforced i b where
  sound := h.sound.of_evaluated hgraph
  twins := hgraph.vars ▸ h.twins
  term := by
    obtain ⟨t, ws, hsummand, htwins, hterms⟩ := h.term
    exact ⟨t, ws, hsummand, htwins, (Bound.map_binding_eq_of_outline hgraph.terms).trans hterms⟩

theorem forall₂_enforced {cs ds : List (Constraint α)} (h : List.Forall₂ Evaluated cs ds) {n : Nat}
    {bs : List (Summand α × List (Variable α))}
    (hbs : List.Forall₂ (fun b ci => Enforced ci.1 ci.2 b) bs (cs.zipIdx n)) :
    List.Forall₂ (fun b ci => Enforced ci.1 ci.2 b) bs (ds.zipIdx n) := by
  induction h generalizing n bs with
  | nil => exact hbs
  | cons hcd _ ih =>
      rw [List.zipIdx_cons] at hbs ⊢
      cases hbs with
      | cons hb hbs => exact List.Forall₂.cons (hb.of_evaluated hcd.graph) (ih hbs)

end Constraint

/-- Whether a summand is a term, and not the penalty of a constraint. -/
def Summand.isPlain : Summand α → Bool
  | plain _ => true
  | penalty _ _ => false

namespace Problem

/-- What every problem is that can arise. -/
structure Coherent (p : Problem α) : Prop where
  objective : p.objective.Sound
  combined : p.combined.Sound
  workers : 0 < p.workers
  names : (p.constraints.map (·.name)).Nodup
  vars : p.objective.registry.vars = p.combined.registry.vars
  plain : p.objective.terms.map Bound.binding =
    (p.combined.terms.map Bound.binding).filter (·.1.isPlain)
  penalties : List.Forall₂ (fun b ci => Constraint.Enforced ci.1 ci.2 b)
    ((p.combined.terms.map Bound.binding).filter (!·.1.isPlain)) p.constraints.zipIdx

/-- Whether `q` can be the problem `p` after some evaluations and changes of multipliers. -/
structure Evaluated (p q : Problem α) : Prop where
  objective : p.objective.Evaluated q.objective
  combined : p.combined.Evaluated q.combined
  workers : q.workers = p.workers
  constraints : List.Forall₂ Constraint.Evaluated p.constraints q.constraints

/-- Evaluations and changes of multipliers keep a problem coherent. -/
theorem Coherent.of_evaluated {p q : Problem α} (hp : p.Coherent) (h : p.Evaluated q) :
    q.Coherent where
  objective := hp.objective.of_evaluated h.objective
  combined := hp.combined.of_evaluated h.combined
  workers := h.workers ▸ hp.workers
  names := by
    have heq : List.Forall₂ (fun a b : String => a = b) (p.constraints.map (·.name))
        (q.constraints.map (·.name)) := by
      rw [List.forall₂_map_left_iff, List.forall₂_map_right_iff]
      exact h.constraints.imp fun c d hcd => hcd.name.symm
    rw [List.forall₂_eq_eq_eq] at heq
    exact heq ▸ hp.names
  vars := by rw [h.objective.vars, h.combined.vars, hp.vars]
  plain := by
    rw [Bound.map_binding_eq_of_outline h.objective.terms,
      Bound.map_binding_eq_of_outline h.combined.terms, hp.plain]
  penalties := by
    rw [Bound.map_binding_eq_of_outline h.combined.terms]
    exact Constraint.forall₂_enforced h.constraints hp.penalties

/-- Every constraint has its penalty. -/
theorem Coherent.exists_enforced {p : Problem α} (hp : p.Coherent) {c : Constraint α}
    (hc : c ∈ p.constraints) :
    ∃ i, ∃ b ∈ p.combined.terms.map Bound.binding, c.Enforced i b := by
  obtain ⟨i, hi, rfl⟩ := List.getElem_of_mem hc
  obtain ⟨hlength, hall⟩ := List.forall₂_iff_get.1 hp.penalties
  have hi' : i < p.constraints.zipIdx.length := by rwa [List.length_zipIdx]
  have henforced := hall i (hlength ▸ hi') hi'
  refine ⟨i, _, (List.mem_filter.1 (List.get_mem _ ⟨i, hlength ▸ hi'⟩)).1, ?_⟩
  simpa using henforced

theorem Coherent.sound {p : Problem α} (hp : p.Coherent) :
    ∀ c ∈ p.constraints, c.graph.Sound := by
  intro c hc
  obtain ⟨_, _, _, henforced⟩ := hp.exists_enforced hc
  exact henforced.sound

/-- The multiplier of a constraint is that of its place. -/
theorem dual_multipliers {p : Problem α} {c : Constraint α} {i : Nat}
    (h : (c, i) ∈ p.constraints.zipIdx) : p.multipliers.dual i = c.dual := by
  obtain ⟨hi, heq⟩ := List.mem_zipIdx' h
  simp [Multipliers.dual, multipliers, hi, heq]

/-! ### Variables and terms -/

variable {p : Problem α}

section Parts

variable {β : Type} {x : Action (Graph α) α β} {g : Graph α} {log : List (Entry α)}

omit [Backend α] in
theorem onObjective_of_ok {b : β} (h : x p.objective = ⟨g, log, .ok b⟩) :
    onObjective x p = ⟨{ p with objective := g }, log, .ok b⟩ := by
  rw [onObjective, Action.within, h]

omit [Backend α] in
theorem onCombined_of_ok {b : β} (h : x p.combined = ⟨g, log, .ok b⟩) :
    onCombined x p = ⟨{ p with combined := g }, log, .ok b⟩ := by
  rw [onCombined, Action.within, h]

omit [Backend α] in
theorem onObjective_of_error {fault : Fault} (h : x p.objective = ⟨p.objective, log, .error fault⟩) :
    onObjective x p = ⟨p, log, .error fault⟩ := by
  rw [onObjective, Action.within, h]

omit [Backend α] in
theorem onCombined_of_error {fault : Fault} (h : x p.combined = ⟨p.combined, log, .error fault⟩) :
    onCombined x p = ⟨p, log, .error fault⟩ := by
  rw [onCombined, Action.within, h]

end Parts

theorem coherent_addVariable (hp : p.Coherent) (s : Storage) (dimension : Option Int)
    (reparam : Option (Reparam α)) : (addVariable s dimension reparam p).state.Coherent := by
  have hobjective := Graph.sound_addVariable hp.objective s dimension reparam
  have hcombined := Graph.sound_addVariable hp.combined s dimension reparam
  cases hcheck : p.objective.registry.check s dimension reparam with
  | error fault =>
      have hadd := Graph.addVariable_of_error (Registry.add_of_check_error hcheck)
      rw [addVariable, Action.bind_error (onObjective_of_error hadd)]
      exact hp
  | ok known =>
      -- The registries have the same variables, so what the first accepts the second accepts, too.
      obtain ⟨r, q, id, hr, hq, hvars⟩ :=
        Registry.add_congr hp.objective.registry hp.combined.registry hp.vars hcheck
      have hfirst := onObjective_of_ok (Graph.addVariable_of_ok hr)
      have hsecond := onCombined_of_ok
        (p := { p with objective := { p.objective with
          registry := r, version := p.objective.version + 1 } }) (Graph.addVariable_of_ok hq)
      rw [Graph.addVariable_of_ok hr] at hobjective
      rw [Graph.addVariable_of_ok hq] at hcombined
      rw [addVariable, Action.bind_ok hfirst, Action.bind_ok hsecond]
      exact ⟨hobjective, hcombined, hp.workers, hp.names, hvars, hp.plain, hp.penalties⟩

theorem coherent_addTerm (hp : p.Coherent) (t : Term α) (arguments : List Ref) :
    (addTerm t arguments p).state.Coherent := by
  have hget : ((Action.get : Action (Problem α) α _) p).result = .ok p := rfl
  rw [addTerm, Action.state_bind_of_ok hget, Action.state_get]
  cases hresolve : p.resolve arguments with
  | error fault =>
      rw [Action.state_bind_of_error (Action.result_ofExcept _ _), Action.state_ofExcept]
      exact hp
  | ok vars =>
      rw [Action.state_bind_of_ok (Action.result_ofExcept _ _), Action.state_ofExcept]
      generalize (vars.map fun v => Ref.storage v.storage) = storages
      have hobjective := Graph.sound_addTerm hp.objective (.plain t) storages
      have hcombined := Graph.sound_addTerm hp.combined (.plain t) storages
      cases hbind : p.objective.bind (.plain t) storages with
      | error fault =>
          have hadd := onObjective_of_error (Graph.addTerm_of_error hbind)
          rw [Action.bind_error hadd]
          exact hp
      | ok bound =>
          have hadd := Graph.addTerm_of_ok hbind
          have hadd' := Graph.addTerm_of_ok
            ((Graph.bind_congr hp.objective.registry hp.combined.registry hp.vars _ _).symm.trans hbind)
          have hsecond := onCombined_of_ok
            (p := { p with objective := (p.objective.push (.plain t) bound).1 }) hadd'
          rw [hadd] at hobjective
          rw [hadd'] at hcombined
          rw [Action.bind_ok (onObjective_of_ok hadd), Action.bind_ok hsecond]
          show Coherent { p with
            objective := (p.objective.push (.plain t) bound).1
            combined := (p.combined.push (.plain t) bound).1 }
          refine ⟨hobjective, hcombined, hp.workers, hp.names, hp.vars, ?_, ?_⟩
          · simp only [Graph.map_binding_push, List.filter_append, hp.plain]
            rfl
          · simp only [Graph.map_binding_push, List.filter_append]
            simpa [Summand.isPlain] using hp.penalties

omit [Backend α] in
theorem mem_of_resolve_eq_ok {arguments : List Ref} {vars : List (Variable α)}
    (h : p.resolve arguments = .ok vars) : ∀ v ∈ vars, v ∈ p.objective.registry.vars :=
  Graph.forall_mem_of_forall₂ (Graph.forall₂_of_mapM h)

/-- A summand at storages of registered variables is bound to these variables. -/
theorem vars_of_bind_eq_ok {g : Graph α} (hg : g.Sound) {s : Summand α}
    {vars bound : List (Variable α)}
    (hvars : ∀ v ∈ vars, v ∈ g.registry.vars)
    (h : g.bind s (vars.map fun v => .storage v.storage) = .ok bound) : bound = vars := by
  have hresolved := (Graph.of_bind_eq_ok h).1
  rw [List.forall₂_map_left_iff] at hresolved
  have heq : List.Forall₂ (fun v w => v = w) vars bound := by
    refine ((List.forall₂_and_left _ _).2 ⟨hvars, hresolved⟩).imp fun v w ⟨hv, hw⟩ => ?_
    rw [hg.registry.resolve_storage hv] at hw
    exact Except.ok.inj hw
  rw [List.forall₂_eq_eq_eq] at heq
  exact heq.symm

/-- The problem with one more constraint. -/
theorem coherent_push (hp : p.Coherent) {name : String} (hname : p.constraint? name = none)
    {t : Term α} {vars : List (Variable α)} (hvars : ∀ v ∈ vars, v ∈ p.objective.registry.vars)
    {graph : Graph α} (hgraph : Constraint.graphOf p.workers t vars = .ok graph)
    {combined : Graph α} (hcombined : combined.Sound)
    (hregistry : combined.registry.vars = p.combined.registry.vars)
    (hterms : combined.terms.map Bound.binding =
      p.combined.terms.map Bound.binding ++ [(.penalty p.constraints.length t, vars)])
    (dual value : α) :
    Coherent { p with
      combined := combined
      constraints := p.constraints ++ [⟨name, graph, dual, value⟩] } := by
  obtain ⟨hsound, htwins, ws, hws, hgraphTerms⟩ :=
    Constraint.of_graphOf_eq_ok hp.objective.registry hp.workers hvars hgraph
  refine ⟨hp.objective, hcombined, hp.workers, ?_, hp.vars.trans hregistry.symm, ?_, ?_⟩
  · rw [List.map_append, List.nodup_append]
    refine ⟨hp.names, by simp, ?_⟩
    intro known hknown other hother
    obtain ⟨c, hc, rfl⟩ := List.mem_map.1 hknown
    rw [List.map_singleton, List.mem_singleton] at hother
    rw [hother]
    simpa using List.find?_eq_none.1 hname c hc
  · rw [hterms, List.filter_append, hp.plain]
    simp [Summand.isPlain]
  · rw [hterms, List.filter_append, List.zipIdx_append]
    refine List.rel_append hp.penalties ?_
    refine List.Forall₂.cons ⟨hsound, htwins, t, ws, ?_, hws, hgraphTerms⟩ List.Forall₂.nil
    simp

theorem coherent_addConstraint (hp : p.Coherent) (name : String) (t : Term α)
    (arguments : List Ref) : (addConstraint name t arguments p).state.Coherent := by
  have hget : ((Action.get : Action (Problem α) α _) p).result = .ok p := rfl
  rw [addConstraint, Action.state_bind_of_ok hget, Action.state_get]
  refine Action.state_bind (fun _ _ => hp) fun _ hname => ?_
  rw [Action.state_require]
  refine Action.state_bind (fun _ _ => hp) fun vars hvars => ?_
  rw [Action.state_ofExcept]
  refine Action.state_bind (fun _ _ => hp) fun graph hgraph => ?_
  rw [Action.state_ofExcept]
  have hfree : p.constraint? name = none := by
    rw [Action.result_require] at hname
    split at hname
    · next hnone => simpa using hnone
    · cases hname
  have hmem := mem_of_resolve_eq_ok hvars
  have hsound := Graph.sound_addTerm hp.combined (.penalty p.constraints.length t)
    (vars.map fun v => .storage v.storage)
  cases hbind : p.combined.bind (.penalty p.constraints.length t)
      (vars.map fun v => .storage v.storage) with
  | error fault =>
      have hadd := onCombined_of_error (Graph.addTerm_of_error hbind)
      rw [Action.bind_error hadd]
      exact hp
  | ok bound =>
      have hadd := Graph.addTerm_of_ok hbind
      have hbound := vars_of_bind_eq_ok hp.combined (fun v hv => hp.vars ▸ hmem v hv) hbind
      subst hbound
      rw [hadd] at hsound
      rw [Action.bind_ok (onCombined_of_ok hadd)]
      exact coherent_push hp hfree hmem hgraph hsound rfl (Graph.map_binding_push _ _ _) 0 0

/-! ### Evaluations and multipliers -/

omit [Backend α] in
/-- Evaluations and changes of multipliers of the constraints, with any outer state. -/
theorem evaluated_of_constraints {constraints : List (Constraint α)}
    (h : List.Forall₂ Constraint.Evaluated p.constraints constraints) (outer : OuterState α) :
    p.Evaluated { p with constraints := constraints, outer := outer } :=
  ⟨.refl _, .refl _, rfl, h⟩

end Problem

namespace Constraint

theorem evaluated_evaluate {c : Constraint α} (hc : c.graph.Sound) (memory : Memory α) :
    c.Evaluated (c.evaluate memory).state := by
  have hgraph := Graph.evaluated_valueAtStorage hc Multipliers.none memory
  unfold evaluate
  dsimp only
  split <;> exact ⟨rfl, hgraph⟩

omit [Backend α] in
theorem evaluated_self (constraints : List (Constraint α)) :
    List.Forall₂ Evaluated constraints constraints :=
  List.forall₂_same.2 fun c _ => ⟨rfl, .refl c.graph⟩

theorem evaluated_evaluateAll (memory : Memory α) {constraints : List (Constraint α)}
    (h : ∀ c ∈ constraints, c.graph.Sound) :
    List.Forall₂ Evaluated constraints (evaluateAll memory constraints).state :=
  forall₂_evaluateAll_of memory (fun c _ => ⟨rfl, .refl c.graph⟩) fun c hc =>
    evaluated_evaluate (h c hc) memory

theorem evaluated_moveDuals (mu : α) (constraints : List (Constraint α)) :
    List.Forall₂ Evaluated constraints (moveDuals mu constraints).1 :=
  forall₂_moveDuals_of mu (fun c _ => ⟨rfl, .refl c.graph⟩) fun c _ _ => ⟨rfl, .refl c.graph⟩

end Constraint

/-- What a solver asks of a graph keeps its structure. -/
theorem Program.evaluated_run {β : Type} (m : Multipliers α) (program : Program α β) {v : View α}
    (hv : v.graph.Sound) : v.graph.Evaluated (program.run m v).1.graph := by
  induction program generalizing v with
  | done b => exact .refl v.graph
  | ask q next ih =>
      have hanswer : v.graph.Evaluated (q.answer m v).1.graph := by
        cases q with
        | value x => exact Graph.evaluated_value hv m x
        | valueAtStorage => exact Graph.evaluated_valueAtStorage hv m v.memory
        | derivatives x mode => exact Graph.evaluated_derivatives hv m x mode none
        | scalars | start | store | write | penaltyParameter | log => exact .refl v.graph
      exact hanswer.trans (ih _ (hv.of_evaluated hanswer))

namespace Problem

section Solving

variable {σ : Type}

/-- A problem stays coherent while it is solved. -/
theorem kept_coherent (s : Solver α σ) : Run.Kept s fun r => r.problem.Coherent where
  minimize := by
    intro r h
    have hturn := Program.evaluated_run r.problem.multipliers (s.solve r.solver Results.fresh)
      (v := ⟨r.problem.combined, r.memory⟩) h.combined
    exact h.of_evaluated ⟨.refl _, hturn, rfl, Constraint.evaluated_self _⟩
  objective := by
    intro r h
    exact h.of_evaluated ⟨Graph.evaluated_valueAtStorage h.objective _ _, .refl _, rfl,
      Constraint.evaluated_self _⟩
  constraints := by
    intro r h
    exact h.of_evaluated (evaluated_of_constraints
      (Constraint.evaluated_evaluateAll r.memory h.sound) r.problem.outer)
  duals := by
    intro r h
    exact h.of_evaluated (evaluated_of_constraints
      (Constraint.evaluated_moveDuals r.problem.outer.mu r.problem.constraints) r.problem.outer)
  penalty := fun r h =>
    h.of_evaluated (evaluated_of_constraints (Constraint.evaluated_self r.problem.constraints) _)
  outer := fun f _ r h =>
    h.of_evaluated (evaluated_of_constraints (Constraint.evaluated_self r.problem.constraints) _)
  results := fun _ _ h => h

theorem keeps_coherent_reset :
    Action.Keeps (fun r : Run α σ => r.problem.Coherent) Run.reset := by
  have houter (f : OuterState α → OuterState α) :
      Action.Keeps (fun r : Run α σ => r.problem.Coherent) (Run.modifyOuter f) := fun r h =>
    h.of_evaluated (evaluated_of_constraints (Constraint.evaluated_self r.problem.constraints) _)
  refine .bind (houter _) fun _ => ?_
  refine .bind (.of_state_eq fun _ => rfl) fun nu => ?_
  refine .bind (houter _) fun _ => ?_
  intro r h
  refine h.of_evaluated (evaluated_of_constraints ?_ r.problem.outer)
  show List.Forall₂ Constraint.Evaluated r.problem.constraints
    (r.problem.constraints.map fun c => { c with dual := 0 })
  rw [List.forall₂_map_right_iff]
  exact List.forall₂_same.2 fun c _ => ⟨rfl, .refl c.graph⟩

/-- A solve keeps a problem coherent, however it ends. -/
theorem coherent_solve (s : Solver α σ) {r : Run α σ} (h : r.problem.Coherent) :
    (Run.solve s r).state.problem.Coherent :=
  (kept_coherent s).keeps_solve keeps_coherent_reset r h

end Solving

theorem keeps_coherent_setDual (name : String) (dual : α) :
    Action.Keeps Coherent (setDual name dual) := by
  intro p hp
  unfold setDual onConstraint
  split
  · exact hp
  · next c hc =>
    have hmem : c ∈ p.constraints := List.mem_of_find?_eq_some hc
    have hname : c.name = name := by simpa using List.find?_some hc
    refine hp.of_evaluated (evaluated_of_constraints ?_ p.outer)
    rw [List.forall₂_map_right_iff]
    refine List.forall₂_same.2 fun d hd => ?_
    split
    · next hsame =>
      have heq : d = c := List.inj_on_of_nodup_map hp.names hd hmem (hsame.trans hname.symm)
      rw [heq]
      exact ⟨rfl, .refl c.graph⟩
    · exact ⟨rfl, .refl d.graph⟩

theorem keeps_coherent_setPenalty (mu : α) : Action.Keeps Coherent (setPenalty mu) :=
  fun p hp => hp.of_evaluated (evaluated_of_constraints (Constraint.evaluated_self p.constraints) _)

theorem keeps_coherent_setMultipliers (mu : Option (Supplied α))
    (duals : List (String × Supplied α)) : Action.Keeps Coherent (setMultipliers mu duals) := by
  refine .bind ?_ fun _ => .forM fun dual _ => ?_
  · cases mu with
    | none => exact .of_state_eq fun _ => rfl
    | some mu => exact .bind (.of_state_eq fun _ => rfl) keeps_coherent_setPenalty
  · exact .bind (.of_state_eq fun _ => rfl) (keeps_coherent_setDual dual.1)

theorem keeps_coherent_isFeasible (memory : Memory α) :
    Action.Keeps Coherent (isFeasible memory) := by
  refine .bind (fun p hp => ?_) fun _ => .of_state_eq fun _ => rfl
  exact hp.of_evaluated (evaluated_of_constraints
    (Constraint.evaluated_evaluateAll memory hp.sound) p.outer)

theorem coherent_new {config : Config α} {workers : Int} {p : Problem α}
    (h : Problem.new config workers = .ok p) : p.Coherent := by
  obtain ⟨count, hcount, rfl⟩ := Action.of_map_eq_ok h
  have hpos := Graph.checkedWorkers_pos hcount
  exact ⟨Graph.sound_empty false hpos, Graph.sound_empty false hpos, hpos, List.nodup_nil, rfl, rfl,
    List.Forall₂.nil⟩

/-! ### Problems that can arise -/

/-- The problems that arise from an empty one by adding variables, terms and constraints, by setting
multipliers, by questions to the objective and to the combined graph, by testing for feasibility and
by solving. What fails on the way counts, too. -/
inductive Built : Problem α → Prop
  | new {config : Config α} {workers : Int} {p : Problem α}
      (h : Problem.new config workers = .ok p) : Built p
  | addVariable {p : Problem α} (hp : Built p) (s : Storage) (dimension : Option Int)
      (reparam : Option (Reparam α)) : Built (addVariable s dimension reparam p).state
  | addTerm {p : Problem α} (hp : Built p) (t : Term α) (arguments : List Ref) :
      Built (addTerm t arguments p).state
  | addConstraint {p : Problem α} (hp : Built p) (name : String) (t : Term α)
      (arguments : List Ref) : Built (addConstraint name t arguments p).state
  | setMultipliers {p : Problem α} (hp : Built p) (mu : Option (Supplied α))
      (duals : List (String × Supplied α)) : Built (setMultipliers mu duals p).state
  | askObjective {p : Problem α} (hp : Built p) {β : Type} (program : Program α β)
      (m : Multipliers α) (memory : Memory α) :
      Built { p with objective := (program.run m ⟨p.objective, memory⟩).1.graph }
  | askCombined {p : Problem α} (hp : Built p) {β : Type} (program : Program α β)
      (m : Multipliers α) (memory : Memory α) :
      Built { p with combined := (program.run m ⟨p.combined, memory⟩).1.graph }
  | isFeasible {p : Problem α} (hp : Built p) (memory : Memory α) :
      Built (isFeasible memory p).state
  | solve {p : Problem α} (hp : Built p) {σ : Type} (s : Solver α σ) (memory : Memory α)
      (solver : σ) (results : Results α) :
      Built (Run.solve s ⟨p, memory, solver, results⟩).state.problem

/-- Every problem that can arise is coherent. -/
theorem Built.coherent {p : Problem α} (hp : p.Built) : p.Coherent := by
  induction hp with
  | new h => exact coherent_new h
  | addVariable _ s dimension reparam ih => exact coherent_addVariable ih s dimension reparam
  | addTerm _ t arguments ih => exact coherent_addTerm ih t arguments
  | addConstraint _ name t arguments ih => exact coherent_addConstraint ih name t arguments
  | setMultipliers _ mu duals ih => exact keeps_coherent_setMultipliers mu duals _ ih
  | askObjective _ program m memory ih =>
      have hasked := Program.evaluated_run m program (v := ⟨_, memory⟩) ih.objective
      exact ih.of_evaluated ⟨hasked, .refl _, rfl, Constraint.evaluated_self _⟩
  | askCombined _ program m memory ih =>
      have hasked := Program.evaluated_run m program (v := ⟨_, memory⟩) ih.combined
      exact ih.of_evaluated ⟨.refl _, hasked, rfl, Constraint.evaluated_self _⟩
  | isFeasible _ memory ih => exact keeps_coherent_isFeasible memory _ ih
  | solve _ s memory solver results ih => exact coherent_solve s ih

end Problem

end Separable
