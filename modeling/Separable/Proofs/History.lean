import Mathlib.Logic.Relation
import Separable.Proofs.Gradient
import Separable.Proofs.Twofold
import Separable.Term.Elementary

/-!
# Evaluations have no memory

Some graphs may share the storages of their variables, and one term may be bound in several of them.
They are built and changed, the storages are written, the numbers of workers change, and all the
time graphs are evaluated: at any state, with any multipliers, with success or without. An
evaluation can also be broken off at any moment, and then it may leave anything in the buffers that
it works with. All families that arise so are `Reached`.

What an evaluation gives depends on the structure of its graph, the number of workers, what the
storages hold, the multipliers and the state, and on nothing that was evaluated before. And no
evaluation writes to a storage.

Two things are asked of what the caller supplies. A storage that becomes a variable has the length
that it claims to have, and a reparameterization writes all of its output unless it fails. Of terms
nothing is asked: they may add to their buffers, fail after they have begun to write, or leave part of
the buffers alone.

## Main results

* `Family.ready_of_reached`: what all graphs of a family have in common, however it was reached.
* `Family.answers_of_reached`: evaluations have no memory.
* `Family.answers_interrupted`: an evaluation that fails in the middle of a term.
-/

namespace Separable

variable {α : Type}

/-! ## Questions and answers -/

/-- What a graph can be asked. A gradient buffer that the caller hands in is not one of the
storages. -/
inductive Evaluation (α : Type) where
  | value (x : Tensor α)
  | valueAtStorage
  | derivatives (x : Tensor α) (mode : Option HessianMode) (buffer : Option (Tensor α))
  | pattern

/-- What an evaluation gives. -/
inductive Answer (α : Type) where
  | value (a : α)
  | derivatives (d : Derivatives α)
  | pattern (counts : CompressedRows α)

section Evaluation

variable [Backend α]

/-- An evaluation of a graph with these multipliers, while the storages hold `memory`. -/
def Evaluation.perform (m : Multipliers α) (memory : Memory α) :
    Evaluation α → Action (Graph α) α (Answer α)
  | .value x => fun g =>
    let o := Graph.value m x g
    ⟨o.state, o.log, o.result.map Answer.value⟩
  | .valueAtStorage => fun g =>
    let o := Graph.valueAtStorage m memory g
    ⟨o.state, o.log, o.result.map Answer.value⟩
  | .derivatives x mode buffer => fun g =>
    let o := Graph.derivatives m x mode (g, buffer)
    ⟨o.state.1, o.log, o.result.map Answer.derivatives⟩
  | .pattern => fun g =>
    let o := Graph.pattern g
    ⟨o.state, o.log, o.result.map Answer.pattern⟩

variable {g h : Graph α} (m : Multipliers α) {memory : Memory α} (e : Evaluation α)

theorem Evaluation.evaluated_perform (hg : g.Sound) : g.Evaluated (e.perform m memory g).state := by
  cases e with
  | value x => exact Graph.evaluated_value hg m x
  | valueAtStorage => exact Graph.evaluated_valueAtStorage hg m memory
  | derivatives x mode buffer => exact Graph.evaluated_derivatives hg m x mode buffer
  | pattern => exact Graph.evaluated_pattern hg

theorem Evaluation.perform_congr (hgh : g.Coupled h)
    (hheld : ∀ v ∈ g.registry.vars, (memory.read v.storage).length = v.userDimension) :
    (e.perform m memory g).result = (e.perform m memory h).result := by
  cases e with
  | value x => exact congrArg (Except.map Answer.value) (hgh.value_congr m x)
  | valueAtStorage => exact congrArg (Except.map Answer.value) (hgh.valueAtStorage_congr hheld m)
  | derivatives x mode buffer =>
      exact congrArg (Except.map Answer.derivatives) (hgh.derivatives_congr m x mode buffer)
  | pattern => exact congrArg (Except.map Answer.pattern) hgh.pattern_congr

end Evaluation

/-! ## Graphs that are ready -/

/-- Whether a graph is sound, and what its variables need is supplied: storages that are held in full,
and reparameterizations that write all of their output. -/
structure Graph.Ready [Backend α] (memory : Memory α) (g : Graph α) : Prop where
  sound : g.Sound
  whole : ∀ v ∈ g.registry.vars, v.Whole
  held : ∀ v ∈ g.registry.vars, (memory.read v.storage).length = v.userDimension

namespace Graph

variable [Backend α] {memory : Memory α} {g h : Graph α}

theorem Ready.of_evaluated (hg : g.Ready memory) (hgh : g.Evaluated h) : h.Ready memory where
  sound := hg.sound.of_evaluated hgh
  whole := hgh.vars.symm ▸ hg.whole
  held := hgh.vars.symm ▸ hg.held

/-- Nothing is asked of the memory but the lengths of what it holds. -/
theorem Ready.of_lengths (hg : g.Ready memory) {other : Memory α}
    (hlengths : ∀ s, (other.read s).length = (memory.read s).length) : g.Ready other where
  sound := hg.sound
  whole := hg.whole
  held := fun v hv => (hlengths v.storage).trans (hg.held v hv)

theorem ready_new {hessianEnabled : Bool} {count : Int}
    (h : Graph.new hessianEnabled count = .ok g) : g.Ready memory := by
  have hsound := (Reachable.new h).sound
  obtain ⟨workers, _, rfl⟩ := Action.of_map_eq_ok h
  exact ⟨hsound, by simp [empty, Registry.empty, Registry.vars],
    by simp [empty, Registry.empty, Registry.vars]⟩

/-- The variables after one was added are those of before, and perhaps a new one. -/
theorem mem_vars_addVariable {s : Storage} {dimension : Option Int} {reparam : Option (Reparam α)}
    {v : Variable α} (hv : v ∈ (addVariable s dimension reparam g).state.registry.vars) :
    v ∈ g.registry.vars ∨ v = g.registry.newVariable s reparam ∧ v.Fits := by
  rcases of_addVariable s dimension reparam g with ⟨_, h⟩ | ⟨_, h⟩ | ⟨hcheck, _, h⟩
  · rw [h] at hv
    exact .inl hv
  · rw [h] at hv
    exact .inl hv
  · rw [h] at hv
    dsimp only at hv
    rw [Registry.vars_push] at hv
    rcases List.mem_append.1 hv with hv | hv
    · exact .inl hv
    · rw [List.mem_singleton.1 hv]
      exact .inr ⟨rfl, (Registry.of_check_none hcheck).2⟩

theorem Ready.addVariable (hg : g.Ready memory) {s : Storage} (dimension : Option Int)
    {reparam : Option (Reparam α)} (hwhole : ∀ c, reparam = some c → c.Whole)
    (hheld : ∀ n, s.vectorLength? = some n → (memory.read s).length = n) :
    (Graph.addVariable s dimension reparam g).state.Ready memory where
  sound := sound_addVariable hg.sound s dimension reparam
  whole := by
    intro v hv
    rcases mem_vars_addVariable hv with hv | ⟨rfl, -⟩
    · exact hg.whole v hv
    · exact hwhole
  held := by
    intro v hv
    rcases mem_vars_addVariable hv with hv | ⟨rfl, hfits⟩
    · exact hg.held v hv
    · exact hheld _ hfits.length

theorem Ready.addTerm (hg : g.Ready memory) (s : Summand α) (arguments : List Ref) :
    (Graph.addTerm s arguments g).state.Ready memory := by
  have hregistry : (Graph.addTerm s arguments g).state.registry = g.registry := by
    rw [Graph.addTerm, Action.state_run]
    cases g.bind s arguments <;> rfl
  exact ⟨sound_addTerm hg.sound s arguments, hregistry.symm ▸ hg.whole, hregistry.symm ▸ hg.held⟩

theorem Ready.setWorkers (hg : g.Ready memory) (count : Int) :
    (Graph.setWorkers count g).state.Ready memory := by
  have hregistry : (Graph.setWorkers count g).state.registry = g.registry := by
    rw [Graph.setWorkers, Action.state_run]
    cases checkedWorkers count <;> rfl
  exact ⟨sound_setWorkers hg.sound count, hregistry.symm ▸ hg.whole, hregistry.symm ▸ hg.held⟩

end Graph

/-! ## Families -/

/-- Some graphs, and the memory of all storages. -/
structure Family (α : Type) where
  graphs : List (Graph α)
  memory : Memory α

namespace Family

/-- The family with another graph in one place. -/
def replace (F : Family α) (i : Nat) (g : Graph α) : Family α :=
  { F with graphs := F.graphs.set i g }

variable [Backend α]

/-- An evaluation of the graph in one place, if there is one. It reads the memory, and works on nothing
but this graph. -/
def evaluate (F : Family α) (i : Nat) (m : Multipliers α) (e : Evaluation α) :
    Option (Outcome (Family α) α (Answer α)) :=
  F.graphs[i]?.map fun g =>
    let o := e.perform m F.memory g
    ⟨F.replace i o.state, o.log, o.result⟩

/-- What becomes of a family when one of its graphs is evaluated. An evaluation that is broken off
leaves the structure of the graph and the extents of all buffers, but anything in them. -/
inductive Evaluates (F : Family α) : Family α → Prop
  | complete {i : Nat} {m : Multipliers α} {e : Evaluation α} {o : Outcome (Family α) α (Answer α)}
      (h : F.evaluate i m e = some o) : Evaluates F o.state
  | brokenOff {i : Nat} {g h : Graph α} (hg : F.graphs[i]? = some g) (hgh : g.Evaluated h) :
      Evaluates F (F.replace i h)

/-- What becomes of a family when anything is done with it. -/
inductive Changes (F : Family α) : Family α → Prop
  | new {hessianEnabled : Bool} {count : Int} {g : Graph α}
      (h : Graph.new hessianEnabled count = .ok g) : Changes F { F with graphs := F.graphs ++ [g] }
  | addVariable {i : Nat} {g : Graph α} (hg : F.graphs[i]? = some g) {s : Storage}
      (dimension : Option Int) {reparam : Option (Reparam α)}
      (hwhole : ∀ c, reparam = some c → c.Whole)
      (hheld : ∀ n, s.vectorLength? = some n → (F.memory.read s).length = n) :
      Changes F (F.replace i (Graph.addVariable s dimension reparam g).state)
  | addTerm {i : Nat} {g : Graph α} (hg : F.graphs[i]? = some g) (s : Summand α)
      (arguments : List Ref) : Changes F (F.replace i (Graph.addTerm s arguments g).state)
  | setWorkers {i : Nat} {g : Graph α} (hg : F.graphs[i]? = some g) (count : Int) :
      Changes F (F.replace i (Graph.setWorkers count g).state)
  | write {memory : Memory α}
      (hlengths : ∀ s, (memory.read s).length = (F.memory.read s).length) :
      Changes F { F with memory := memory }
  | evaluate {G : Family α} (h : F.Evaluates G) : Changes F G

/-- The families that arise from nothing. -/
inductive Reached : Family α → Prop
  | begin (memory : Memory α) : Reached ⟨[], memory⟩
  | change {F G : Family α} (hF : Reached F) (h : F.Changes G) : Reached G

/-- Any number of evaluations. -/
def History : Family α → Family α → Prop := Relation.ReflTransGen Evaluates

/-- Whether two families have graphs of the same structures and numbers of workers, in the same order,
and storages that hold the same. -/
structure Matches (F G : Family α) : Prop where
  graphs : F.graphs.map Graph.outline = G.graphs.map Graph.outline
  memory : F.memory = G.memory

/-! ## Whatever was done -/

variable {F G : Family α}

omit [Backend α] in
theorem replace_of_forall {P : Graph α → Prop} (hF : ∀ g ∈ F.graphs, P g) (i : Nat) {h : Graph α}
    (hh : P h) : ∀ g ∈ (F.replace i h).graphs, P g := by
  intro g hg
  rcases List.mem_or_eq_of_mem_set hg with hg | rfl
  · exact hF g hg
  · exact hh

/-- What an evaluation is, complete or not: a graph is replaced by one that evaluations can have made
of it. -/
theorem of_evaluates (hready : ∀ g ∈ F.graphs, g.Ready F.memory) (h : F.Evaluates G) :
    ∃ i g k, F.graphs[i]? = some g ∧ g.Evaluated k ∧ G = F.replace i k := by
  cases h with
  | @complete i m e o h =>
      obtain ⟨g, hg, rfl⟩ := Option.map_eq_some_iff.1 h
      have hsound := (hready g (List.mem_of_getElem? hg)).sound
      exact ⟨i, g, _, hg, e.evaluated_perform m hsound, rfl⟩
  | brokenOff hg hgh => exact ⟨_, _, _, hg, hgh, rfl⟩

/-- However a family was reached, its graphs are ready for evaluations. -/
theorem ready_of_reached (hF : F.Reached) : ∀ g ∈ F.graphs, g.Ready F.memory := by
  -- Most changes put one graph in the place of another, and this one has to be ready again.
  induction hF with
  | begin memory => simp
  | @change F G hF h ih =>
      cases h with
      | new h =>
          intro g hg
          rcases List.mem_append.1 hg with hg | hg
          · exact ih g hg
          · rw [List.mem_singleton.1 hg]
            exact Graph.ready_new h
      | addVariable hg dimension hwhole hheld =>
          have hready := ih _ (List.mem_of_getElem? hg)
          exact replace_of_forall ih _ (hready.addVariable dimension hwhole hheld)
      | addTerm hg s arguments =>
          have hready := ih _ (List.mem_of_getElem? hg)
          exact replace_of_forall ih _ (hready.addTerm s arguments)
      | setWorkers hg count =>
          have hready := ih _ (List.mem_of_getElem? hg)
          exact replace_of_forall ih _ (hready.setWorkers count)
      | write hlengths => exact fun g hg => (ih g hg).of_lengths hlengths
      | evaluate h =>
          obtain ⟨i, g, k, hg, hgk, rfl⟩ := of_evaluates ih h
          have hready := ih g (List.mem_of_getElem? hg)
          exact replace_of_forall ih i (hready.of_evaluated hgk)

/-- An evaluation leaves the structure of all graphs and what the storages hold. -/
theorem matches_of_evaluates (hF : F.Reached) (h : F.Evaluates G) : F.Matches G := by
  obtain ⟨i, g, k, hg, hgk, rfl⟩ := of_evaluates (ready_of_reached hF) h
  refine ⟨?_, rfl⟩
  have hsame : (F.graphs.map Graph.outline)[i]? = some k.outline := by
    rw [List.getElem?_map, hg, Option.map_some, hgk.toAlike.outline_eq]
  obtain ⟨hi, hentry⟩ := List.getElem?_eq_some_iff.1 hsame
  rw [replace, List.map_set, ← hentry, List.set_getElem_self]

/-- So do any number of evaluations. -/
theorem of_history (hF : F.Reached) (h : F.History G) : G.Reached ∧ F.Matches G := by
  induction h with
  | refl => exact ⟨hF, rfl, rfl⟩
  | tail _ hstep ih =>
      obtain ⟨hreached, hmatches⟩ := ih
      have hnext := matches_of_evaluates hreached hstep
      exact ⟨hreached.change (.evaluate hstep), hmatches.graphs.trans hnext.graphs,
        hmatches.memory.trans hnext.memory⟩

theorem result_evaluate (F : Family α) (i : Nat) (m : Multipliers α) (e : Evaluation α) :
    (F.evaluate i m e).map (·.result) =
      F.graphs[i]?.map fun g => (e.perform m F.memory g).result := by
  rw [evaluate, Option.map_map]
  rfl

/-- Families that match give the same answers. -/
theorem evaluate_congr (hF : F.Reached) (hG : G.Reached) (h : F.Matches G) (i : Nat)
    (m : Multipliers α) (e : Evaluation α) :
    (F.evaluate i m e).map (·.result) = (G.evaluate i m e).map (·.result) := by
  have hplace : F.graphs[i]?.map Graph.outline = G.graphs[i]?.map Graph.outline := by
    rw [← List.getElem?_map, ← List.getElem?_map, h.graphs]
  rw [result_evaluate, result_evaluate]
  cases hg : F.graphs[i]? with
  | none =>
      rw [hg, Option.map_none, eq_comm, Option.map_eq_none_iff] at hplace
      rw [hplace, Option.map_none, Option.map_none]
  | some g =>
      rw [hg, Option.map_some, eq_comm, Option.map_eq_some_iff] at hplace
      obtain ⟨k, hk, hsame⟩ := hplace
      have hready := ready_of_reached hF g (List.mem_of_getElem? hg)
      have hready' := ready_of_reached hG k (List.mem_of_getElem? hk)
      have hresult := e.perform_congr m
        ⟨hready.sound, hready'.sound, hsame, hready.whole⟩ hready.held
      rw [hk, Option.map_some, Option.map_some, hresult, h.memory]

/-- Evaluations have no memory: two families of the same structures, numbers of workers and storages
give the same answer to every question, after any evaluations of either of them. And these
evaluations leave the storages alone. -/
theorem answers_of_reached (hF : F.Reached) (hG : G.Reached) (h : F.Matches G) {F' G' : Family α}
    (hF' : F.History F') (hG' : G.History G') :
    F'.memory = F.memory ∧ G'.memory = G.memory ∧ ∀ i m e,
      (F'.evaluate i m e).map (·.result) = (G'.evaluate i m e).map (·.result) := by
  obtain ⟨hreached, hmatches⟩ := of_history hF hF'
  obtain ⟨hreached', hmatches'⟩ := of_history hG hG'
  refine ⟨hmatches.memory.symm, hmatches'.memory.symm, evaluate_congr hreached hreached' ?_⟩
  exact ⟨hmatches.graphs.symm.trans (h.graphs.trans hmatches'.graphs),
    hmatches.memory.symm.trans (h.memory.trans hmatches'.memory)⟩

/-- A term whose gradient always fails, after it has written to its buffers, and with a fault that
workers do not hold back. -/
def touchy : Summand Float := .plain (.failing 1 ⟨.fatal, "stop", [.gradient], none⟩)

/-- A graph with a reparameterized variable. -/
def squared : Graph Float :=
  (Graph.addTerm touchy [.handle 0]
    (Graph.addVariable soleStorage none (some (.square 1 none)) (.empty false 1)).state).state

/-- A graph over the same storage with Hessians and two workers. -/
def plain : Graph Float :=
  (Graph.addTerm touchy [.handle 0]
    (Graph.addVariable soleStorage none none (.empty true 2)).state).state

/-- Both graphs, and the one storage that they share. -/
def shared : Family Float := ⟨[squared, plain], ⟨[[3]]⟩⟩

theorem reached_shared : shared.Reached := by
  have hheld : ∀ n, soleStorage.vectorLength? = some n →
      ((⟨[[3]]⟩ : Memory Float).read soleStorage).length = n := by
    intro n hn
    cases hn
    rfl
  have hwhole : ∀ c, some (Reparam.square 1 none : Reparam Float) = some c → c.Whole := by
    intro c hc
    cases hc
    exact Reparam.whole_square 1 none
  have hsquared : (⟨[squared], ⟨[[3]]⟩⟩ : Family Float).Reached :=
    (((Reached.begin ⟨[[3]]⟩).change
      (.new (show Graph.new false 1 = .ok _ from rfl))).change
      (.addVariable (i := 0) rfl none hwhole hheld)).change
      (.addTerm (i := 0) rfl touchy [.handle 0])
  exact ((hsquared.change
    (.new (show Graph.new true 2 = .ok _ from rfl))).change
    (.addVariable (i := 1) rfl none (by simp) hheld)).change
    (.addTerm (i := 1) rfl touchy [.handle 0])

/-- An evaluation that fails in the middle of a term does not show in any later one. -/
theorem answers_interrupted : ∃ o,
    shared.evaluate 0 .none (.derivatives (.ofVector [2]) none none) = some o ∧
    o.result = .error (.reported .fatal "stop") ∧ o.state.memory = shared.memory ∧
    ∀ i m e, (o.state.evaluate i m e).map (·.result) = (shared.evaluate i m e).map (·.result) := by
  obtain ⟨o, ho, hresult⟩ : ∃ o,
      shared.evaluate 0 .none (.derivatives (.ofVector [2]) none none) = some o ∧
        o.result = .error (.reported .fatal "stop") := ⟨_, rfl, rfl⟩
  have hhistory : shared.History o.state := .single (.complete ho)
  obtain ⟨hmemory, _, hanswers⟩ :=
    answers_of_reached reached_shared reached_shared ⟨rfl, rfl⟩ hhistory .refl
  exact ⟨o, ho, hresult, hmemory, hanswers⟩

end Family

end Separable
