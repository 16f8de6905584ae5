import Separable.Minimizer
import Separable.Proofs.Problem
import Separable.Proofs.RoundTrip
import Separable.Proofs.TwoSpaces

/-!
# What a minimizer leaves in memory

A minimizer's solver reads the caller's storage once, before the minimizer starts, and writes to it
at most once, after the minimizer has come back. In between the minimizer asks what it likes, as
often as it likes, and may be told faults; but memory changes only when a state is stored or a
storage is written to, and a search never asks for that (`Search.reads_program`). So memory is the
same at every point of a search, and it is still what the start was gathered from when the optimum
is copied back.

Whether it is copied back is decided by the optimum as a whole. If its point and its value are
finite, then every variable is written, each from its own slice; otherwise none is. A fault that
comes out of the minimizer leaves memory and results as they were.

## Main results

* `Program.memory_views`: memory does not change while questions are asked that only read.
* `Graph.store_ofVector`: what every array holds after a state was written.
* `Solver.run_minimizing`: a call of a minimizer's solver, by how far it comes.
* `Solver.written_back_or_untouched`: memory and results after a call.
-/

namespace Separable

open Scalar

variable {α β ρ σ : Type} [Backend α]

/-! ## Questions that only read -/

/-- Whether a question leaves memory as it is. -/
def Query.Reads : Query α → Prop
  | .store _ | .write _ _ => False
  | _ => True

theorem Query.memory_answer {q : Query α} (hq : q.Reads) (m : Multipliers α) (v : View α) :
    (q.answer m v).1.memory = v.memory := by
  cases q with
  | store x => exact hq.elim
  | write ref xs => exact hq.elim
  | scalars | start | value | valueAtStorage | derivatives | penaltyParameter | log => rfl

namespace Program

/-- Whether a program asks only such questions, whatever the answers are. -/
def Reads : Program α β → Prop
  | done _ => True
  | ask q next => q.Reads ∧ ∀ a, Reads (next a)

/-- The views that a program meets: before each question, and at the end. -/
def views (m : Multipliers α) : Program α β → View α → List (View α)
  | done _, v => [v]
  | ask q next, v => v :: views m (next (q.answer m v).2.2) (q.answer m v).1

theorem run_mem_views (m : Multipliers α) (p : Program α β) (v : View α) :
    (p.run m v).1 ∈ p.views m v := by
  induction p generalizing v with
  | done b => exact List.mem_singleton.2 rfl
  | ask q next ih => exact List.mem_cons_of_mem _ (ih _ _)

/-- Memory does not change while questions are asked that only read. -/
theorem memory_views {p : Program α β} (hp : p.Reads) (m : Multipliers α) (v : View α) :
    ∀ u ∈ p.views m v, u.memory = v.memory := by
  induction p generalizing v with
  | done b =>
      intro u hu
      rw [List.mem_singleton.1 hu]
  | ask q next ih =>
      obtain ⟨hq, hnext⟩ := hp
      intro u hu
      rcases List.mem_cons.1 hu with rfl | hu
      · rfl
      · exact (ih _ (hnext _) _ u hu).trans (q.memory_answer hq m v)

theorem memory_run {p : Program α β} (hp : p.Reads) (m : Multipliers α) (v : View α) :
    (p.run m v).1.memory = v.memory :=
  memory_views hp m v _ (run_mem_views m p v)

end Program

omit [Backend α] in
/-- A search only reads. -/
theorem Search.reads_program (mode : Option HessianMode) (search : Search α ρ) :
    (search.program mode).Reads := by
  induction search with
  | finish | escape => trivial
  | evaluate x next ih => exact ⟨trivial, fun a => ih _⟩
  | curvature x next ih => exact ⟨trivial, fun a => ih _⟩

/-! ## Writing a state -/

namespace Registry

omit [Backend α] in
theorem length_gatherFrom {memory : Memory α} {vars : List (Variable α)} {x y : List α}
    (h : gatherFrom memory vars x = .ok y) : y.length = x.length := by
  induction vars generalizing x with
  | nil =>
      cases h
      rfl
  | cons v rest ih =>
      have hlength : (v.gather memory x).1.length = x.length := by
        unfold Variable.gather
        split <;> exact length_overwrite _ _ _
      rw [gatherFrom] at h
      split at h
      · cases h
      · next hgather =>
        rw [hgather] at hlength
        exact (ih h).trans hlength

end Registry

/-- Whether memory is as a state leaves it that was written to it: the array of every variable holds
what became of its slice on the way to user space, and arrays that lie apart from all of them hold
what they held. -/
structure Memory.Written (vars : List (Variable α)) (x : List α) (before after : Memory α) :
    Prop where
  plain : ∀ w ∈ vars, w.reparam = none → after.read w.storage = w.part x
  mapped : ∀ w ∈ vars, ∀ c, w.reparam = some c →
    after.read w.storage = (c.toUser (w.part x) (before.read w.storage)).1
  elsewhere : ∀ s, (∀ w ∈ vars, before.Apart w.storage s) → after.elements s = before.elements s

namespace Graph

variable {g : Graph α} {memory : Memory α} (hg : g.Sound) (hheld : memory.Holds g.registry.vars)
  (hdouble : ∀ w ∈ g.registry.vars, w.storage.kind = .double)
  (happart : g.registry.vars.Pairwise fun w u => memory.Apart w.storage u.storage)
  {x : List α} (hx : x.length = g.scalars)
  (huser : ∀ w ∈ g.registry.vars, ∀ c, w.reparam = some c →
    (c.toUser (w.part x) (memory.read w.storage)).2 = .ok ())

include hg hheld hdouble happart hx huser

/-- A state is written if the way to user space succeeds for every slice of it. -/
theorem store_ofVector : (g.store (.ofVector x) memory).result = .ok () ∧
    Memory.Written g.registry.vars x memory (g.store (.ofVector x) memory).state := by
  have hvalues {w : Variable α} (hw : w ∈ g.registry.vars) :
      (w.reparam = none →
        w.values (w.part x) (memory.read w.storage) = (w.part x, .ok ())) ∧
      ∀ c, w.reparam = some c →
        w.values (w.part x) (memory.read w.storage) =
          c.toUser (w.part x) (memory.read w.storage) :=
    have hstop : w.stop ≤ x.length := (hg.registry.stop_le hw).trans (Nat.le_of_eq hx.symm)
    Variable.valuesIn_of_fits (hg.registry.fits w hw) .double (Variable.length_part hstop)
      (hheld w hw)
  have hok : ∀ w ∈ g.registry.vars,
      (w.valuesFrom (.ofVector x) (memory.read w.storage)).2 = .ok () := by
    intro w hw
    rw [Variable.valuesFrom_ofVector]
    cases hc : w.reparam with
    | none => rw [(hvalues hw).1 hc]
    | some c => rw [(hvalues hw).2 c hc, huser w hw c hc]
  have hstored := Registry.storeFrom_ok happart hok
  have hread {w : Variable α} (hw : w ∈ g.registry.vars) :
      (g.registry.store (.ofVector x) memory).state.read w.storage =
        (w.values (w.part x) (memory.read w.storage)).1 := by
    obtain ⟨-, hread⟩ := Registry.of_storeFrom_eq_ok happart hstored hw
    rwa [hdouble w hw, ElementKind.map_round_double] at hread
  have hstore : g.store (.ofVector x) memory = g.registry.store (.ofVector x) memory := by
    show Action.bind _ _ memory = _
    simp [Action.bind, Action.require, hx]
  rw [hstore]
  refine ⟨hstored, fun w hw hplain => ?_, fun w hw c hc => ?_, fun s hs => ?_⟩
  · rw [hread hw, (hvalues hw).1 hplain]
  · rw [hread hw, (hvalues hw).2 c hc]
  · exact Registry.elements_storeFrom_of_apart hs

end Graph

/-! ## A call, by how far it comes -/

/-- What comes out of a search: an optimum, or a fault. -/
def Search.ending (m : Multipliers α) (mode : Option HessianMode) (search : Search α ρ)
    (v : View α) : Except Fault (Optimum α) :=
  ((search.program mode).run m v).2.2.2

namespace Solver

variable (config : MinimizerConfig α) (minimizer : Minimizer α ρ) (m : Multipliers α) {v : View α}
  (records : List ρ) (results : Results α)

/-- What the results tell of an optimum in any case. -/
def noted (o : Optimum α) : Results α :=
  { results with
    iterations := o.iterations.getD 0, evaluations := o.evaluations.getD 0, message := o.message }

theorem run_report (s : σ) :
    ∃ log, (config.report s results).run m v = (v, log, s, results, .ok ()) := by
  unfold MinimizerConfig.report
  dsimp only
  cases config.takesLines with
  | false => exact ⟨_, rfl⟩
  | true => exact ⟨_, rfl⟩

/-- An optimum that is not finite. -/
theorem run_accept_of_not_finite (s : σ) {o : Optimum α} (h : o.isFinite = false) :
    ∃ log, (config.accept s results o).run m v =
      (v, log, s, { noted results o with exit := .internalError }, .ok ()) := by
  unfold MinimizerConfig.accept
  rw [h]
  exact run_report config m _ s

/-- A finite optimum whose point can be written. -/
theorem run_accept_of_stored (s : σ) {o : Optimum α} (h : o.isFinite = true)
    (hstored : (v.graph.store o.point v.memory).result = .ok ()) :
    ∃ log, (config.accept s results o).run m v =
      ({ v with memory := (v.graph.store o.point v.memory).state }, log, s,
        { noted results o with value := some o.value, exit := o.exit }, .ok ()) := by
  obtain ⟨log, hreport⟩ := run_report config m
    { noted results o with value := some o.value, exit := o.exit }
    (v := { v with memory := (v.graph.store o.point v.memory).state }) s
  refine ⟨(v.graph.store o.point v.memory).log ++ log, ?_⟩
  unfold MinimizerConfig.accept
  dsimp only
  rw [if_pos h]
  simp only [Program.run, Query.answer, hstored]
  unfold noted at hreport ⊢
  rw [hreport]

/-- A call on a graph with variables. -/
theorem run_minimizing (hpos : 0 < v.graph.scalars) :
    ((minimizing config minimizer).solve records results).run m v =
      match v.graph.gather v.memory with
      | .error fault => (v, [], records, results, .error fault)
      | .ok start =>
        match minimizer records.length (config.request start) with
        | .error fault => (v, [], records, results, .error fault)
        | .ok search =>
          let found := (search.program config.hessian).run m v
          match found.2.2 with
          | (record, .error fault) =>
            (found.1, found.2.1, records ++ [record], results, .error fault)
          | (record, .ok o) =>
            let rest := (config.accept (records ++ [record]) results o).run m found.1
            (rest.1, found.2.1 ++ rest.2.1, rest.2.2) := by
  have hsome : ¬v.graph.scalars = 0 := Nat.ne_of_gt hpos
  have hcourse : ((minimizing config minimizer).solve records results).run m v =
      Program.run m (if v.graph.scalars = 0 then _ else _ : Program α _) v := rfl
  rw [hcourse, if_neg hsome]
  simp only [Program.run, Query.answer, List.nil_append]
  cases v.graph.gather v.memory with
  | error fault => rfl
  | ok start =>
      dsimp only
      cases minimizer records.length (config.request start) with
      | error fault => rfl
      | ok search =>
          dsimp only
          rw [Program.run_bind]
          obtain ⟨u, log, record, outcome⟩ := (search.program config.hessian).run m v
          cases outcome with
          | error fault => simp only [Program.run, List.append_nil]
          | ok o => rfl

/-- Whether memory and results are as an optimum leaves them whose point is the vector `x`: either
the point is written, or nothing is. -/
structure Settled (before after : View α) (results left : Results α) (o : Optimum α)
    (x : List α) : Prop where
  finite : (∀ a ∈ x, isFinite a = true) ∧ isFinite o.value = true →
    Memory.Written before.graph.registry.vars x before.memory after.memory ∧
      left = { noted results o with
        value := some o.value
        exit := if o.success then .gradientTolerance
          else if o.status = 1 then .noConvergence
          else if o.status = 2 then .functionTolerance
          else .internalError }
  otherwise : ¬((∀ a ∈ x, isFinite a = true) ∧ isFinite o.value = true) →
    after.memory = before.memory ∧ left = { noted results o with exit := .internalError }

/-- What a call leaves that takes up the optimum in the view `u` at the end of a search: the
variables are those of before, and memory is still what the start was gathered from. -/
theorem settled_of_accept (hg : v.graph.Sound) {u : View α} (hu : v.graph.Evaluated u.graph)
    (hmemory : u.memory = v.memory) (hheld : v.memory.Holds v.graph.registry.vars)
    (hdouble : ∀ w ∈ v.graph.registry.vars, w.storage.kind = .double)
    (happart : v.graph.registry.vars.Pairwise fun w u => v.memory.Apart w.storage u.storage)
    {o : Optimum α} {x : List α} (hpoint : o.point = .ofVector x) (hx : x.length = v.graph.scalars)
    (huser : ∀ w ∈ v.graph.registry.vars, ∀ c, w.reparam = some c →
      (c.toUser (w.part x) (v.memory.read w.storage)).2 = .ok ()) (s : σ) :
    ∃ after log left, (config.accept s results o).run m u = (after, log, s, left, .ok ()) ∧
      Settled v after results left o x := by
  have hfinite : o.isFinite = true ↔ (∀ a ∈ x, isFinite a = true) ∧ isFinite o.value = true := by
    rw [Optimum.isFinite, hpoint, Tensor.entries_ofVector, Bool.and_eq_true, List.all_eq_true]
  by_cases h : o.isFinite = true
  · -- The point is written by the graph of the end, whose variables are those of before.
    have hvars := hu.vars
    have hlength : x.length = u.graph.scalars := hx.trans hu.scalars.symm
    rw [← hmemory, ← hvars] at hheld happart huser
    rw [← hvars] at hdouble
    obtain ⟨hresult, hwritten⟩ :=
      Graph.store_ofVector (hg.of_evaluated hu) hheld hdouble happart hlength huser
    rw [← hpoint] at hresult hwritten
    obtain ⟨log, hrun⟩ := run_accept_of_stored config m results s h hresult
    refine ⟨_, log, _, hrun, fun _ => ⟨?_, rfl⟩, fun hnot => absurd (hfinite.1 h) hnot⟩
    rw [← hmemory, ← hvars]
    exact hwritten
  · obtain ⟨log, hrun⟩ := run_accept_of_not_finite config m results s (Bool.eq_false_iff.2 h)
    exact ⟨_, log, _, hrun, fun hall => absurd (hfinite.2 hall) h, fun _ => ⟨hmemory, rfl⟩⟩

/-- A call of a minimizer's solver on a graph with variables, whose arrays are of double precision
and lie apart. The minimizer is started at the state that the arrays hold, and whatever it asks,
memory does not change. If it comes back with an optimum whose point is a vector of the right length
that can be taken to user space, then the call succeeds, and either the point is written or nothing
is. If a fault comes out of the minimizer, or it is not even started, then memory and results are as
they were. -/
theorem written_back_or_untouched {v : View α} (hg : v.graph.Reachable)
    (hpos : 0 < v.graph.scalars) (hheld : v.memory.Holds v.graph.registry.vars)
    (hdouble : ∀ w ∈ v.graph.registry.vars, w.storage.kind = .double)
    (happart : v.graph.registry.vars.Pairwise fun w u => v.memory.Apart w.storage u.storage)
    (config : MinimizerConfig α) (minimizer : Minimizer α ρ) (m : Multipliers α)
    (records : List ρ) (results : Results α) {after : View α} {log : List (Entry α)}
    {recorded : List ρ} {left : Results α} {outcome : Except Fault Unit}
    (hrun : ((minimizing config minimizer).solve records results).run m v =
      (after, log, recorded, left, outcome)) :
    (∀ fault, v.graph.gather v.memory = .error fault →
      after = v ∧ left = results ∧ outcome = .error fault) ∧
    ∀ start, v.graph.gather v.memory = .ok start → start.length = v.graph.scalars ∧
      (∀ fault, minimizer records.length (config.request start) = .error fault →
        after = v ∧ left = results ∧ outcome = .error fault) ∧
      ∀ search, minimizer records.length (config.request start) = .ok search →
        (∀ u ∈ (search.program config.hessian).views m v, u.memory = v.memory) ∧
        (∀ fault, search.ending m config.hessian v = .error fault →
          after.memory = v.memory ∧ left = results ∧ outcome = .error fault) ∧
        ∀ o x, search.ending m config.hessian v = .ok o → o.point = .ofVector x →
          x.length = v.graph.scalars →
          (∀ w ∈ v.graph.registry.vars, ∀ c, w.reparam = some c →
            (c.toUser (w.part x) (v.memory.read w.storage)).2 = .ok ()) →
          outcome = .ok () ∧ Settled v after results left o x := by
  rw [run_minimizing config minimizer m records results hpos] at hrun
  refine ⟨fun fault hstart => ?_, fun start hstart => ⟨?_, fun fault hrefused => ?_,
    fun search hsearch => ⟨?_, fun fault hending => ?_,
      fun o x hending hpoint hx huser => ?_⟩⟩⟩
  · rw [hstart] at hrun
    cases hrun
    exact ⟨rfl, rfl, rfl⟩
  · exact (Registry.length_gatherFrom hstart).trans (length_zeros _)
  · simp only [hstart, hrefused] at hrun
    cases hrun
    exact ⟨rfl, rfl, rfl⟩
  · exact Program.memory_views (search.reads_program config.hessian) m v
  · have hmemory := Program.memory_run (search.reads_program config.hessian) m v
    simp only [hstart, hsearch] at hrun
    unfold Search.ending at hending
    generalize (search.program config.hessian).run m v = run at hmemory hrun hending
    obtain ⟨u, _, record, found⟩ := run
    obtain rfl : found = .error fault := hending
    cases hrun
    exact ⟨hmemory, rfl, rfl⟩
  · have hmemory := Program.memory_run (search.reads_program config.hessian) m v
    have hevaluated := Program.evaluated_run m (search.program config.hessian) hg.sound
    simp only [hstart, hsearch] at hrun
    unfold Search.ending at hending
    generalize (search.program config.hessian).run m v = run at hmemory hevaluated hrun hending
    obtain ⟨u, _, record, found⟩ := run
    obtain rfl : found = .ok o := hending
    obtain ⟨_, _, _, haccept, hsettled⟩ := settled_of_accept config m results hg.sound hevaluated
      hmemory hheld hdouble happart hpoint hx huser (records ++ [record])
    simp only [haccept] at hrun
    cases hrun
    exact ⟨rfl, hsettled⟩

/-! ### Two optima -/

/-- A minimizer that asks for the derivatives at the start, and comes back with this optimum. -/
def returning (o : Optimum Float) : Minimizer Float Unit := fun _ request =>
  .ok (.evaluate (.ofVector request.start) fun _ => .finish () o)

/-- The factors of `squaredFactor`, the first of them stored as its square. -/
def factors : View Float := ⟨squaredFactor, ⟨[[9], [5]]⟩⟩

/-- An optimum at `[2, 7]` with this value, after which no further decrease was possible. -/
def stuck (value : Float) : Optimum Float := ⟨.ofVector [2, 7], value, false, 2, "", none, none⟩

/-- Options for a minimizer that wants no Hessians. -/
def firstOrder : MinimizerConfig Float := ⟨"BFGS", 1000, 1e-12, none, false⟩

/-- A call of which this is the optimum. -/
def attempt (value : Float) : Program Float (List Unit × Results Float × Except Fault Unit) :=
  (minimizing firstOrder (returning (stuck value))).solve [] .fresh

/-- The optimum is written as `[4]` and `[7]` if it has a value; and if the value is no number, then
`[9]` and `[5]` stay. -/
theorem written_back_factors :
    (∃ after log recorded left,
      (attempt 196).run Multipliers.none factors = (after, log, recorded, left, .ok ()) ∧
      (∀ w ∈ squaredFactor.registry.vars,
        after.memory.read w.storage = if w.id = 0 then [4] else [7]) ∧
      left.exit = .functionTolerance ∧ left.value = some 196) ∧
    ∃ after log recorded left,
      (attempt (0 / 0)).run Multipliers.none factors = (after, log, recorded, left, .ok ()) ∧
      after.memory = factors.memory ∧ left.exit = .internalError := by
  have hstart : factors.graph.gather factors.memory = .ok [3, 5] :=
    Action.of_toOption_eq_some (by decide +kernel)
  have huser : ∀ w ∈ factors.graph.registry.vars, ∀ c, w.reparam = some c →
      (c.toUser (w.part [2, 7]) (factors.memory.read w.storage)).2 = .ok () := by
    intro w hw c hc
    rcases List.mem_pair.1 (vars_squaredFactor ▸ hw) with rfl | rfl
    · obtain rfl : Reparam.square 1 none = c := Option.some.inj hc
      rfl
    · cases hc
  have hsettled (value : Float) : ∃ after log recorded left,
      (attempt value).run Multipliers.none factors = (after, log, recorded, left, .ok ()) ∧
      Settled factors after .fresh left (stuck value) [2, 7] := by
    rcases hrun : (attempt value).run Multipliers.none factors with
      ⟨after, log, recorded, left, outcome⟩
    obtain ⟨-, hstarted⟩ := written_back_or_untouched reachable_squaredFactor (by decide)
      (holds_squaredFactor _ _) double_squaredFactor (apart_squaredFactor _) firstOrder
      (returning (stuck value)) Multipliers.none [] .fresh hrun
    obtain ⟨-, -, hsearch⟩ := hstarted [3, 5] hstart
    obtain ⟨-, -, hoptimum⟩ := hsearch _ rfl
    obtain ⟨rfl, hsettled⟩ := hoptimum (stuck value) [2, 7] rfl rfl rfl huser
    exact ⟨after, log, recorded, left, rfl, hsettled⟩
  constructor
  · obtain ⟨after, log, recorded, left, hrun, hsettled⟩ := hsettled 196
    obtain ⟨hwritten, rfl⟩ := hsettled.finite (by decide +kernel)
    refine ⟨after, log, recorded, _, hrun, fun w hw => ?_, rfl, rfl⟩
    rcases List.mem_pair.1 (vars_squaredFactor ▸ hw) with rfl | rfl
    · rw [hwritten.mapped _ hw _ rfl]
      decide +kernel
    · rw [hwritten.plain _ hw rfl]
      decide +kernel
  · obtain ⟨after, log, recorded, left, hrun, hsettled⟩ := hsettled (0 / 0)
    obtain ⟨hmemory, rfl⟩ := hsettled.otherwise (by decide +kernel)
    exact ⟨after, log, recorded, _, hrun, hmemory, rfl⟩

end Solver

end Separable
