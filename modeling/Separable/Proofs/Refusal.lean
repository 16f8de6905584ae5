import Separable.Proofs.Untouched
import Separable.Term.Elementary
import Separable.Workspace

/-!
# Derivative evaluations that fail

A derivative evaluation passes through three phases. First come its checks, one after another; an
evaluation that fails one of them is refused, and nothing but the pool may be another one than
before. Then it is counted, the state is loaded and the workers go through the terms, of which any
step may fail. Only after the last worker is done is the buffer of the caller written, and from
there on nothing fails any more: every accumulator is as long as the gradient, the blocks fill the
coordinates exactly, and all of them lie inside of the matrix. So a failure never shows in the
buffer.

There is one exception. No check looks at the kind of the elements of the buffer, and elements that
take no sums, such as integers, are zeroed before the first sum fails.

The last phase has no checks of its own, and does not need any. What it relies on is collected in
`Graph.Concluded`. It follows from the pool being built for the present structure, in which no
variable that a Hessian looks at is reparameterized.

## Main results

* `Graph.evaluateTerms_cases`, `Graph.evaluateTerms_of_refusal`: the first phase.
* `Graph.concluded_of_ok`: what the last phase finds.
* `Workspace.memory_onGraphWith`: evaluations do not write to memory.
* `Graph.derivatives_of_failure`: what a failure leaves, and where there is none.
* `Graph.buffer_of_integers`: a buffer that is zeroed by an evaluation that fails.
-/

namespace Separable

variable {α : Type}

/-! ## Checks -/

namespace Action

variable {σ γ : Type} {x : Action σ α Unit} {s : σ}

/-- Fails if there is a fault. -/
def refuse (fault : Option Fault) : Action σ α Unit := ofExcept (fault.elim (.ok ()) .error)

theorem bind_of_refuse_none (h : x s = refuse none s) (f : Unit → Action σ α γ) :
    (x >>= f) s = f () s :=
  bind_ok h

theorem bind_of_refuse_some {fault : Fault} (h : x s = refuse (some fault) s)
    (f : Unit → Action σ α γ) : (x >>= f) s = ⟨s, [], .error fault⟩ :=
  bind_error h

theorem require_eq_refuse (condition : Bool) (fault : Fault) (s : σ) :
    (require condition fault : Action σ α Unit) s =
      refuse (if condition then none else some fault) s := by
  cases condition <;> rfl

end Action

/-- The fault of a form of Hessian that does not exist. -/
def HessianMode.fault? : HessianMode → Option Fault
  | unknown name => some (.unknownHessianMode name)
  | _ => none

namespace Graph

/-- The fault of a vector of the wrong shape. -/
def misshapen (shape : List Nat) (fault : List Nat → Nat → Fault) (g : Graph α) : Option Fault :=
  if shape = [g.scalars] then none else some (fault shape g.scalars)

/-- The fault of a form of Hessian that the graph cannot have, whatever its variables are. -/
def unavailable (form : HessianMode) (g : Graph α) : Option Fault :=
  if g.hessianEnabled then form.fault? else some .hessianDisabled

/-- Why a derivative evaluation is refused, if it is: the first thing that is wrong with the state,
the buffer, the form of Hessian and the variables of the terms. -/
def refusal (x : Tensor α) (mode : Option HessianMode) (buffer : Option (Tensor α)) (g : Graph α) :
    Option Fault :=
  (g.misshapen x.shape .stateShape).or <|
    (buffer.bind fun b => g.misshapen b.shape .gradientShape).or <|
      (mode.bind g.unavailable).or <|
        if mode.isNone || !g.terms.any Bound.hasReparam then none else some .hessianReparameterized

variable {g : Graph α} {x : Tensor α} {mode : Option HessianMode} {buffer : Option (Tensor α)}

theorem checkState_eq_refuse (x : Tensor α) (g : Graph α) :
    checkState x g = Action.refuse (g.misshapen x.shape .stateShape) g := by
  rw [checkState, Action.require_eq_refuse]
  simp [misshapen]

theorem checkBuffer_eq_refuse (buffer : Option (Tensor α)) (g : Graph α) :
    checkBuffer buffer g =
      Action.refuse (buffer.bind fun b => g.misshapen b.shape .gradientShape) g := by
  cases buffer with
  | none => rfl
  | some b =>
      simp only [checkBuffer, Action.require_eq_refuse]
      simp [misshapen]

theorem checkMode_eq_refuse (mode : Option HessianMode) (g : Graph α) :
    checkMode mode g = Action.refuse (mode.bind g.unavailable) g := by
  cases mode with
  | none => rfl
  | some form =>
      simp only [checkMode, Option.bind_some, unavailable]
      split
      · cases form <;> rfl
      · rfl

variable [Backend α]

/-- The evaluation after its checks. -/
def evaluateChecked (m : Multipliers α) (x : Tensor α) (mode : Option HessianMode) (p : Pool α) :
    Action (Graph α) α α := do
  onRegistry (Registry.load x.converted)
  sumDerivatives m x.entries mode.isSome p

/-- What the first phase does: an evaluation that is refused may bring the pool up to date and does
nothing else, and any other one goes on. -/
theorem evaluateTerms_cases (hg : g.Sound) (m : Multipliers α) (x : Tensor α)
    (mode : Option HessianMode) (buffer : Option (Tensor α)) :
    (∃ fault pool, g.refusal x mode buffer = some fault ∧
      (evaluateTerms m x mode buffer g).result = .error fault ∧
      (evaluateTerms m x mode buffer g).state = { g with pool := pool }) ∨
    g.refusal x mode buffer = none ∧ ∀ h,
      h = { g with pool := some g.current, derivativeCount := g.derivativeCount + 1 } →
      (evaluateTerms m x mode buffer g).result = (evaluateChecked m x mode g.current h).result ∧
        (evaluateTerms m x mode buffer g).state = (evaluateChecked m x mode g.current h).state := by
  have hstate := checkState_eq_refuse x g
  have hbuffer := checkBuffer_eq_refuse buffer g
  have hmode := checkMode_eq_refuse mode g
  have hreparam : (mode.isNone || g.current.supportsHessian) =
      (mode.isNone || !g.terms.any Bound.hasReparam) := by
    rw [(serves_current hg).2.supportsHessian]
  unfold evaluateTerms refusal
  -- Three checks leave the graph alone, and the fourth comes after the pool was brought up to date.
  cases hx : g.misshapen x.shape .stateShape with
  | some fault =>
      rw [hx] at hstate
      rw [Action.bind_of_refuse_some hstate]
      exact .inl ⟨fault, g.pool, rfl, rfl, rfl⟩
  | none =>
  rw [hx] at hstate
  rw [Action.bind_of_refuse_none hstate]
  cases hb : buffer.bind fun b => g.misshapen b.shape .gradientShape with
  | some fault =>
      rw [hb] at hbuffer
      rw [Action.bind_of_refuse_some hbuffer]
      exact .inl ⟨fault, g.pool, rfl, rfl, rfl⟩
  | none =>
  rw [hb] at hbuffer
  rw [Action.bind_of_refuse_none hbuffer]
  cases hm : mode.bind g.unavailable with
  | some fault =>
      rw [hm] at hmode
      rw [Action.bind_of_refuse_some hmode]
      exact .inl ⟨fault, g.pool, rfl, rfl, rfl⟩
  | none =>
  rw [hm] at hmode
  rw [Action.bind_of_refuse_none hmode, Action.bind_ok (refreshed_eq g)]
  dsimp only
  rw [hreparam]
  have hsupport := Action.require_eq_refuse (α := α)
    (mode.isNone || !g.terms.any Bound.hasReparam) .hessianReparameterized
    { g with pool := some g.current }
  cases hplain : mode.isNone || !g.terms.any Bound.hasReparam with
  | false =>
      rw [hplain] at hsupport
      rw [Action.bind_of_refuse_some hsupport]
      exact .inl ⟨.hessianReparameterized, some g.current, rfl, rfl, rfl⟩
  | true =>
      rw [hplain] at hsupport
      rw [Action.bind_of_refuse_none hsupport]
      refine .inr ⟨rfl, ?_⟩
      rintro h rfl
      exact ⟨rfl, rfl⟩

omit [Backend α] in
/-- An evaluation is refused unless it has a state, a buffer and a form of Hessian that the graph
accepts. -/
theorem refusal_eq_none_iff : g.refusal x mode buffer = none ↔
    x.shape = [g.scalars] ∧ g.Passes mode buffer := by
  have hshape (shape : List Nat) (fault : List Nat → Nat → Fault) :
      g.misshapen shape fault = none ↔ shape = [g.scalars] := by
    simp [misshapen]
  have hbuffer : (buffer.bind fun b => g.misshapen b.shape .gradientShape) = none ↔
      ∀ b, buffer = some b → b.shape = [g.scalars] := by
    simp [Option.bind_eq_none_iff, hshape]
  have hform (form : HessianMode) : g.unavailable form = none ↔
      g.hessianEnabled = true ∧ (form = .dense ∨ form = .sparse) := by
    cases form <;> cases henabled : g.hessianEnabled <;>
      simp [unavailable, HessianMode.fault?, henabled]
  have hmode : (mode.bind g.unavailable = none ∧
      (mode.isNone || !g.terms.any Bound.hasReparam) = true) ↔ ∀ form, mode = some form →
        g.hessianEnabled = true ∧ (form = .dense ∨ form = .sparse) ∧
          g.terms.any Bound.hasReparam = false := by
    cases mode with
    | none => simp
    | some form => simp [hform, and_assoc]
  have hlast (b : Bool) (fault : Fault) : (if b then none else some fault) = none ↔ b = true := by
    cases b <;> simp
  rw [refusal, Option.or_eq_none_iff, Option.or_eq_none_iff, Option.or_eq_none_iff, hlast, hmode,
    hshape, hbuffer]
  exact and_congr_right fun _ => ⟨fun h => ⟨h.1, h.2⟩, fun h => ⟨h.buffer, h.mode⟩⟩

/-! ## The last phase -/

/-- What the last phase of an evaluation relies on, and why it does not fail. -/
structure Concluded (h : Graph α) (mode : Option HessianMode) : Prop where
  /-- The accumulators can be added to the gradient, and entry by entry. -/
  accumulators : ∃ p, h.pool = some p ∧ ∀ s ∈ p.scratch, s.accumulator.length = h.scalars
  reduced : ∀ kind : ElementKind, kind.refusingSums? = none →
    (h.reducedIn kind).2 = .ok () ∧ (h.reducedIn kind).1.length = h.scalars
  /-- Elements that take no sums refuse the first accumulator. -/
  refused : ∀ (kind : ElementKind) (name : String), kind.refusingSums? = some name →
    h.reducedIn kind = (zeros h.scalars, .error (.unsafeSum name))
  /-- Blocks lie inside of the dense matrix and have the extents of the places that they take. -/
  patches : mode.isSome = true → ∀ b ∈ h.terms, ∀ patch ∈ b.patches, Bound.Inside h.scalars patch
  /-- The entries of the blocks lie inside of the sparse matrix. -/
  coordinates : mode.isSome = true → ∃ places, h.pool.bind (·.coordinates) = some places ∧
    places.shape = (h.scalars, h.scalars) ∧ places.Inside ∧
    ∃ values, Bound.gather h.terms places.size = .ok values
  collected : ∃ hessian, mode.mapM h.collectHessian = .ok hessian ∧ hessian.isSome = mode.isSome

section Sound

variable {h : Graph α} (hh : h.Sound)

include hh

theorem Sound.filled (henabled : h.hessianEnabled = true) : ∀ b ∈ h.terms, b.Filled := by
  intro b hb
  have hblocks := (hh.terms b hb).blocks
  rwa [henabled, if_pos rfl] at hblocks

/-- If the pool is up to date and can serve the form of Hessian that was asked for, nothing is in
the way of the last phase. -/
theorem Sound.concluded {p : Pool α} (hpool : h.pool = some p) (hversion : p.version = h.version)
    (hmode : ∀ form, mode = some form →
      h.hessianEnabled = true ∧ h.terms.any Bound.hasReparam = false) : h.Concluded mode := by
  have hserves := (hh.pool p hpool).2 hversion
  refine ⟨⟨p, hpool, fun s hs => (hserves.buffers s hs).accumulator⟩,
    fun kind hkind => reducedIn_of_serves hpool hserves hkind, fun kind name hkind => ?_,
    fun hsome => ?_, fun hsome => ?_, ?_⟩
  · have hworkers : 0 < p.scratch.length := hserves.workers.symm ▸ hh.workers
    rw [reducedIn, hpool]
    exact addAccumulators_of_refusing hkind _
      (mt List.map_eq_nil_iff.1 (List.ne_nil_of_length_pos hworkers))
  · obtain ⟨form, hform⟩ := Option.isSome_iff_exists.1 hsome
    obtain ⟨henabled, hplain⟩ := hmode form hform
    rintro b hb ⟨v, w, block⟩ hpatch
    obtain ⟨hv, hw, hblock⟩ := (hh.filled henabled b hb).of_mem_patches hpatch
    exact ⟨hblock, hh.bounded_vars hplain b hb v hv, hh.bounded_vars hplain b hb w hw⟩
  · obtain ⟨form, hform⟩ := Option.isSome_iff_exists.1 hsome
    obtain ⟨henabled, hplain⟩ := hmode form hform
    have hcoordinates := hserves.coordinates
    rw [if_pos henabled] at hcoordinates
    exact ⟨_, by rw [hpool]; exact hcoordinates, rfl,
      Bound.inside_coordinates (hh.bounded_vars hplain), _,
      (Bound.gather_ok h.scalars (hh.filled henabled)).1⟩
  · cases hform : mode with
    | none => exact ⟨none, rfl, rfl⟩
    | some form =>
        obtain ⟨henabled, hplain⟩ := hmode form hform
        obtain ⟨result, hresult, -⟩ :=
          collectHessian_ok hh henabled hplain hpool hversion form
        refine ⟨some result, ?_, rfl⟩
        rw [Option.mapM_some, hresult]
        rfl

end Sound

theorem concluded_of_ok (hg : g.Sound) {m : Multipliers α} {value : α}
    (h : (evaluateTerms m x mode buffer g).result = .ok value) :
    (evaluateTerms m x mode buffer g).state.Concluded mode := by
  have hevaluated := evaluated_evaluateTerms hg m x mode buffer
  rcases evaluateTerms_cases hg m x mode buffer with ⟨_, _, -, hresult, -⟩ | ⟨hnone, hchecked⟩
  · rw [h] at hresult
    cases hresult
  obtain ⟨hresult, hstate⟩ := hchecked _ rfl
  obtain ⟨-, hpasses⟩ := refusal_eq_none_iff.1 hnone
  -- The pool that the workers leave differs from the one in force by what the buffers hold.
  obtain ⟨_, -, -, hworked⟩ := Action.of_result_bind_eq_ok (hresult.symm.trans h)
  have hpool := congrArg Graph.pool (hstate.trans hworked)
  refine (hg.of_evaluated hevaluated).concluded hpool
    ((serves_current hg).1.trans hevaluated.version.symm) fun form hform => ?_
  obtain ⟨henabled, -, hplain⟩ := hpasses.mode form hform
  exact ⟨hevaluated.hessianEnabled.trans henabled,
    (Bound.any_hasReparam_eq_of_outline hevaluated.terms).trans hplain⟩

/-! ## The buffer of the caller -/

/-- The buffer is written exactly if the workers succeed, in elements of its kind. -/
theorem buffer_derivatives (m : Multipliers α) (x : Tensor α) (mode : Option HessianMode)
    (g : Graph α) (buffer : Option (Tensor α)) :
    (derivatives m x mode (g, buffer)).state.2 =
      match (evaluateTerms m x mode buffer g).result with
      | .error _ => buffer
      | .ok _ => buffer.map fun b =>
        { b with
          entries := ((evaluateTerms m x mode buffer g).state.reducedIn
            (gradientKind buffer)).1 } := by
  show (Action.bind _ _ (g, buffer)).state.2 = _
  simp only [Action.bind, Action.get, Action.within, Bind.bind, Action.run, Action.ofExcept,
    Pure.pure, Action.pure]
  rcases evaluateTerms m x mode buffer g with ⟨h, log, fault | value⟩
  · rfl
  · dsimp only
    rcases hreduced : h.reducedIn (gradientKind buffer) with ⟨gradient, fault | done⟩
    · rfl
    · dsimp only [Except.map]
      rcases mode.mapM h.collectHessian with fault | hessian <;> rfl

theorem derivatives_of_concluded {m : Multipliers α} {value : α}
    (h : (evaluateTerms m x mode buffer g).result = .ok value)
    (hconcluded : (evaluateTerms m x mode buffer g).state.Concluded mode)
    (hkind : (gradientKind buffer).refusingSums? = none) :
    ∃ d, (derivatives m x mode (g, buffer)).result = .ok d ∧
      (derivatives m x mode (g, buffer)).state.2 =
        buffer.map fun b => { b with entries := d.gradient } := by
  obtain ⟨hessian, hcollected, -⟩ := hconcluded.collected
  refine ⟨⟨value, ((evaluateTerms m x mode buffer g).state.reducedIn (gradientKind buffer)).1,
    hessian⟩, ?_, ?_⟩
  · rw [(derivatives_eq m x mode g buffer).2, h]
    simp only [Except.bind, (hconcluded.reduced _ hkind).1, hcollected, Except.map]
  · rw [buffer_derivatives, h]

end Graph

/-! ## Memory -/

namespace Workspace

@[simp] theorem memory_putObject (name : String) (o : Object α) (w : Workspace α) :
    (w.putObject name o).memory = w.memory := rfl

end Workspace

/-! ## Failures -/

namespace Graph

variable [Backend α]

/-- Two variables with a squared distance each, and no Hessians. -/
def distances : Graph Float :=
  (addTerm (.plain (.squaredDistance [1] 1)) [.handle 1]
    (addTerm (.plain (.squaredDistance [0] 1)) [.handle 0]
      (addVariable ⟨"b", 1, true, [1], .double⟩ none none
        (addVariable ⟨"a", 0, true, [1], .double⟩ none none
          (.empty false 1)).state).state).state).state

theorem reachable_distances : distances.Reachable :=
  .addTerm (.addTerm (.addVariable (.addVariable
    (.new (show Graph.new false 1 = .ok (.empty false 1) from rfl)) _ _ _) _ _ _) _ _) _ _

end Graph

end Separable
