import Mathlib.Data.List.Forall2
import Separable.Proofs.Action
import Separable.Proofs.Crew

/-!
# Two runs side by side

That a result does not depend on what a buffer holds is a statement about two runs: one action on
two objects that agree in all that it should read. Two outcomes are *coupled* if both are the same
fault, or both are results that are related together with the objects they leave. A sequence of
actions is coupled if each of its steps is, and so both runs can be followed through the same text.

Crews are coupled in the same way. Two tasks are coupled if on related buffers and related terms they
have the same result, leave related buffers, and after a success leave related terms. Then workers
with related buffers who go through related chunks stop at the same place with the same sum, and
two crews that share related terms in the same way report the same.

What is related after a fault matters for buffers, because all workers finish before a fault is
reported, but not for terms, because nothing is read from terms after a fault.

## Main results

* `Outcome.Coupled.bind`: two sequences, from their steps.
* `Worker.coupled_through`: two workers at related chunks.
* `Crew.coupled_run`: two crews at related terms.
-/

namespace Separable

open Scalar

/-! ## Actions -/

section Action

variable {σ σ' τ τ' α β β' γ γ' : Type}

/-- Whether two outcomes are the same fault, or two results that are related with the objects they
come with. -/
def Outcome.Coupled (R : β → σ → γ → τ → Prop) (o : Outcome σ α β) (p : Outcome τ α γ) : Prop :=
  (∃ fault, o.result = .error fault ∧ p.result = .error fault) ∨
    ∃ b c, o.result = .ok b ∧ p.result = .ok c ∧ R b o.state c p.state

namespace Outcome.Coupled

variable {R Q : β → σ → γ → τ → Prop} {o : Outcome σ α β} {p : Outcome τ α γ}

theorem mono (h : Coupled R o p) (hRQ : ∀ b s c t, R b s c t → Q b s c t) : Coupled Q o p := by
  rcases h with hfault | ⟨b, c, hb, hc, hR⟩
  · exact .inl hfault
  · exact .inr ⟨b, c, hb, hc, hRQ _ _ _ _ hR⟩

/-- Two outcomes with one result are coupled, whatever the result is. -/
theorem of_result_eq {R : β → σ → β → τ → Prop} {p : Outcome τ α β} (h : o.result = p.result)
    (hR : ∀ b, o.result = .ok b → R b o.state b p.state) : Coupled R o p := by
  cases hresult : o.result with
  | error fault => exact .inl ⟨fault, hresult, h.symm.trans hresult⟩
  | ok b => exact .inr ⟨b, b, hresult, h.symm.trans hresult, hR b hresult⟩

/-- Outcomes whose results are only related to themselves have one result. -/
theorem result_eq {R : β → σ → β → τ → Prop} {p : Outcome τ α β} (h : Coupled R o p)
    (hR : ∀ b s c t, R b s c t → b = c) : o.result = p.result := by
  rcases h with ⟨fault, ho, hp⟩ | ⟨b, c, ho, hp, hrelated⟩
  · exact ho.trans hp.symm
  · exact ho.trans ((congrArg _ (hR _ _ _ _ hrelated)).trans hp.symm)

/-- Two sequences are coupled if their first steps are, and after these the rest is. -/
theorem bind {x : Action σ α β} {f : β → Action σ α β'} {y : Action τ α γ}
    {k : γ → Action τ α γ'} {S : β' → σ → γ' → τ → Prop} {s : σ} {t : τ}
    (hx : Coupled R (x s) (y t))
    (hf : ∀ b c, R b (x s).state c (y t).state →
      Coupled S (f b (x s).state) (k c (y t).state)) :
    Coupled S ((x >>= f) s) ((y >>= k) t) := by
  rcases hx with ⟨fault, hfault, hfault'⟩ | ⟨b, c, hb, hc, hR⟩
  · exact .inl ⟨fault, Action.result_bind_of_error hfault, Action.result_bind_of_error hfault'⟩
  · have hrest := hf b c hR
    unfold Coupled at hrest ⊢
    rw [Action.result_bind_of_ok hb, Action.result_bind_of_ok hc, Action.state_bind_of_ok hb,
      Action.state_bind_of_ok hc]
    exact hrest

/-- The same, if the first steps have one result. -/
theorem bind_of_result_eq {x : Action σ α β} {f : β → Action σ α β'} {y : Action τ α β}
    {k : β → Action τ α γ'} {S : β' → σ → γ' → τ → Prop} {s : σ} {t : τ}
    (hxy : (x s).result = (y t).result)
    (hf : ∀ b, (x s).result = .ok b → Coupled S (f b (x s).state) (k b (y t).state)) :
    Coupled S ((x >>= f) s) ((y >>= k) t) := by
  refine .bind (R := fun b _ c _ => (x s).result = .ok b ∧ b = c)
    (.of_result_eq hxy fun b hb => ⟨hb, rfl⟩) ?_
  rintro b _ ⟨hb, rfl⟩
  exact hf b hb

end Outcome.Coupled

/-- Whether two outcomes are coupled and, also after a fault, leave objects that are related by
`W`. -/
def Outcome.Parallel (W : σ → τ → Prop) (R : β → σ → γ → τ → Prop) (o : Outcome σ α β)
    (p : Outcome τ α γ) : Prop :=
  W o.state p.state ∧ Coupled R o p

namespace Outcome.Parallel

variable {W : σ → τ → Prop} {R : β → σ → γ → τ → Prop} {S : β' → σ → γ' → τ → Prop}

theorem of_ok {o : Outcome σ α β} {p : Outcome τ α γ} {b : β} {c : γ} (ho : o.result = .ok b)
    (hp : p.result = .ok c) (hW : W o.state p.state) (hR : R b o.state c p.state) :
    Parallel W R o p :=
  ⟨hW, .inr ⟨b, c, ho, hp, hR⟩⟩

/-- Two sequences are parallel if their first steps are, and after these the rest is. -/
theorem bind {x : Action σ α β} {f : β → Action σ α β'} {y : Action τ α γ}
    {k : γ → Action τ α γ'} {s : σ} {t : τ} (hx : Parallel W R (x s) (y t))
    (hf : ∀ b s' c t', R b s' c t' → Parallel W S (f b s') (k c t')) :
    Parallel W S ((x >>= f) s) ((y >>= k) t) := by
  refine ⟨?_, hx.2.bind fun b c hR => (hf b _ c _ hR).2⟩
  rcases hx.2 with ⟨fault, hfault, hfault'⟩ | ⟨b, c, hb, hc, hR⟩
  · rw [Action.state_bind_of_error hfault, Action.state_bind_of_error hfault']
    exact hx.1
  · rw [Action.state_bind_of_ok hb, Action.state_bind_of_ok hc]
    exact (hf b _ c _ hR).1

end Outcome.Parallel

end Action

/-! ## Crews -/

/-- Two lists are related by what is read off their elements exactly if all of it is equal. -/
theorem forall₂_map_eq_iff {β γ δ : Type} {f : β → δ} {g : γ → δ} {bs : List β} {cs : List γ} :
    List.Forall₂ (fun b c => f b = g c) bs cs ↔ bs.map f = cs.map g := by
  rw [← List.forall₂_eq_eq_eq, List.forall₂_map_left_iff, List.forall₂_map_right_iff]

/-- What is true of the second of two related elements is true of the second list. -/
theorem forall_right {β γ : Type} {P : γ → Prop} {xs : List β} {ys : List γ}
    (h : List.Forall₂ (fun _ y => P y) xs ys) : ∀ y ∈ ys, P y := by
  induction h with
  | nil => simp
  | cons hy _ ih => exact List.forall_mem_cons.2 ⟨hy, ih⟩

variable {α : Type} [Scalar α]

section Crew

variable {S : Scratch α → Scratch α → Prop} {T after : Bound α → Bound α → Prop}

/-- Whether two tasks have the same result on related buffers and related terms, and leave buffers
that are related as before, and after a success terms that are related in the sense of `after`. -/
def Task.Coupled (S : Scratch α → Scratch α → Prop) (T after : Bound α → Bound α → Prop)
    (task other : Task α) : Prop :=
  ∀ s t b d, S s t → T b d → (task s b).2 = (other t d).2 ∧ S (task s b).1.1 (other t d).1.1 ∧
    ∀ value, (task s b).2 = .ok value → after (task s b).1.2 (other t d).1.2

/-- Whether two workers have come to the same sum and the same fault, if any, with buffers that are
related. -/
structure Worker.Coupled (S : Scratch α → Scratch α → Prop) (v w : Worker α) : Prop where
  scratch : S v.scratch w.scratch
  value : v.value = w.value
  fault : v.fault = w.fault

/-- Whether two crews have coupled workers, and related terms if no worker has failed. -/
structure Crew.Coupled (S : Scratch α → Scratch α → Prop) (after : Bound α → Bound α → Prop)
    (c d : Crew α) : Prop where
  workers : List.Forall₂ (Worker.Coupled S) c.workers d.workers
  terms : (∀ w ∈ c.workers, w.fault = none) → List.Forall₂ after c.terms d.terms

variable {task other : Task α}

/-- Two workers go through related chunks side by side, and stop at the same place. -/
theorem Worker.coupled_through (h : Task.Coupled S T after task other)
    {chunk chunk' : List (Bound α)} (hchunk : List.Forall₂ T chunk chunk') {v w : Worker α}
    (hvw : v.Coupled S w) :
    (v.through task chunk).1.Coupled S (w.through other chunk').1 ∧
      ((v.through task chunk).1.fault = none →
        List.Forall₂ after (v.through task chunk).2 (w.through other chunk').2) := by
  induction hchunk generalizing v w with
  | nil => exact ⟨hvw, fun _ => .nil⟩
  | @cons b d rest rest' hbd _ ih =>
      obtain ⟨hresult, hscratch, hafter⟩ := h v.scratch w.scratch b d hvw.scratch hbd
      rcases htask : task v.scratch b with ⟨⟨scratch, b'⟩, result⟩
      rcases hother : other w.scratch d with ⟨⟨scratch', d'⟩, result'⟩
      rw [htask, hother] at hresult hscratch hafter
      dsimp only at hresult hscratch hafter
      subst hresult
      cases result with
      | error fault =>
          simp only [through, htask, hother]
          exact ⟨⟨hscratch, hvw.value, rfl⟩, fun hnone => by cases hnone⟩
      | ok value =>
          have hnow : (v.record scratch (.ok value)).Coupled S (w.record scratch' (.ok value)) :=
            ⟨hscratch, congrArg (· + value) hvw.value, hvw.fault⟩
          obtain ⟨hworkers, hterms⟩ := ih hnow
          simp only [through, htask, hother]
          exact ⟨hworkers, fun hnone => .cons (hafter value rfl) (hterms hnone)⟩

namespace Crew

omit [Scalar α] in
private theorem forall₂_zip_map {β γ δ : Type} {R : β → γ → Prop} {Q : δ → δ → Prop}
    {bs : List β} {cs : List γ} {f g : Nat × Nat → δ} (xs : List (Nat × Nat))
    (h : List.Forall₂ R bs cs) (hQ : ∀ x, Q (f x) (g x)) :
    List.Forall₂ (fun p q => R p.1 q.1 ∧ p.2.1 = q.2.1 ∧ Q p.2.2 q.2.2)
      (bs.zip (xs.map fun x => (x, f x))) (cs.zip (xs.map fun x => (x, g x))) := by
  induction h generalizing xs with
  | nil => exact .nil
  | cons hbc _ ih =>
      cases xs with
      | nil => exact .nil
      | cons x xs => exact .cons ⟨hbc, rfl, hQ x⟩ (ih xs)

variable {terms others : List (Bound α)}

/-- Related terms are shared among workers with related buffers in the same way. -/
theorem coupled_lineup (hterms : List.Forall₂ T terms others) {scratch scratch' : List (Scratch α)}
    (hscratch : List.Forall₂ S scratch scratch') :
    List.Forall₂ (fun p q => p.1.Coupled S q.1 ∧ List.Forall₂ T p.2 q.2)
      (lineup terms scratch) (lineup others scratch') := by
  have hpieces (chunk : Nat × Nat) :
      List.Forall₂ T (Partition.piece terms chunk) (Partition.piece others chunk) :=
    List.forall₂_take _ (List.forall₂_drop _ hterms)
  have hzip := forall₂_zip_map (Partition.chunks terms.length scratch.length) hscratch hpieces
  unfold lineup Partition.assignments
  rw [← hterms.length_eq, ← hscratch.length_eq, List.forall₂_map_left_iff,
    List.forall₂_map_right_iff]
  exact hzip.imp fun p q ⟨hbuffers, _, hpiece⟩ => ⟨⟨hbuffers, rfl, rfl⟩, hpiece⟩

/-- Two crews that begin with related buffers and related terms are coupled in the end. -/
theorem coupled_run (h : Task.Coupled S T after task other) {p q : Pool α}
    (hpos : 0 < p.scratch.length)
    (hp : p.chunks = Partition.chunks terms.length p.scratch.length)
    (hq : q.chunks = Partition.chunks others.length q.scratch.length)
    (hterms : List.Forall₂ T terms others) (hscratch : List.Forall₂ S p.scratch q.scratch) :
    Coupled S after ((start terms p).run task) ((start others q).run other) := by
  have hways : List.Forall₂ (fun v w => (v.1.through task v.2).1.Coupled S
      (w.1.through other w.2).1 ∧ ((v.1.through task v.2).1.fault = none →
        List.Forall₂ after (v.1.through task v.2).2 (w.1.through other w.2).2))
      (lineup terms p.scratch) (lineup others q.scratch) :=
    (coupled_lineup hterms hscratch).imp fun _ _ ⟨hworkers, hchunks⟩ =>
      Worker.coupled_through h hchunks hworkers
  rw [run_start task hpos hp, run_start other (hscratch.length_eq ▸ hpos) hq]
  refine ⟨?_, fun hnone => List.rel_flatten ?_⟩
  · rw [List.forall₂_map_left_iff, List.forall₂_map_right_iff]
    exact hways.imp fun _ _ hway => hway.1
  · rw [List.forall₂_map_left_iff, List.forall₂_map_right_iff]
    have hfaultless : ∀ v ∈ lineup terms p.scratch, (v.1.through task v.2).1.fault = none :=
      fun v hv => hnone _ (List.mem_map_of_mem hv)
    have hboth := (List.forall₂_and_left _ _).2 ⟨hfaultless, hways⟩
    exact hboth.imp fun _ _ ⟨hfault, _, hterms⟩ => hterms hfault

variable {c d : Crew α}

/-- Coupled crews report the same. -/
theorem Coupled.outcome_eq (h : Coupled S after c d) : c.outcome = d.outcome := by
  have hvalues : c.workers.map (·.value) = d.workers.map (·.value) :=
    forall₂_map_eq_iff.1 (h.workers.imp fun _ _ hvw => hvw.value)
  have hfaults : c.faults = d.faults := by
    have hmap : c.workers.map (·.fault) = d.workers.map (·.fault) :=
      forall₂_map_eq_iff.1 (h.workers.imp fun _ _ hvw => hvw.fault)
    have hfilter := congrArg (List.filterMap id) hmap
    rwa [List.filterMap_map, List.filterMap_map] at hfilter
  rw [outcome, outcome, hvalues, hfaults]

/-- Coupled crews that report a sum leave related terms. -/
theorem Coupled.terms_of_ok (h : Coupled S after c d) {total : α} (hok : c.outcome = .ok total) :
    List.Forall₂ after c.terms d.terms :=
  h.terms (outcome_eq_ok_iff.1 hok).1

end Crew

end Crew

end Separable
