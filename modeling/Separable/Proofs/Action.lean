import Separable.Action

/-!
# Reasoning about actions

An action is followed through its object and its result; the log lines do not decide what happens
next. A sequence of two actions is taken apart at the result of the first: after a fault nothing
follows, after a success the second action runs on the object that the first one left. The small
lemmas say the same of each elementary action, so that a sequence can be computed step by step.

## Main results

* `state_bind_of_ok`, `result_bind_of_ok`: the second action, after a success of the first.
* `of_result_bind_eq_ok`: a sequence that succeeds, taken apart.
* `state_bind`: what holds of the object after a sequence, by the two cases.
* `Keeps.bind`: a sequence keeps what both of its actions keep.
* `Undone.bind_of_state`, `Undone.bind_of_ok`: a sequence without a trace, if it fails.
-/

namespace Separable.Action

variable {σ τ α β γ : Type}

/-! ## Elementary actions -/

@[simp] theorem state_get (s : σ) : ((get : Action σ α σ) s).state = s := rfl

@[simp] theorem result_get (s : σ) : ((get : Action σ α σ) s).result = .ok s := rfl

@[simp] theorem state_modify (f : σ → σ) (s : σ) :
    ((modify f : Action σ α Unit) s).state = f s := rfl

@[simp] theorem state_ofExcept (result : Except Fault β) (s : σ) :
    ((ofExcept result : Action σ α β) s).state = s := rfl

@[simp] theorem result_ofExcept (result : Except Fault β) (s : σ) :
    ((ofExcept result : Action σ α β) s).result = result := rfl

@[simp] theorem state_emit (channel : Channel) (event : Event α) (s : σ) :
    (emit channel event s).state = s := rfl

@[simp] theorem result_emit (channel : Channel) (event : Event α) (s : σ) :
    (emit channel event s).result = .ok () := rfl

@[simp] theorem state_require (condition : Bool) (fault : Fault) (s : σ) :
    ((require condition fault : Action σ α Unit) s).state = s := rfl

@[simp] theorem result_require (condition : Bool) (fault : Fault) (s : σ) :
    ((require condition fault : Action σ α Unit) s).result =
      if condition then .ok () else .error fault := rfl

/-- A requirement that does not fail holds. -/
theorem of_require_eq_ok {condition : Bool} {fault : Fault} {s : σ} {done : Unit}
    (h : (require condition fault s : Outcome σ α Unit).result = .ok done) : condition = true := by
  rw [result_require] at h
  split at h
  · assumption
  · cases h

@[simp] theorem state_run (f : σ → σ × Except Fault β) (s : σ) :
    ((run f : Action σ α β) s).state = (f s).1 := rfl

@[simp] theorem state_within (part : σ → τ) (replace : σ → τ → σ) (x : Action τ α β) (s : σ) :
    (within part replace x s).state = replace s (x (part s)).state := rfl

@[simp] theorem result_within (part : σ → τ) (replace : σ → τ → σ) (x : Action τ α β) (s : σ) :
    (within part replace x s).result = (x (part s)).result := rfl

/-! ## Sequences -/

section Sequence

variable {x : Action σ α β} {f : β → Action σ α γ} {s : σ}

theorem state_bind_of_ok {b : β} (h : (x s).result = .ok b) :
    ((x >>= f) s).state = (f b (x s).state).state := by
  rcases hx : x s with ⟨s', log, result⟩
  rw [hx] at h
  dsimp only at h
  subst h
  rw [bind_ok hx]

theorem result_bind_of_ok {b : β} (h : (x s).result = .ok b) :
    ((x >>= f) s).result = (f b (x s).state).result := by
  rcases hx : x s with ⟨s', log, result⟩
  rw [hx] at h
  dsimp only at h
  subst h
  rw [bind_ok hx]

theorem state_bind_of_error {fault : Fault} (h : (x s).result = .error fault) :
    ((x >>= f) s).state = (x s).state := by
  rcases hx : x s with ⟨s', log, result⟩
  rw [hx] at h
  dsimp only at h
  subst h
  rw [bind_error hx]

theorem result_bind_of_error {fault : Fault} (h : (x s).result = .error fault) :
    ((x >>= f) s).result = .error fault := by
  rcases hx : x s with ⟨s', log, result⟩
  rw [hx] at h
  dsimp only at h
  subst h
  rw [bind_error hx]

/-- What holds of the object after a sequence: it has to hold after a first action that fails, and
after the second action if the first succeeds. -/
theorem state_bind {P : σ → Prop}
    (herror : ∀ fault, (x s).result = .error fault → P (x s).state)
    (hok : ∀ b, (x s).result = .ok b → P (f b (x s).state).state) : P ((x >>= f) s).state := by
  cases h : (x s).result with
  | error fault =>
      rw [state_bind_of_error h]
      exact herror fault h
  | ok b =>
      rw [state_bind_of_ok h]
      exact hok b h

/-- A sequence that succeeds consists of two actions that succeed. -/
theorem of_result_bind_eq_ok {c : γ} (h : ((x >>= f) s).result = .ok c) :
    ∃ b, (x s).result = .ok b ∧ (f b (x s).state).result = .ok c ∧
      ((x >>= f) s).state = (f b (x s).state).state := by
  cases hx : (x s).result with
  | error fault =>
      rw [result_bind_of_error hx] at h
      cases h
  | ok b =>
      rw [result_bind_of_ok hx] at h
      exact ⟨b, rfl, h, state_bind_of_ok hx⟩

/-- A sequence fails where one of its two actions does. -/
theorem result_bind_eq_error_iff {fault : Fault} : ((x >>= f) s).result = .error fault ↔
    (x s).result = .error fault ∨
      ∃ b, (x s).result = .ok b ∧ (f b (x s).state).result = .error fault := by
  cases hx : (x s).result with
  | error first =>
      rw [result_bind_of_error hx]
      simp
  | ok b =>
      rw [result_bind_of_ok hx]
      simp

/-- A result that was computed from another one. -/
theorem of_map_eq_ok {result : Except Fault β} {f : β → γ} {c : γ} (h : result.map f = .ok c) :
    ∃ b, result = .ok b ∧ f b = c := by
  cases result with
  | error fault => cases h
  | ok b => exact ⟨b, rfl, Except.ok.inj h⟩

/-- A sequence that only drops a result fails where its action fails, and changes nothing more. -/
theorem of_discarded {fault : Fault}
    (h : ((x >>= fun _ => Pure.pure () : Action σ α Unit) s).result = .error fault) :
    (x s).result = .error fault ∧
      ((x >>= fun _ => Pure.pure () : Action σ α Unit) s).state = (x s).state := by
  cases hresult : (x s).result with
  | error first =>
      rw [result_bind_of_error hresult] at h
      exact ⟨congrArg Except.error (Except.error.inj h), state_bind_of_error hresult⟩
  | ok b =>
      rw [result_bind_of_ok hresult] at h
      cases h

theorem of_toOption_eq_some {result : Except Fault β} {b : β} (h : result.toOption = some b) :
    result = .ok b := by
  cases result with
  | error fault => cases h
  | ok c => exact congrArg Except.ok (Option.some.inj h)

end Sequence

/-! ## What an action keeps -/

/-- Whether an action keeps what is true of the object, whether it succeeds or fails. -/
def Keeps (P : σ → Prop) (x : Action σ α β) : Prop := ∀ s, P s → P (x s).state

section Keeps

variable {P : σ → Prop}

theorem Keeps.bind {x : Action σ α β} {f : β → Action σ α γ} (hx : Keeps P x)
    (hf : ∀ b, Keeps P (f b)) : Keeps P (x >>= f) :=
  fun s hs => state_bind (fun _ _ => hx s hs) fun b _ => hf b _ (hx s hs)

/-- An action that never changes the object keeps everything. -/
theorem Keeps.of_state_eq {x : Action σ α β} (h : ∀ s, (x s).state = s) : Keeps P x :=
  fun s hs => (h s).symm ▸ hs

/-- A loop keeps what every pass through its body keeps. -/
theorem Keeps.forM {xs : List γ} {f : γ → Action σ α PUnit} (h : ∀ x ∈ xs, Keeps P (f x)) :
    Keeps P (xs.forM f) := by
  induction xs with
  | nil => exact .of_state_eq fun _ => rfl
  | cons x rest ih =>
      show Keeps P (f x >>= fun _ => rest.forM f)
      exact .bind (h x (by simp)) fun _ => ih fun y hy => h y (List.mem_cons_of_mem x hy)

end Keeps

/-! ## Actions without a trace -/

/-- Whether an action, if it fails, leaves the object as it was. -/
def Undone (x : Action σ α β) (s : σ) : Prop :=
  ∀ fault, (x s).result = .error fault → (x s).state = s

section Undone

variable {x : Action σ α β} {f : β → Action σ α γ} {s : σ}

theorem Undone.bind_of_state (hx : (x s).state = s)
    (hf : ∀ b, (x s).result = .ok b → Undone (f b) s) : Undone (x >>= f) s := by
  intro fault hfault
  cases hresult : (x s).result with
  | error first => rw [state_bind_of_error hresult, hx]
  | ok b =>
      rw [result_bind_of_ok hresult, hx] at hfault
      rw [state_bind_of_ok hresult, hx]
      exact hf b hresult fault hfault

theorem Undone.bind_of_ok (hx : Undone x s) (hf : ∀ b t, ∃ c, (f b t).result = .ok c) :
    Undone (x >>= f) s := by
  intro fault hfault
  cases hresult : (x s).result with
  | error first =>
      rw [state_bind_of_error hresult]
      exact hx first hresult
  | ok b =>
      obtain ⟨c, hc⟩ := hf b (x s).state
      rw [result_bind_of_ok hresult, hc] at hfault
      cases hfault

end Undone

end Separable.Action
