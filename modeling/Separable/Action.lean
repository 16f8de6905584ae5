import Separable.Event
import Separable.Fault

/-!
# Actions

An action works on an object, writes log lines, and ends with a result or a fault. A fault does
not undo what was done before it: the object keeps every change, and the lines stay written. This
is why the result of an action is an `Outcome`, in which the object and the log are there either
way.

## Main results

* `bind_ok`, `bind_error`: what follows a success runs on the object it left; nothing follows a
  fault.
-/

namespace Separable

/-- What an action leaves: the object, the log lines in order, and a result or a fault. -/
structure Outcome (σ α β : Type) where
  state : σ
  log : List (Entry α)
  result : Except Fault β

/-- A piece of work on an object of type `σ` with a result of type `β`. -/
def Action (σ α β : Type) : Type := σ → Outcome σ α β

namespace Action

variable {σ τ α β γ : Type}

/-- Does nothing. -/
def pure (b : β) : Action σ α β := fun s => ⟨s, [], .ok b⟩

/-- One action after another. -/
def bind (x : Action σ α β) (f : β → Action σ α γ) : Action σ α γ := fun s =>
  match x s with
  | ⟨s, log, .error fault⟩ => ⟨s, log, .error fault⟩
  | ⟨s, log, .ok b⟩ =>
    let next := f b s
    ⟨next.state, log ++ next.log, next.result⟩

instance : Monad (Action σ α) where
  pure := pure
  bind := bind

/-- The object. -/
def get : Action σ α σ := fun s => ⟨s, [], .ok s⟩

/-- Changes the object. -/
def modify (f : σ → σ) : Action σ α Unit := fun s => ⟨f s, [], .ok ()⟩

/-- Fails. -/
def fail (fault : Fault) : Action σ α β := fun s => ⟨s, [], .error fault⟩

/-- A result or a fault that is already known. -/
def ofExcept (result : Except Fault β) : Action σ α β := fun s => ⟨s, [], result⟩

/-- Writes a log line. -/
def emit (channel : Channel) (event : Event α) : Action σ α Unit := fun s =>
  ⟨s, [⟨channel, event⟩], .ok ()⟩

/-- Fails unless the condition holds. -/
def require (condition : Bool) (fault : Fault) : Action σ α Unit := fun s =>
  ⟨s, [], if condition then .ok () else .error fault⟩

/-- Changes the object and has a result or a fault. -/
def run (f : σ → σ × Except Fault β) : Action σ α β := fun s =>
  let (s, result) := f s
  ⟨s, [], result⟩

/-- Works on a part of the object. -/
def within (part : σ → τ) (replace : σ → τ → σ) (x : Action τ α β) : Action σ α β := fun s =>
  let inner := x (part s)
  ⟨replace s inner.state, inner.log, inner.result⟩

theorem bind_ok {x : Action σ α β} {f : β → Action σ α γ} {s s' : σ} {log : List (Entry α)}
    {b : β} (h : x s = ⟨s', log, .ok b⟩) :
    (x >>= f) s = ⟨(f b s').state, log ++ (f b s').log, (f b s').result⟩ := by
  show bind x f s = _
  simp [bind, h]

theorem bind_error {x : Action σ α β} {f : β → Action σ α γ} {s s' : σ} {log : List (Entry α)}
    {fault : Fault} (h : x s = ⟨s', log, .error fault⟩) :
    (x >>= f) s = ⟨s', log, .error fault⟩ := by
  show bind x f s = _
  simp [bind, h]

end Action

end Separable
