import Separable.Evaluation

/-!
# Solver programs

A solver of unconstrained problems works on a graph that it is given, through questions: the length
of the state vector, the state that the caller's storage holds, values and derivatives at states
of its choice, copying a state back to the storage, writing to the storage of one variable, and the
penalty parameter in force. What it asks next may depend on all the answers so far, faults included.
A `Program` is such a course of questions and answers that ends after finitely many of them,
whatever the answers are.

A program sees nothing but the answers. So two graphs that answer alike are treated alike, and
nothing but the graph and the storage changes while a program runs.

## Main results

* `run_bind`: running one program after another is running both in sequence.
-/

namespace Separable

variable {α : Type}

/-- What a solver can ask for. -/
inductive Query (α : Type) where
  /-- The length of the state vector. -/
  | scalars
  /-- The state that the caller's storage holds. -/
  | start
  | value (x : Tensor α)
  | valueAtStorage
  | derivatives (x : Tensor α) (mode : Option HessianMode)
  /-- Copy a state to the caller's storage. -/
  | store (x : Tensor α)
  /-- Write a vector to the storage of one variable. -/
  | write (ref : Ref) (xs : List α)
  | penaltyParameter
  /-- Write a log line. -/
  | log (channel : Channel) (event : Event α)

/-- The answers to a question. -/
def Query.Answer : Query α → Type
  | .scalars => Nat
  | .start => Except Fault (List α)
  | .value _ => Except Fault α
  | .valueAtStorage => Except Fault α
  | .derivatives _ _ => Except Fault (Derivatives α)
  | .store _ => Except Fault Unit
  | .write _ _ => Except Fault Unit
  | .penaltyParameter => α
  | .log _ _ => Unit

/-- A finite course of questions and answers. -/
inductive Program (α β : Type) where
  | done (b : β)
  | ask (q : Query α) (next : q.Answer → Program α β)

/-- What a solver works on. -/
structure View (α : Type) where
  graph : Graph α
  memory : Memory α

variable [Backend α]

/-- The answer to a question, with the log lines of finding it. -/
def Query.answer (m : Multipliers α) :
    (q : Query α) → View α → View α × List (Entry α) × q.Answer
  | .scalars, v => (v, [], v.graph.scalars)
  | .start, v => (v, [], v.graph.gather v.memory)
  | .value x, v =>
    let o := Graph.value m x v.graph
    ({ v with graph := o.state }, o.log, o.result)
  | .valueAtStorage, v =>
    let o := Graph.valueAtStorage m v.memory v.graph
    ({ v with graph := o.state }, o.log, o.result)
  | .derivatives x mode, v =>
    let o := Graph.derivatives m x mode (v.graph, none)
    ({ v with graph := o.state.1 }, o.log, o.result)
  | .store x, v =>
    let o := v.graph.store x v.memory
    ({ v with memory := o.state }, o.log, o.result)
  | .write ref xs, v =>
    let o := v.graph.registry.write ref xs v.memory
    ({ v with memory := o.state }, o.log, o.result)
  | .penaltyParameter, v => (v, [], m.mu)
  | .log channel event, v => (v, [⟨channel, event⟩], ())

namespace Program

variable {β γ : Type}

/-- One program after another. -/
def bind : Program α β → (β → Program α γ) → Program α γ
  | done b, f => f b
  | ask q next, f => ask q fun a => bind (next a) f

/-- The course of a program on a graph and a memory. -/
def run (m : Multipliers α) : Program α β → View α → View α × List (Entry α) × β
  | done b, v => (v, [], b)
  | ask q next, v =>
    let (v, log, a) := q.answer m v
    let (v, more, b) := run m (next a) v
    (v, log ++ more, b)

theorem run_bind (m : Multipliers α) (p : Program α β) (f : β → Program α γ) (v : View α) :
    run m (p.bind f) v =
      ((run m (f (run m p v).2.2) (run m p v).1).1,
        (run m p v).2.1 ++ (run m (f (run m p v).2.2) (run m p v).1).2.1,
        (run m (f (run m p v).2.2) (run m p v).1).2.2) := by
  induction p generalizing v with
  | done b => simp [bind, run]
  | ask q next ih => simp [bind, run, ih]

end Program

/-- A solver with an inner state of type `σ`. Each call starts from the inner state that the call
before it left and fills in some results; a call that fails leaves both as they are then. -/
structure Solver (α σ : Type) where
  /-- Whether the solver wants the log lines of the loop that calls it. -/
  takesLines : Bool
  solve : σ → Results α → Program α (σ × Results α × Except Fault Unit)

end Separable
