/-! # Processes

A process works on a shared state step by step and ends with a value or a failure. Between two
steps it may pause, and while it is paused other processes can work on the state. Every process
ends: what follows a step or a pause is always a smaller process.
-/

namespace SealedCall

/-- A process on a state. It is done, or it looks at the state, or it changes the state, or it
pauses, and then goes on. -/
inductive Process (σ ε α : Type)
  | done (outcome : Except ε α)
  | inspect (next : σ → Process σ ε α)
  | update (state : σ) (next : Process σ ε α)
  | pause (next : Process σ ε α)

namespace Process

variable {σ ε α β : Type}

/-- The process that goes on with the outcome of another one, whatever it is. -/
def andThen : Process σ ε α → (Except ε α → Process σ ε β) → Process σ ε β
  | .done outcome, next => next outcome
  | .inspect more, next => .inspect fun state => andThen (more state) next
  | .update state more, next => .update state (andThen more next)
  | .pause more, next => .pause (andThen more next)

/-- The process that goes on with the value of another one, and fails where that fails. -/
def bind (process : Process σ ε α) (next : α → Process σ ε β) : Process σ ε β :=
  process.andThen fun
    | .ok value => next value
    | .error failure => .done (.error failure)

instance : Monad (Process σ ε) where
  pure value := .done (.ok value)
  bind := bind

/-- The process of one step on the state. -/
def ofStep (step : σ → Except ε α × σ) : Process σ ε α :=
  .inspect fun state =>
    let (outcome, after) := step state
    .update after (.done outcome)

/-- The outcome of a process that has the state to itself, and the state after it. -/
def run : Process σ ε α → σ → Except ε α × σ
  | .done outcome, state => (outcome, state)
  | .inspect next, state => (next state).run state
  | .update state next, _ => next.run state
  | .pause next, state => next.run state

/-- One process is what is left of another after a step or a pause. -/
inductive Remainder : Process σ ε α → Process σ ε α → Prop
  | inspect (next : σ → Process σ ε α) (state : σ) : Remainder (next state) (.inspect next)
  | update (state : σ) (next : Process σ ε α) : Remainder next (.update state next)
  | pause (next : Process σ ε α) : Remainder next (.pause next)

/-- Nothing can be left of a process for ever. -/
theorem remainder_wellFounded : WellFounded (@Remainder σ ε α) := by
  refine ⟨fun process => ?_⟩
  induction process with
  | done outcome => exact ⟨_, fun _ h => nomatch h⟩
  | inspect next ih => exact ⟨_, fun _ h => by cases h; exact ih _⟩
  | update state next ih => exact ⟨_, fun _ h => by cases h; exact ih⟩
  | pause next ih => exact ⟨_, fun _ h => by cases h; exact ih⟩

/-- What is left of a process when it has worked up to its next pause. -/
def advance : Process σ ε α → σ → Process σ ε α × σ
  | .done outcome, state => (.done outcome, state)
  | .inspect next, state => (next state).advance state
  | .update state next, _ => next.advance state
  | .pause next, state => (next, state)

def outcome? : Process σ ε α → Option (Except ε α)
  | .done outcome => some outcome
  | _ => none

end Process

end SealedCall
