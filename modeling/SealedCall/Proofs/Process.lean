import SealedCall.Process

/-! # Runs of composed processes

What a process does before it is done is not touched by what comes after it, so a run of two
processes one after the other is the run of the first and then the run of the second on the state
that the first left. A process that shares its state with others keeps to a relation when each of
its changes does, whatever the others have done while it paused.
-/

namespace SealedCall

/-- A relation between states that holds when nothing is done, and of what is done in two parts when
it holds of each. -/
structure Accumulates {σ : Type} (relates : σ → σ → Prop) : Prop where
  refl : ∀ state, relates state state
  trans : ∀ {state between later}, relates state between → relates between later →
    relates state later

namespace Process

variable {σ ε α β : Type}

theorem run_andThen (process : Process σ ε α) (next : Except ε α → Process σ ε β) (state : σ) :
    (process.andThen next).run state =
      (next (process.run state).1).run (process.run state).2 := by
  induction process generalizing state with
  | done outcome => rfl
  | inspect more ih => exact ih state state
  | update after more ih => exact ih after
  | pause more ih => exact ih state

theorem run_bind (process : Process σ ε α) (next : α → Process σ ε β) (state : σ) :
    (process.bind next).run state =
      match process.run state with
      | (.ok value, after) => (next value).run after
      | (.error failure, after) => (.error failure, after) := by
  rw [bind, run_andThen]
  obtain ⟨outcome, after⟩ := process.run state
  cases outcome with
  | ok value => rfl
  | error failure => rfl

@[simp]
theorem run_ofStep (step : σ → Except ε α × σ) (state : σ) : (ofStep step).run state = step state :=
  rfl

/-- A run goes on where the work up to the first pause ended. -/
theorem run_of_advance {process later : Process σ ε α} {state between : σ}
    (hadvance : process.advance state = later.advance between) :
    process.run state = later.run between := by
  -- every run is the work up to the first pause, and then the run of what is left
  have hsplit : ∀ (process : Process σ ε α) (state : σ),
      process.run state = (process.advance state).1.run (process.advance state).2 := by
    intro process
    induction process with
    | done outcome => exact fun _ => rfl
    | inspect next ih => exact fun state => ih state state
    | update after next ih => exact fun _ => ih after
    | pause next => exact fun _ => rfl
  rw [hsplit process, hadvance, ← hsplit later]

/-- A step that has a value leads over to what comes next without a pause. -/
theorem advance_bind_ofStep {γ : Type} {step : σ → Except ε α × σ} {state after : σ} {value : α}
    (hstep : step state = (.ok value, after)) (next : α → Process σ ε β)
    (last : Except ε β → Process σ ε γ) :
    (((ofStep step).bind next).andThen last).advance state =
      ((next value).andThen last).advance after := by
  simp only [ofStep, bind, andThen, advance, hstep]

/-! ## Changes within a relation -/

variable {allowed : σ → σ → Prop}

/-- Whether a relation holds of every change that a process makes from a state on, also when others
have changed the state in any way during a pause. -/
def Keeps (allowed : σ → σ → Prop) : Process σ ε α → σ → Prop
  | .done _, _ => True
  | .inspect next, state => (next state).Keeps allowed state
  | .update after next, state => allowed state after ∧ next.Keeps allowed after
  | .pause next, _ => ∀ state, next.Keeps allowed state

theorem keeps_andThen {process : Process σ ε α} {next : Except ε α → Process σ ε β} {state : σ}
    (hprocess : process.Keeps allowed state)
    (hnext : ∀ outcome after, (next outcome).Keeps allowed after) :
    (process.andThen next).Keeps allowed state := by
  induction process generalizing state with
  | done outcome => exact hnext outcome state
  | inspect more ih => exact ih state hprocess
  | update after more ih => exact ⟨hprocess.1, ih hprocess.2⟩
  | pause more ih => exact fun state => ih (hprocess state)

theorem keeps_bind {process : Process σ ε α} {next : α → Process σ ε β} {state : σ}
    (hprocess : process.Keeps allowed state)
    (hnext : ∀ value after, (next value).Keeps allowed after) :
    (process.bind next).Keeps allowed state := by
  refine keeps_andThen hprocess fun outcome after => ?_
  cases outcome with
  | ok value => exact hnext value after
  | error failure => exact True.intro

theorem keeps_ofStep {step : σ → Except ε α × σ} {state : σ}
    (hstep : allowed state (step state).2) : (ofStep step : Process σ ε α).Keeps allowed state :=
  ⟨hstep, True.intro⟩

/-- Up to its next pause a process that keeps to a relation stays within it, and what is left of the
process keeps to it whatever comes in between. -/
theorem keeps_advance (haccumulates : Accumulates allowed) {process : Process σ ε α} {state : σ}
    (hprocess : process.Keeps allowed state) :
    allowed state (process.advance state).2 ∧
      ∀ other, (process.advance state).1.Keeps allowed other := by
  induction process generalizing state with
  | done outcome => exact ⟨haccumulates.refl state, fun _ => True.intro⟩
  | inspect next ih => exact ih state hprocess
  | update after next ih =>
      obtain ⟨hlater, hleft⟩ := ih hprocess.2
      exact ⟨haccumulates.trans hprocess.1 hlater, hleft⟩
  | pause next => exact ⟨haccumulates.refl state, hprocess⟩

end Process

end SealedCall
