import SealedCall.Process

/-! # Scheduling

Several processes share one state by taking turns: each works up to its next pause, and the one
that has waited longest goes on first. A turn leaves less of every process that is not done, so all
of them come to an end.
-/

namespace SealedCall

namespace Process

variable {σ ε α : Type}

instance : WellFoundedRelation (Process σ ε α) :=
  ⟨Relation.TransGen Remainder, remainder_wellFounded.transGen⟩

/-- A process that is not done at its next pause has become smaller. -/
theorem remainder_of_advance (process : Process σ ε α) (state : σ)
    (unfinished : (process.advance state).1.outcome? = none) :
    Relation.TransGen Remainder (process.advance state).1 process := by
  induction process generalizing state with
  | done outcome => simp [advance, outcome?] at unfinished
  | inspect next ih => exact .tail (ih state state unfinished) (.inspect next state)
  | update after next ih => exact .tail (ih after unfinished) (.update after next)
  | pause next => exact .single (.pause next)

end Process

namespace Scheduling

variable {σ ε α : Type}

/-- A process with its place among those started together. -/
abbrev Task (σ ε α : Type) := Nat × Process σ ε α

/-- What one turn of several processes comes to: the outcomes of those that are done, and those
that are waiting for their next turn. -/
structure Turn (σ ε α : Type) where
  finished : List (Nat × Except ε α)
  waiting : List (Task σ ε α)
  state : σ

/-- One turn of each process in order. -/
def turn : List (Task σ ε α) → σ → Turn σ ε α
  | [], state => ⟨[], [], state⟩
  | (place, process) :: rest, state =>
    let (left, state) := process.advance state
    let others := turn rest state
    match left.outcome? with
    | some outcome => ⟨(place, outcome) :: others.finished, others.waiting, others.state⟩
    | none => ⟨others.finished, (place, left) :: others.waiting, others.state⟩

/-- No more processes wait after a turn than took part in it. -/
theorem turn_waiting_length (tasks : List (Task σ ε α)) (state : σ) :
    (turn tasks state).waiting.length ≤ tasks.length := by
  induction tasks generalizing state with
  | nil => simp [turn]
  | cons task rest ih =>
    simp only [turn]
    split
    · exact Nat.le_succ_of_le (ih _)
    · exact Nat.succ_le_succ (ih _)

/-- Turns of all processes until every one of them is done. -/
def finish (first : Task σ ε α) (others : List (Task σ ε α)) (state : σ) :
    List (Nat × Except ε α) × σ :=
  let worked := first.2.advance state
  let turned := turn others worked.2
  match _done : worked.1.outcome? with
  | some outcome =>
    match _remaining : turned.waiting with
    | [] => ((first.1, outcome) :: turned.finished, turned.state)
    | next :: rest =>
      let (later, state) := finish next rest turned.state
      ((first.1, outcome) :: turned.finished ++ later, state)
  | none =>
    let (later, state) := finish (first.1, worked.1) turned.waiting turned.state
    (turned.finished ++ later, state)
termination_by (others.length, first.2)
decreasing_by
  · have bound := turn_waiting_length others worked.2
    have remains : (turn others worked.2).waiting = next :: rest := _remaining
    rw [remains, List.length_cons] at bound
    exact Prod.Lex.left _ _ (by omega)
  · have left := Process.remainder_of_advance first.2 state _done
    rcases Nat.lt_or_eq_of_le (turn_waiting_length others worked.2) with less | same
    · exact Prod.Lex.left _ _ less
    · show Prod.Lex _ _ ((turn others worked.2).waiting.length, _) _
      rw [same]
      exact Prod.Lex.right _ left

/-- The outcomes of processes that are started together, in the order in which they were given. No
outcome of one process stops the others, not even an interrupt or an exit: these count as outcomes
like any other here, where a real loop would end with them. -/
def gather (processes : List (Process σ ε α)) (state : σ) : List (Except ε α) × σ :=
  match processes.zipIdx.map fun entry => (entry.2, entry.1) with
  | [] => ([], state)
  | first :: others =>
    let (outcomes, state) := finish first others state
    ((outcomes.mergeSort fun a b => decide (a.1 ≤ b.1)).map (·.2), state)

end Scheduling

end SealedCall
