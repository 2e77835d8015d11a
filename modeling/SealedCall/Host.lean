import SealedCall.Deployment
import SealedCall.Journal
import SealedCall.Memory
import SealedCall.Random
import SealedCall.Roster

/-! # Host

The host is everything that operations change: the roster, the memory that actions and callers
share, the random source, the journal, and the surroundings. An operation on it ends with a value or
a failure, and what it did before failing stays done.
-/

namespace SealedCall

/-- The state that operations work on. -/
structure Host where
  roster : Roster
  memory : Memory
  random : RandomSource
  log : List LogRecord
  spans : List Span
  calls : List Call
  deployment : Deployment

/-- A step that reads and changes the host and ends with a value or a failure. -/
abbrev Operation (α : Type) := ExceptT Failure (StateM Host) α

namespace Operation

def fail {α : Type} (failure : Failure) : Operation α := throw failure

/-- The operation that an outcome is. -/
def ofExcept {α : Type} : Except Failure α → Operation α
  | .ok value => pure value
  | .error failure => throw failure

/-- The outcome of an operation and the host after it. -/
def perform {α : Type} (operation : Operation α) (host : Host) : Except Failure α × Host :=
  Id.run (StateT.run (ExceptT.run operation) host)

/-- The operation that ends with the outcome of another one, and does not fail. -/
def attempt {α : Type} (operation : Operation α) : Operation (Except Failure α) :=
  ExceptT.mk (Except.ok <$> ExceptT.run operation)

def record (level : LogLevel) (logger : Logger) (message : Text) : Operation Unit :=
  modify fun host => { host with log := host.log ++ [⟨level, logger, message⟩] }

def draw (length : Nat) : Operation Octets :=
  modifyGet fun host =>
    let (octets, random) := host.random.draw length
    (octets, { host with random := random })

/-- A value with places of its own. -/
def place (value : Value) : Operation Datum :=
  modifyGet fun host =>
    let (memory, datum) := host.memory.place value
    (datum, { host with memory := memory })

/-- A value that was just computed: where it is no number, it differs from every other one. -/
def computed (value : Value) : Operation Value :=
  modifyGet fun host =>
    let (memory, number) := host.memory.number
    (value.marked number, { host with memory := memory })

/-- The value that a datum stands for at the moment. -/
def view (datum : Datum) : Operation Value := do
  match (← get).memory.view datum with
  | some value => pure value
  | none => fail .tooDeep

end Operation

end SealedCall
