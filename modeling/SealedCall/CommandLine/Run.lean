import SealedCall.CommandLine.Command
import SealedCall.Json.Listing
import SealedCall.Key
import SealedCall.Loading

/-! # Running a command line

A run reads the log level of the deployment, then the command line, and then does what it asks for.
What comes out is a status, or a failure that nothing on the way handles, together with everything
written until then. A manifest that cannot be made because of a module is no such failure: it is
told apart from the others by its status.
-/

namespace SealedCall.CommandLine

/-- How a run ends. The status of a module that ends the run on its own can be any value. -/
inductive Ending
  | status (status : Value)
  | failed (failure : Failure)

/-- What a run leaves. -/
structure Run where
  ending : Ending
  output : Text
  errors : Text
  host : Host

/-- What a request leads to, apart from the log. -/
structure Result where
  status : Nat
  output : Text
  errors : Text

def endOfLine : Text := Text.of "\n"

def Result.done (output : Text) : Result := ⟨0, output, []⟩

/-- The result of a command line that did not come to a request. -/
def Result.ofInterruption : Interruption → Result
  | .help grammar => ⟨0, Text.of (grammar.usage ++ grammar.description), []⟩
  | .refused grammar refusal =>
    ⟨2, [], Text.of grammar.usage ++ Text.of grammar.program ++ Text.of ": error: " ++
      refusal.message ++ endOfLine⟩

def levelRanks : List (String × Nat) :=
  [("CRITICAL", 50), ("FATAL", 50), ("ERROR", 40), ("WARN", 30), ("WARNING", 30), ("INFO", 20),
   ("DEBUG", 10), ("NOTSET", 0)]

/-- The rank from which log records are written. -/
def leastRank (deployment : Deployment) : Except Failure Nat :=
  let name := deployment.levelName
  match levelRanks.find? fun entry => Text.of entry.1 == name with
  | some (_, rank) => .ok rank
  | none => .error (.misuse (.unknownLogLevel name))

def logLines (rank : Nat) (log : List LogRecord) : Text :=
  (log.filter fun record => rank ≤ record.level.rank).flatMap fun record =>
    record.line ++ endOfLine

/-- Why a module could not be loaded, for the failures that a manifest tells of. -/
def loadingMessage? (module : Text) (failure : Failure) : Option Text :=
  if ["ImportError", "ModuleNotFoundError"].contains failure.kindName then
    some (Text.of "Cannot import " ++ module ++ Text.of ": " ++ failure.message)
  else match failure with
    | .duplicateAction _ =>
      some (Text.of "Registry conflict while loading " ++ module ++ Text.of ": " ++
        failure.message)
    | _ => none

def actionTable : Operation Result := do
  let names := (← get).roster.namesById.map fun entry => (Value.text entry.1, entry.2)
  let listing ← Operation.ofExcept (Json.listing 0 (.dict names))
  return .done (listing ++ endOfLine)

/-- Loads modules one after the other and lists the registered actions. -/
def loadAndList (modules : List ActionModule) : Loaded → List Text → Operation Result
  | _, [] => actionTable
  | loaded, name :: rest => do
    match ← Operation.attempt (ActionModule.load modules loaded name) with
    | .ok loaded => loadAndList modules loaded rest
    | .error failure =>
      match loadingMessage? name failure.checked with
      | some message => return ⟨1, [], message ++ endOfLine⟩
      | none => Operation.fail failure.checked

def serve (modules : List ActionModule) : Request → Operation Result
  | .freshKey => do
    let key ← Operation.ofExcept (Key.ofOctets (← Operation.draw Aead.keyLength))
    return .done (key.encode ++ endOfLine)
  | .deriveId module name salt => do
    let salt := salt.getD (← get).deployment.salt
    let id ← Operation.ofExcept (ActionId.deriveText salt module name)
    return .done (id ++ endOfLine)
  | .actionTable names => loadAndList modules ⟨[], 0⟩ names

/-- Reads a command line and does what it asks for. -/
def answer (modules : List ActionModule) (line : List Text) : Operation Result :=
  match readRequest line with
  | .ok request => serve modules request
  | .error interruption => return .ofInterruption interruption

/-- Runs a command line where some modules can be loaded. -/
def run (modules : List ActionModule) (line : List Text) (host : Host) : Run :=
  match leastRank host.deployment with
  | .error failure => ⟨.failed failure, [], [], host⟩
  | .ok rank =>
    let (outcome, after) := (answer modules line).perform host
    let lines := logLines rank after.log
    match outcome with
    | .ok result => ⟨.status (.int result.status), result.output, lines ++ result.errors, after⟩
    | .error (.raised "SystemExit" status) => ⟨.status status, [], lines, after⟩
    | .error failure => ⟨.failed failure, [], lines, after⟩

end SealedCall.CommandLine
