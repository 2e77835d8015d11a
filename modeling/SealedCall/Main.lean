import SealedCall.CommandLine.Run

/-! # The program

The command line as a program: it hands the words, the settings and one draw of random octets to
the run, and writes what the run leaves. No module can be loaded into it.
-/

namespace SealedCall.CommandLine

def settingNames : List String := ["ACTIONSEAL_ID_SALT", "ACTIONSEAL_LOG_LEVEL"]

def givenSettings : IO (List (Text × Text)) := do
  settingNames.filterMapM fun name => do
    return (← IO.getEnv name).map fun value => (Text.of name, Text.of value)

/-- The host of a program with settings, where every draw gives the same octets. A run draws at
most once. -/
def hostOf (settings : List (Text × Text)) (drawn : Octets) : Host :=
  ⟨Roster.empty (Value.ofString ""), Memory.empty, ⟨fun _ _ => drawn, 0⟩, [], [], [],
    Deployment.ofEnvironment settings []⟩

def written (t : Text) : String := String.ofList (t.map fun point => Char.ofNat point.value)

/-- The status of an ending, and what is still to be said about it. -/
def Ending.exitStatus : Ending → UInt32 × Text
  | .status (.int n) => ((n % 256).toNat.toUInt32, [])
  | .status .null => (0, [])
  | .status other => (1, other.plain ++ endOfLine)
  | .failed failure =>
    (1, Text.of failure.kindName ++ Text.of ": " ++ failure.message ++ endOfLine)

end SealedCall.CommandLine

open SealedCall.CommandLine in
def main (arguments : List String) : IO UInt32 := do
  let drawn ← IO.getRandomBytes SealedCall.Aead.keyLength.toUSize
  let run := run [] (arguments.map SealedCall.Text.of)
    (hostOf (← givenSettings) drawn.toList)
  let (status, said) := run.ending.exitStatus
  (← IO.getStdout).putStr (written run.output)
  (← IO.getStderr).putStr (written (run.errors ++ said))
  return status
