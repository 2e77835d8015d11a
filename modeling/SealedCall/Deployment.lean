import SealedCall.Files.Tree
import SealedCall.Text.Blank
import SealedCall.Text.Capital

/-! # Deployment

What surrounds the mechanism where it is deployed: the environment settings, the files, the parts
for exporting spans that are at hand, and whether exporting has been set up. All settings have a
value when they are not given.
-/

namespace SealedCall

/-- An optional part for exporting spans. -/
inductive Component
  | exportKit
  | networkExporter
  | endpointProbe
deriving DecidableEq

/-- The surroundings of the mechanism. -/
structure Deployment where
  environment : List (Text × Text)
  files : FileTree
  components : List Component
  isExporting : Bool

namespace Deployment

/-- The surroundings with settings and parts, and no files. -/
def ofEnvironment (environment : List (Text × Text)) (components : List Component) : Deployment :=
  ⟨environment, FileTree.empty, components, false⟩

/-- The text of an environment setting, when it is given. -/
def setting? (deployment : Deployment) (name : String) : Option Text :=
  (deployment.environment.find? fun entry => entry.1 == Text.of name).map (·.2)

/-- The text of an environment setting, or a stand-in. -/
def setting (deployment : Deployment) (name standIn : String) : Text :=
  (deployment.setting? name).getD (Text.of standIn)

/-- Why a setting cannot be given under a name, if it cannot. -/
def settingFault? (name value : Text) : Option Misuse :=
  match name.systemFault?, value.systemFault? with
  | some fault, _ | none, some fault => some (.unusableText fault)
  | none, none =>
    if name.any (·.is '=') then some .badSettingName
    else if name.isEmpty then some .emptySettingName
    else none

def withoutSetting (deployment : Deployment) (name : Text) : Deployment :=
  { deployment with environment := deployment.environment.filter fun entry => entry.1 != name }

def withSetting (deployment : Deployment) (name value : Text) : Except Failure Deployment :=
  match settingFault? name value with
  | some misuse => .error (.misuse misuse)
  | none =>
    let others := deployment.withoutSetting name
    .ok { others with environment := others.environment ++ [(name, value)] }

def salt (deployment : Deployment) : Text := deployment.setting "ACTIONSEAL_ID_SALT" ""

/-- The salt for a roster: the one that it is given, or else the one of the deployment. -/
def saltFor (deployment : Deployment) : Value → Value
  | .null => .text deployment.salt
  | given => given

/-- The log level, in capitals. -/
def levelName (deployment : Deployment) : Text :=
  (deployment.setting "ACTIONSEAL_LOG_LEVEL" "INFO").upper

def keyPath (deployment : Deployment) : FilePath :=
  match deployment.setting? "ACTIONSEAL_KEY_FILE" with
  | some written =>
    FilePath.ofText (if written.isEmpty then Text.of "data/.actionseal_key" else written)
  | none => FilePath.ofText (Text.of "data/.actionseal_key")

def wordsForOn : List Text := ["1", "true", "yes", "on"].map Text.of

/-- Whether a setting switches something on, whatever the case of its letters and the white space
around it. -/
def isOn (deployment : Deployment) (name : Text) (standIn : Bool) : Bool :=
  match deployment.environment.find? fun entry => entry.1 == name with
  | some entry => wordsForOn.contains (entry.2.strip.map CodePoint.asciiLower)
  | none => standIn

end Deployment

end SealedCall
