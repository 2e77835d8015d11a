import SealedCall.Host
import SealedCall.Key

/-! # The key of a deployment

The sealing key of a deployment is given by a setting as a key text, or by the octets of a key
file. The setting comes first, and only when there is neither can a fresh key be made, which then
stays in the key file.
-/

namespace SealedCall.KeyFile

/-- The key that the setting gives, unless it is blank. -/
def ofSetting (deployment : Deployment) : Except Failure (Option Key) :=
  match deployment.setting? "ACTIONSEAL_KEY" with
  | none => .ok none
  | some raw =>
    if raw.strip.isEmpty then .ok none
    else match Key.decode raw with
      | .ok key => .ok (some key)
      | .error failure => .error failure

def atPath {α : Type} (path : FilePath) : Except FileFault α → Except Failure α
  | .ok value => .ok value
  | .error fault => .error (.misuse (.file fault path.toText))

/-- The key in the key file, when there is one. -/
def ofFile (deployment : Deployment) : Except Failure (Option Key) := do
  let path := deployment.keyPath
  if ← atPath path (deployment.files.holds path) then
    let octets ← atPath path (deployment.files.read path)
    return some (← Key.ofOctets octets)
  else return none

/-- The key that a deployment has, when it has one. -/
def existing (deployment : Deployment) : Except Failure (Option Key) :=
  match ofSetting deployment with
  | .error failure => .error failure
  | .ok (some key) => .ok (some key)
  | .ok none => ofFile deployment

def current : Operation Key := do
  match existing (← get).deployment with
  | .ok (some key) => pure key
  | .ok none => Operation.fail (.keyMaterial .notConfigured)
  | .error failure => Operation.fail failure

def changeFiles (files : FileTree) : Operation Unit :=
  modify fun host => { host with deployment := { host.deployment with files := files } }

/-- The octets of a fresh key, which stay in the key file and which only the owner of that file may
read. They are what the random source gives, and are looked at only when the file is read. -/
def create : Operation Octets := do
  let path := (← get).deployment.keyPath
  let (files, fault) := (← get).deployment.files.withDirectory path.parent
  changeFiles files
  match fault with
  | some (fault, place) => Operation.fail (.misuse (.file fault place.toText))
  | none => pure ()
  let octets ← Operation.draw Aead.keyLength
  let files ← Operation.ofExcept
    (atPath path ((← get).deployment.files.write path octets ownerOnly))
  changeFiles files
  return octets

/-- The octets of the key that a deployment has, or else of a fresh one. -/
def ensure : Operation Octets := do
  match existing (← get).deployment with
  | .ok (some key) => pure key.octets
  | .ok none => create
  | .error failure => Operation.fail failure

end SealedCall.KeyFile
