import SealedCall.Text.System

/-! # Paths

A path is a root, which a relative path has none of, and names. Writing a path down drops the parts
that lead nowhere: repeated slashes, a slash at the end, and the name of the directory itself. A
step up to the directory above is kept, since where it leads depends on the files.
-/

namespace SealedCall

/-- A path. The root is empty, a slash, or two slashes, which are kept apart. -/
structure FilePath where
  root : Text
  names : List Text
deriving DecidableEq

namespace FilePath

/-- The name that leads nowhere. -/
def here : Text := Text.of "."

def above : Text := Text.of ".."

def rootOf (written : Text) : Text :=
  let slashes := written.takeWhile (·.is '/')
  if slashes.length = 2 then slashes else slashes.take 1

def ofText (written : Text) : FilePath :=
  ⟨rootOf written,
    (Text.splitAt '/' written).filter fun name => !name.isEmpty && name != here⟩

def toText (path : FilePath) : Text :=
  if path.root.isEmpty && path.names.isEmpty then here
  else path.root ++ Text.joinWith (Text.of "/") path.names

def parent (path : FilePath) : FilePath := ⟨path.root, path.names.dropLast⟩

def nameLimit : Nat := 255

def pathLimit : Nat := 4095

def isLongName (name : Text) : Bool := decide (nameLimit < name.systemLength)

def isTooLong (path : FilePath) : Bool := decide (pathLimit < path.toText.systemLength)

end FilePath

end SealedCall
