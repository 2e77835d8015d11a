import SealedCall.Failure
import SealedCall.Files.Path

/-! # Files

The directories and files that operations see, by where they are. Finding a path goes through its
names one after the other, and every name before the last has to be a directory.
-/

namespace SealedCall

/-- Where something is: below the working directory or a directory above that, or below the root. -/
inductive Anchor
  | working (levelsAbove : Nat)
  | root
deriving DecidableEq

/-- A place among the files: names below an anchor, with no steps up. -/
structure Location where
  anchor : Anchor
  names : List Text
deriving DecidableEq

/-- A file with its octets and permission bits, or a directory. -/
inductive Node
  | directory
  | file (octets : Octets) (mode : Nat)
deriving DecidableEq

/-- The nodes by where they are. An anchor is always a directory. -/
structure FileTree where
  nodes : List (Location × Node)

/-- The permission bits of a file that only its owner may read. -/
def ownerOnly : Nat := 0o600

/-- The permission bits of a file that everybody may read. -/
def readable : Nat := 0o644

namespace FileTree

def empty : FileTree := ⟨[]⟩

def node? (tree : FileTree) (location : Location) : Option Node :=
  if location.names.isEmpty then some .directory
  else (tree.nodes.find? fun entry => entry.1 == location).map (·.2)

/-- The location of the directory above a directory. -/
def aboveOf (location : Location) : Location :=
  match location.names, location.anchor with
  | [], .working levels => ⟨.working (levels + 1), []⟩
  | [], .root => ⟨.root, []⟩
  | names, anchor => ⟨anchor, names.dropLast⟩

/-- The location that names lead to from a location. -/
def walk (tree : FileTree) (location : Location) : List Text → Except FileFault Location
  | [] => .ok location
  | name :: rest =>
    match tree.node? location with
    | none => .error .missing
    | some (.file _ _) => .error .notDirectory
    | some .directory =>
      if FilePath.isLongName name then .error .nameTooLong
      else if name = FilePath.above then walk tree (aboveOf location) rest
      else walk tree ⟨location.anchor, location.names ++ [name]⟩ rest

def locate (tree : FileTree) (path : FilePath) : Except FileFault Location :=
  match path.toText.systemFault? with
  | some fault => .error (.unusable fault)
  | none =>
    if path.isTooLong then .error .nameTooLong
    else tree.walk ⟨if path.root.isEmpty then .working 0 else .root, []⟩ path.names

def look (tree : FileTree) (path : FilePath) : Except FileFault Node :=
  match tree.locate path with
  | .error fault => .error fault
  | .ok location =>
    match tree.node? location with
    | some node => .ok node
    | none => .error .missing

/-- Whether a path leads to something. Only a name that is too long is a fault. -/
def holds (tree : FileTree) (path : FilePath) : Except FileFault Bool :=
  match tree.look path with
  | .ok _ => .ok true
  | .error .nameTooLong => .error .nameTooLong
  | .error _ => .ok false

def read (tree : FileTree) (path : FilePath) : Except FileFault Octets :=
  match tree.look path with
  | .ok (.file octets _) => .ok octets
  | .ok .directory => .error .isDirectory
  | .error fault => .error fault

def put (location : Location) (node : Node) : List (Location × Node) → List (Location × Node)
  | [] => [(location, node)]
  | (present, old) :: rest =>
    if present = location then (location, node) :: rest
    else (present, old) :: put location node rest

/-- The tree with a file written at a path. -/
def write (tree : FileTree) (path : FilePath) (octets : Octets) (mode : Nat) :
    Except FileFault FileTree :=
  match tree.locate path with
  | .error fault => .error fault
  | .ok location =>
    match tree.node? location with
    | some .directory => .error .isDirectory
    | _ => .ok ⟨put location (.file octets mode) tree.nodes⟩

def remove (tree : FileTree) (path : FilePath) : Except FileFault FileTree :=
  match tree.locate path with
  | .error fault => .error fault
  | .ok location =>
    match tree.node? location with
    | some (.file _ _) => .ok ⟨tree.nodes.filter fun entry => entry.1 != location⟩
    | some .directory => .error .isDirectory
    | none => .error .missing

def makeOne (tree : FileTree) (path : FilePath) : Except FileFault FileTree :=
  match tree.locate path with
  | .error fault => .error fault
  | .ok location =>
    match tree.node? location with
    | some _ => .error .exists
    | none =>
      if (tree.node? (aboveOf location)).isNone then .error .missing
      else .ok ⟨put location .directory tree.nodes⟩

/-- Makes a directory and whatever is missing above it, where the names left to try count down. A
directory that is there already is left alone. What was made before a fault stays, and the fault
names the path at which it arose. -/
def makeFrom (tree : FileTree) (path : FilePath) : Nat → FileTree × Option (FileFault × FilePath)
  | 0 => (tree, some (.missing, path))
  | tries + 1 =>
    match tree.makeOne path with
    | .ok made => (made, none)
    | .error .missing =>
      if path.names.isEmpty then (tree, some (.missing, path))
      else match makeFrom tree path.parent tries with
        | (tree, some fault) => (tree, some fault)
        | (tree, none) =>
          match tree.makeOne path with
          | .ok made => (made, none)
          | .error fault => (tree, unlessDirectory tree fault)
    | .error fault => (tree, unlessDirectory tree fault)
where
  unlessDirectory (tree : FileTree) (fault : FileFault) : Option (FileFault × FilePath) :=
    match tree.look path with
    | .ok .directory => none
    | _ => some (fault, path)

/-- The tree with a directory at a path and directories at everything above it, as far as they can
be made, and the fault that stood in the way. -/
def withDirectory (tree : FileTree) (path : FilePath) :
    FileTree × Option (FileFault × FilePath) :=
  tree.makeFrom path (path.names.length + 1)

/-- The tree with a directory at a path and directories at everything above it. -/
def makeDirectory (tree : FileTree) (path : FilePath) :
    Except (FileFault × FilePath) FileTree :=
  match tree.withDirectory path with
  | (made, none) => .ok made
  | (_, some fault) => .error fault

/-- The tree with a new directory at a path, where nothing may be yet, and with directories at
everything above it. -/
def makeNewDirectory (tree : FileTree) (path : FilePath) :
    Except (FileFault × FilePath) FileTree :=
  match tree.makeOne path with
  | .ok made => .ok made
  | .error .missing =>
    if path.names.isEmpty then .error (.missing, path)
    else match tree.makeDirectory path.parent with
      | .ok tree => (tree.makeOne path).mapError (·, path)
      | .error fault => .error fault
  | .error fault => .error (fault, path)

end FileTree

end SealedCall
