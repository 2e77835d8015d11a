import Mathlib.Data.List.Induction
import SealedCall.Files.Tree
import SealedCall.Proofs.Process

/-! # Files that stay and files that are added

A tree is grounded when a directory is above every node, as in every tree that starts from nothing.
Making directories only adds to a tree. Writing a file changes no other node, and afterwards the
path leads to that file, since the way there goes through directories and a file is none.

A path is steady when making directories does not change where it leads. A step up can be taken only
from a directory that is there, so a path with a step up after a missing directory leads nowhere at
first, and once the directory is made it may lead to a file that was there all along.
-/

namespace SealedCall.FileTree

variable {tree between later : FileTree} {path : FilePath} {location place : Location} {node : Node}

/-! ## Nodes -/

theorem node?_of_names_eq_nil (hnames : location.names = []) :
    tree.node? location = some .directory := by
  rw [node?, hnames]
  rfl

theorem names_ne_nil_of_node? (hnode : tree.node? location ≠ some .directory) :
    location.names ≠ [] :=
  fun hnames => hnode (node?_of_names_eq_nil hnames)

theorem find?_put (location place : Location) (node : Node) (nodes : List (Location × Node)) :
    (put location node nodes).find? (fun entry => entry.1 == place) =
      if location = place then some (location, node)
      else nodes.find? fun entry => entry.1 == place := by
  induction nodes with
  | nil =>
      by_cases hplace : location = place
      · simp [put, hplace]
      · simp [put, hplace]
  | cons entry rest ih =>
      obtain ⟨present, old⟩ := entry
      rw [put]
      by_cases hpresent : present = location
      · subst hpresent
        by_cases hplace : present = place
        · simp [hplace]
        · simp [hplace]
      · by_cases hplace : present = place
        · subst hplace
          rw [if_neg hpresent, if_neg (Ne.symm hpresent)]
          simp
        · rw [if_neg hpresent, List.find?_cons_of_neg (by simpa using hplace), ih,
            List.find?_cons_of_neg (by simpa using hplace)]

/-- What is put at a location is what is there, and all else stays as it was. -/
theorem node?_put (hnames : location.names ≠ []) (place : Location) :
    node? ⟨put location node tree.nodes⟩ place =
      if location = place then some node else tree.node? place := by
  by_cases hplace : location = place
  · subst hplace
    simp [node?, hnames, find?_put]
  · simp [node?, hplace, find?_put]

/-- Directories stay where something is put that replaces none. -/
theorem node?_put_directory (hnode : tree.node? location ≠ some .directory)
    (hplace : tree.node? place = some .directory) :
    node? ⟨put location node tree.nodes⟩ place = some .directory := by
  have hne : location ≠ place := fun hsame => hnode (hsame ▸ hplace)
  rw [node?_put (names_ne_nil_of_node? hnode), if_neg hne, hplace]

/-! ## Grounded trees -/

/-- Whether a directory is above every node. -/
def Grounded (tree : FileTree) : Prop :=
  ∀ place node, tree.node? place = some node → tree.node? (aboveOf place) = some .directory

theorem aboveOf_of_names_eq_nil (hnames : location.names = []) : (aboveOf location).names = [] := by
  obtain ⟨anchor, names⟩ := location
  subst hnames
  cases anchor <;> rfl

theorem aboveOf_of_names_ne_nil (hnames : location.names ≠ []) :
    aboveOf location = ⟨location.anchor, location.names.dropLast⟩ := by
  obtain ⟨anchor, names⟩ := location
  cases names with
  | nil => exact absurd rfl hnames
  | cons name rest => rfl

theorem aboveOf_append (anchor : Anchor) (names : List Text) (name : Text) :
    aboveOf ⟨anchor, names ++ [name]⟩ = ⟨anchor, names⟩ := by
  rw [aboveOf_of_names_ne_nil (by simp), List.dropLast_concat]

theorem grounded_empty : empty.Grounded := by
  intro place node hnode
  have hnames : place.names = [] := by
    by_contra hnames
    simp [node?, empty, hnames] at hnode
  exact node?_of_names_eq_nil (aboveOf_of_names_eq_nil hnames)

/-- The tree stays grounded when a node is put below a directory, unless it replaces one. -/
theorem Grounded.put (hgrounded : tree.Grounded)
    (habove : tree.node? (aboveOf location) = some .directory)
    (hnode : tree.node? location ≠ some .directory) :
    Grounded ⟨put location node tree.nodes⟩ := by
  intro place other hother
  refine node?_put_directory hnode ?_
  rw [node?_put (names_ne_nil_of_node? hnode)] at hother
  by_cases hplace : location = place
  · exact hplace ▸ habove
  · rw [if_neg hplace] at hother
    exact hgrounded place other hother

/-- Every directory on the way to a node is there. -/
theorem Grounded.directory_above (hgrounded : tree.Grounded) {anchor : Anchor}
    {names more : List Text} (hmore : more ≠ [])
    (hnode : tree.node? ⟨anchor, names ++ more⟩ = some node) :
    tree.node? ⟨anchor, names⟩ = some .directory := by
  -- one name after the other is taken off at the end
  induction more using List.reverseRecOn generalizing node with
  | nil => exact absurd rfl hmore
  | append_singleton more last ih =>
      have habove := hgrounded _ _ hnode
      rw [← List.append_assoc, aboveOf_append] at habove
      cases more with
      | nil => rwa [List.append_nil] at habove
      | cons name rest => exact ih (List.cons_ne_nil name rest) habove

/-! ## Where paths lead -/

/-- Where a name leads from a directory. -/
def onward (start : Location) (name : Text) : Location :=
  if name = FilePath.above then aboveOf start else ⟨start.anchor, start.names ++ [name]⟩

theorem walk_cons_eq_ok {start : Location} {name : Text} {rest : List Text}
    (hwalk : tree.walk start (name :: rest) = .ok location) :
    tree.node? start = some .directory ∧ FilePath.isLongName name = false ∧
      tree.walk (onward start name) rest = .ok location := by
  rw [walk] at hwalk
  split at hwalk
  · cases hwalk
  · cases hwalk
  · next hnode =>
      split at hwalk
      · cases hwalk
      · next hlong =>
          refine ⟨hnode, Bool.not_eq_true _ ▸ hlong, ?_⟩
          rw [onward]
          split at hwalk
          · next habove => rwa [if_pos habove]
          · next habove => rwa [if_neg habove]

theorem walk_cons {start : Location} {name : Text} {rest : List Text}
    (hnode : tree.node? start = some .directory) (hlong : FilePath.isLongName name = false) :
    tree.walk start (name :: rest) = tree.walk (onward start name) rest := by
  rw [walk, onward]
  simp only [hnode, hlong, Bool.false_eq_true, if_false]
  split
  · rfl
  · rfl

/-- A way that can be gone can still be gone where all directories have stayed. -/
theorem walk_of_directories
    (hdirectories : ∀ place, tree.node? place = some .directory →
      later.node? place = some .directory) {names : List Text} {start : Location}
    (hwalk : tree.walk start names = .ok location) : later.walk start names = .ok location := by
  induction names generalizing start with
  | nil => exact hwalk
  | cons name rest ih =>
      obtain ⟨hnode, hlong, hrest⟩ := walk_cons_eq_ok hwalk
      rw [walk_cons (hdirectories start hnode) hlong]
      exact ih hrest

/-- In a grounded tree every way ends below a directory. -/
theorem Grounded.directory_above_walk (hgrounded : tree.Grounded) {names : List Text}
    {start : Location} (habove : tree.node? (aboveOf start) = some .directory)
    (hwalk : tree.walk start names = .ok location) :
    tree.node? (aboveOf location) = some .directory := by
  induction names generalizing start with
  | nil =>
      cases hwalk
      exact habove
  | cons name rest ih =>
      obtain ⟨hnode, -, hrest⟩ := walk_cons_eq_ok hwalk
      refine ih ?_ hrest
      rw [onward]
      split
      · exact hgrounded _ _ habove
      · rwa [aboveOf_append]

/-- Without a step up, a way adds its names to where it starts. -/
theorem location_of_walk {names : List Text} {start : Location}
    (hplain : FilePath.above ∉ names) (hwalk : tree.walk start names = .ok location) :
    location = ⟨start.anchor, start.names ++ names⟩ := by
  induction names generalizing start with
  | nil =>
      cases hwalk
      rw [List.append_nil]
  | cons name rest ih =>
      obtain ⟨-, -, hwalk⟩ := walk_cons_eq_ok hwalk
      rw [onward, if_neg (Ne.symm (List.ne_of_not_mem_cons hplain))] at hwalk
      rw [ih (List.not_mem_of_not_mem_cons hplain) hwalk, List.append_assoc]
      rfl

/-- Whether names lead to the same location whatever directories are made: where the way goes on
from a directory that is missing, it has no step up any more. -/
def IsSteady (tree : FileTree) (start : Location) : List Text → Prop
  | [] => True
  | name :: rest =>
    if tree.node? start = some .directory then IsSteady tree (onward start name) rest
    else FilePath.above ∉ name :: rest

theorem isSteady_of_plain {names : List Text} {start : Location}
    (hplain : FilePath.above ∉ names) : tree.IsSteady start names := by
  induction names generalizing start with
  | nil => trivial
  | cons name rest ih =>
      rw [IsSteady]
      split
      · exact ih (List.not_mem_of_not_mem_cons hplain)
      · exact hplain

/-- On a steady way, what can be reached later and is there already can be reached already. -/
theorem Grounded.walk_of_later (hgrounded : tree.Grounded) {names : List Text} {start : Location}
    (hsteady : tree.IsSteady start names) (hwalk : later.walk start names = .ok location)
    (hnode : tree.node? location = some node) : tree.walk start names = .ok location := by
  induction names generalizing start with
  | nil => exact hwalk
  | cons name rest ih =>
      have hstart : tree.node? start = some .directory := by
        by_contra hmissing
        rw [IsSteady, if_neg hmissing] at hsteady
        rw [location_of_walk hsteady hwalk] at hnode
        exact hmissing (hgrounded.directory_above (List.cons_ne_nil name rest) hnode)
      obtain ⟨-, hlong, hwalk⟩ := walk_cons_eq_ok hwalk
      rw [IsSteady, if_pos hstart] at hsteady
      rw [walk_cons hstart hlong]
      exact ih hsteady hwalk

/-- Where the way of a path starts. -/
def startOf (path : FilePath) : Location :=
  ⟨if path.root.isEmpty then .working 0 else .root, []⟩

/-- Where a path leads in some tree, it leads in every tree as far as its names can be followed. -/
theorem locate_eq_walk (hlocate : tree.locate path = .ok location) (other : FileTree) :
    other.locate path = other.walk (startOf path) path.names := by
  rw [locate] at hlocate
  split at hlocate
  · cases hlocate
  · next husable =>
      split at hlocate
      · cases hlocate
      · next hshort =>
          rw [locate, husable]
          exact if_neg hshort

theorem locate_of_directories
    (hdirectories : ∀ place, tree.node? place = some .directory →
      later.node? place = some .directory)
    (hlocate : tree.locate path = .ok location) : later.locate path = .ok location := by
  have hwalks := locate_eq_walk hlocate
  rw [hwalks] at hlocate ⊢
  exact walk_of_directories hdirectories hlocate

/-- In a grounded tree every path ends below a directory. -/
theorem Grounded.directory_above_locate (hgrounded : tree.Grounded)
    (hlocate : tree.locate path = .ok location) :
    tree.node? (aboveOf location) = some .directory := by
  rw [locate_eq_walk hlocate] at hlocate
  refine hgrounded.directory_above_walk ?_ hlocate
  exact node?_of_names_eq_nil (aboveOf_of_names_eq_nil rfl)

theorem look_eq_ok_iff : tree.look path = .ok node ↔
    ∃ location, tree.locate path = .ok location ∧ tree.node? location = some node := by
  rw [look]
  cases hlocate : tree.locate path with
  | error fault => simp
  | ok location =>
      cases hnode : tree.node? location with
      | none => simp [hnode]
      | some present => simp [hnode]

/-- Whether a path leads to the same location whatever directories are made. -/
def Steady (tree : FileTree) (path : FilePath) : Prop := tree.IsSteady (startOf path) path.names

/-- A steady path that led to nothing leads to a location where nothing was. -/
theorem Grounded.node?_eq_none (hgrounded : tree.Grounded) (hsteady : tree.Steady path)
    (hlocate : later.locate path = .ok location) (hmissing : ∀ node, tree.look path ≠ .ok node) :
    tree.node? location = none := by
  cases hnode : tree.node? location with
  | none => rfl
  | some node =>
      have hwalks := locate_eq_walk hlocate
      rw [hwalks] at hlocate
      have hreached := hgrounded.walk_of_later hsteady hlocate hnode
      rw [← hwalks] at hreached
      exact absurd (look_eq_ok_iff.mpr ⟨location, hreached, hnode⟩) (hmissing node)

/-! ## Growing trees -/

/-- Whether all of a tree has stayed in a later one, which is grounded if the tree was. -/
structure Grows (tree later : FileTree) : Prop where
  kept : ∀ place node, tree.node? place = some node → later.node? place = some node
  grounded : tree.Grounded → later.Grounded

theorem grows_accumulates : Accumulates Grows where
  refl _ := ⟨fun _ _ hnode => hnode, id⟩
  trans hfirst hsecond :=
    ⟨fun place node hnode => hsecond.kept place node (hfirst.kept place node hnode),
      fun hgrounded => hsecond.grounded (hfirst.grounded hgrounded)⟩

/-- A tree grows when a node is put where a path leads and nothing was. -/
theorem grows_put (hlocate : tree.locate path = .ok location) (hnode : tree.node? location = none) :
    tree.Grows ⟨put location node tree.nodes⟩ := by
  have hdirectory : tree.node? location ≠ some .directory := by
    rw [hnode]
    exact nofun
  refine ⟨fun place other hother => ?_, fun hgrounded =>
    hgrounded.put (hgrounded.directory_above_locate hlocate) hdirectory⟩
  have hplace : location ≠ place := by
    rintro rfl
    rw [hnode] at hother
    cases hother
  rw [node?_put (names_ne_nil_of_node? hdirectory), if_neg hplace, hother]

theorem grows_makeOne (hmade : tree.makeOne path = .ok later) : tree.Grows later := by
  rw [makeOne] at hmade
  split at hmade
  · cases hmade
  · next location hlocate =>
      split at hmade
      · cases hmade
      · next hnode =>
          split at hmade
          · cases hmade
          · cases hmade
            exact grows_put hlocate hnode

/-- Making directories only adds to a tree, also where it ends with a fault. -/
theorem grows_makeFrom (tree : FileTree) (path : FilePath) (tries : Nat) :
    tree.Grows (tree.makeFrom path tries).1 := by
  induction tries generalizing path with
  | zero => exact grows_accumulates.refl tree
  | succ tries ih =>
      rw [makeFrom]
      split
      · next made hmade => exact grows_makeOne hmade
      · split
        · exact grows_accumulates.refl tree
        · have habove := ih path.parent
          generalize tree.makeFrom path.parent tries = result at habove ⊢
          obtain ⟨between, fault⟩ := result
          cases fault with
          | some fault => exact habove
          | none =>
              simp only
              split
              · next made hmade => exact grows_accumulates.trans habove (grows_makeOne hmade)
              · exact habove
      · exact grows_accumulates.refl tree

theorem grows_withDirectory (tree : FileTree) (path : FilePath) :
    tree.Grows (tree.withDirectory path).1 :=
  grows_makeFrom tree path _

/-! ## Writing -/

/-- A file is written where the path leads, unless a directory is there. -/
theorem write_eq_ok_iff {octets : Octets} {mode : Nat} :
    tree.write path octets mode = .ok later ↔
      ∃ location, tree.locate path = .ok location ∧ tree.node? location ≠ some .directory ∧
        later = ⟨put location (.file octets mode) tree.nodes⟩ := by
  rw [write]
  cases hlocate : tree.locate path with
  | error fault => simp
  | ok location =>
      cases hnode : tree.node? location with
      | none => simp [hnode, eq_comm]
      | some present =>
          cases present with
          | directory => simp [hnode]
          | file octets mode => simp [hnode, eq_comm]

/-- A path leads to what was written at it. -/
theorem look_of_write {octets : Octets} {mode : Nat}
    (hwritten : tree.write path octets mode = .ok later) :
    later.look path = .ok (.file octets mode) := by
  obtain ⟨location, hlocate, hnode, rfl⟩ := write_eq_ok_iff.mp hwritten
  refine look_eq_ok_iff.mpr ⟨location, locate_of_directories (fun _ hplace => ?_) hlocate, ?_⟩
  · exact node?_put_directory hnode hplace
  · rw [node?_put (names_ne_nil_of_node? hnode), if_pos rfl]

/-- The tree stays grounded when a file is written. -/
theorem Grounded.write {octets : Octets} {mode : Nat} (hgrounded : tree.Grounded)
    (hwritten : tree.write path octets mode = .ok later) : later.Grounded := by
  obtain ⟨location, hlocate, hnode, rfl⟩ := write_eq_ok_iff.mp hwritten
  exact hgrounded.put (hgrounded.directory_above_locate hlocate) hnode

/-- A tree grows when directories are made and then a file where a steady path led to nothing. -/
theorem Grows.write {octets : Octets} {mode : Nat} (hgrows : tree.Grows between)
    (hgrounded : tree.Grounded) (hsteady : tree.Steady path)
    (hmissing : ∀ node, tree.look path ≠ .ok node)
    (hwritten : between.write path octets mode = .ok later) : tree.Grows later := by
  refine ⟨fun place other hother => ?_, fun _ => (hgrows.grounded hgrounded).write hwritten⟩
  obtain ⟨location, hlocate, hnode, rfl⟩ := write_eq_ok_iff.mp hwritten
  have hplace : location ≠ place := by
    rintro rfl
    rw [hgrounded.node?_eq_none hsteady hlocate hmissing] at hother
    cases hother
  rw [node?_put (names_ne_nil_of_node? hnode), if_neg hplace, hgrows.kept place other hother]

end SealedCall.FileTree
