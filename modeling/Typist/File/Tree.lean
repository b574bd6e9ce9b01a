import Typist.Text.Basic

/-!
# Paths, files and directories

A path is a root and the names between slashes. Empty names and single dots mean nothing and are
dropped; two dots are kept, since what they mean depends on the directories there are. A path that
starts with a tilde is given from the home directory of a user.

A tree is made of directories and files, in which paths from its top are looked up. Going up with
two dots is possible from an existing directory only. Outside the tree there are directories of
which little is known: a path may go up through those above the top, and those at the root of all
files are known by name.

A path must not hold the null character, and there are limits to the size of a path and of each name
in it. A name counts against its limit only where it is looked up, in a directory that exists.
-/

namespace Typist

/-! ## Paths -/

/-- A path to a file or a directory. -/
structure Path where
  /-- The slashes that the path starts with; two of them are told from one. -/
  root : Text
  names : List Text
  deriving DecidableEq, Repr

namespace Path

/-- The slashes that make the root of a path. -/
def rootOf : Text → Text
  | '/' :: '/' :: '/' :: _ => ['/']
  | '/' :: '/' :: _ => ['/', '/']
  | '/' :: _ => ['/']
  | _ => []

/-- The path that a text denotes. -/
def ofText (t : Text) : Path :=
  ⟨rootOf t, (t.pieces '/').filter fun name => name ≠ [] && name ≠ ['.']⟩

/-- The path as text; the path without any name is a dot. -/
def text (p : Path) : Text :=
  if p.root = [] && p.names = [] then ['.'] else p.root ++ Text.joined ['/'] p.names

/-- The user whose home directory the path is given from, if it starts with a tilde; the empty name
is the current user. -/
def user? (p : Path) : Option Text :=
  match p.root, p.names with
  | [], ('~' :: user) :: _ => some user
  | _, _ => none

/-- The path with a tilde at its start replaced by a home directory; nothing if the user has none.
`home` gives the home directory of a user, and that of the current user for the empty name. -/
def expandHome (home : Text → Option Text) (p : Path) : Option Path :=
  match p.user? with
  | none => some p
  | some user =>
    (home user).map fun directory =>
      let start := ofText directory
      ⟨start.root, start.names ++ p.names.drop 1⟩

end Path

/-! ## What a path leads to -/

/-- What a path leads to. -/
inductive Node
  | absent
  | directory
  | file (content : List UInt8)
  /-- The path goes on after a file. -/
  | beyondFile
  /-- The path, or a name in it, is too long. -/
  | nameTooLong
  /-- The path holds the null character. -/
  | nullCharacter
  deriving DecidableEq, Repr

/-- How many bytes a name may have. -/
def nameLimit : Nat := 255

/-- How many bytes are too many for a path. -/
def pathLimit : Nat := 4096

/-- The directories and files below a top directory, by their names from there, and the names of the
directories at the root of all files. -/
structure FileTree where
  directories : List (List Text) := []
  files : List (List Text × List UInt8) := []
  rootDirectories : List Text := []

namespace FileTree

/-- Is there a directory of these names? Whatever lies in a directory shows that it exists. -/
def isDirectory (tree : FileTree) (names : List Text) : Bool :=
  names = [] || tree.directories.any (names.isPrefixOf ·) ||
    tree.files.any fun file => names.isPrefixOf file.1 && names ≠ file.1

/-- What is found under names from the top. -/
def entry (tree : FileTree) (names : List Text) : Node :=
  match tree.files.lookup names with
  | some content => .file content
  | none => if tree.isDirectory names then .directory else .absent

/-- The directory that two dots lead to; nothing stands for a directory outside the tree. -/
def parent : Option (List Text) → Option (List Text)
  | none => none
  | some [] => none
  | some names => some names.dropLast

/-- Follows names from a directory that exists; nothing stands for a directory outside the tree. -/
def follow (tree : FileTree) : (directory : Option (List Text)) → List Text → Node
  | _, [] => .directory
  | directory, name :: rest =>
    if name = ['.', '.'] then tree.follow (parent directory) rest
    else if nameLimit < name.utf8Size then .nameTooLong
    else
      match directory with
      | none => .absent
      | some names =>
        match tree.entry (names ++ [name]) with
        | .directory => tree.follow (some (names ++ [name])) rest
        | .file content => if rest = [] then .file content else .beyondFile
        | node => node

/-- Follows names from the root of all files. -/
def followRoot (tree : FileTree) : List Text → Node
  | [] => .directory
  | name :: rest =>
    if name = ['.', '.'] then tree.followRoot rest
    else if nameLimit < name.utf8Size then .nameTooLong
    else if name ∈ tree.rootDirectories then tree.follow none rest
    else .absent

/-- What a path leads to. -/
def node (tree : FileTree) (p : Path) : Node :=
  if p.text.contains '\x00' then .nullCharacter
  else if pathLimit ≤ p.text.utf8Size then .nameTooLong
  else if p.root = [] then tree.follow (some []) p.names
  else tree.followRoot p.names

end FileTree

end Typist
