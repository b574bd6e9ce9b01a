import Typist.File.Tree
import Typist.Settings
import Typist.Text.Character

/-!
# Where snippets and settings are read from

A snippet is read from a file, or from the standard input if its target is a dash. Blanks around a
target do not count. Settings are read from the file at a path that is taken as it is.
-/

namespace Typist

/-- What can be reached of the files: what a path leads to, and the home directories of the
users. -/
structure Files where
  node : Path → Node
  home : Text → Option Text

/-- Why a target cannot be read. -/
inductive TargetError
  /-- There is no file at the path. -/
  | notAFile (path : Path)
  /-- The path, or a name in it, is too long. -/
  | nameTooLong (path : Path)
  /-- The user has no home directory. -/
  | noHome
  /-- No user can have the name, since it holds the null character. -/
  | impossibleUser
  deriving DecidableEq, Repr

/-- The wording of an error. -/
def TargetError.message : TargetError → String
  | notAFile path => "Path does not exist or does not point to a file: " ++ path.text.str
  | nameTooLong path => FileError.nameTooLong.message path.text
  | noHome => "Could not determine home directory."
  | impossibleUser => FileError.nullCharacter.message []

/-- What a target stands for. -/
inductive Target
  | standardInput
  | file (path : Path) (content : List UInt8)
  deriving DecidableEq, Repr

namespace Target

/-- Finds what a target stands for. -/
def resolve (files : Files) (target : Text) : Except TargetError Target :=
  let target := target.trim
  if target = ['-'] then .ok .standardInput
  else
    let path := Path.ofText target
    if path.user?.any fun user => user.contains '\x00' then .error .impossibleUser
    else
      match path.expandHome files.home with
      | none => .error .noHome
      | some path =>
        match files.node path with
        | .file content => .ok (.file path content)
        | .nameTooLong => .error (.nameTooLong path)
        | _ => .error (.notAFile path)

end Target

/-- What opening the file at a path gives. -/
def Files.content (files : Files) (path : Path) : Except FileError (List UInt8) :=
  match files.node path with
  | .file content => .ok content
  | .directory => .error .isDirectory
  | .beyondFile => .error .notADirectory
  | .nameTooLong => .error .nameTooLong
  | .nullCharacter => .error .nullCharacter
  | .absent => .error .notFound

/-- The settings in the file that a path leads to. -/
def Settings.loadFrom (files : Files) (path : Path) (levels : Nat := Json.nestingLimit) :
    Except LoadError Settings :=
  Settings.load path.text (files.content path) levels

end Typist
