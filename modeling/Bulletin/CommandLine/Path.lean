import Bulletin.Text.Blank

/-!
# Paths

A path is a text of names with slashes between them. It starts at the root if its first character
is a slash, else in the directory in which the program runs. Empty names do not count. A dot is the
directory itself and two dots are the one above it; both stay in the path, since they can only be
followed through directories that are there.
-/

namespace Bulletin

/-! ## Refusals of the file system -/

/-- Why the file system refuses. -/
inductive FileError where
  | notFound
  | exists
  | notDirectory
  | isDirectory
  | nameTooLong
  /-- the path holds a character that no name can hold -/
  | nulCharacter
deriving DecidableEq

def FileError.message : FileError → String
  | .notFound => "No such file or directory (os error 2)"
  | .exists => "File exists (os error 17)"
  | .notDirectory => "Not a directory (os error 20)"
  | .isDirectory => "Is a directory (os error 21)"
  | .nameTooLong => "File name too long (os error 36)"
  | .nulCharacter => "file name contained an unexpected NUL byte"

/-! ## Paths -/

/-- A path: where it starts, its names, and whether a slash follows the last one. -/
structure Path where
  absolute : Bool
  names : List String
  slash : Bool
deriving DecidableEq

namespace Path

/-- From how many bytes on a path is too long. -/
def textLimit : Nat := 4096

/-- The longest name, in bytes. -/
def nameLimit : Nat := 255

/-- The path of a text. The empty text leads nowhere and has the empty path. -/
def ofString? (text : String) : Except FileError Path :=
  let chars := text.toList
  if '\x00' ∈ chars then .error .nulCharacter
  else if textLimit ≤ text.utf8ByteSize then .error .nameTooLong
  else
    .ok {
      absolute := chars.head? = some '/'
      names := ((Text.splitOn '/' chars).filter (· ≠ [])).map String.ofList
      slash := chars.getLast? = some '/' }

/-- Whether a path has nothing in it. -/
def isEmpty (path : Path) : Bool := !path.absolute && path.names.isEmpty

/-- The names without the dots that say nothing: all but one at the start of a relative path. -/
def plainNames (path : Path) : List String :=
  match path.names with
  | [] => []
  | name :: rest =>
    let rest := rest.filter (· ≠ ".")
    if path.absolute && name = "." then rest else name :: rest

/-- The path without its last name. -/
def parent (path : Path) : Path :=
  { absolute := path.absolute, names := path.plainNames.dropLast, slash := false }

theorem length_plainNames_le (path : Path) : path.plainNames.length ≤ path.names.length := by
  unfold plainNames
  split
  · exact Nat.zero_le _
  · next name rest h =>
    have hf := List.length_filter_le (fun x => decide (x ≠ ".")) rest
    rw [h]
    dsimp only
    split
    · exact Nat.le_succ_of_le hf
    · exact Nat.succ_le_succ hf

end Path

end Bulletin
