import Bulletin.Artifact.Directory
import Bulletin.CommandLine.Path
import Bulletin.Repository.Keyed

/-!
# Trees of files

The files and directories that a command finds and leaves. An entry stands at a *place*, the list
of names that leads to it from the root; the root is always a directory. Commands run in the
directory `workPlace`.

`FileTree.resolve` follows a path name by name. Each name but the last must lead to an entry, and
only a directory can be followed further, also by a dot or two. The operations are made of it:
reading and writing a file, moving one, and making directories.

A database is a file of its own kind. Its bytes are no text.
-/

namespace Bulletin

/-- What stands at a place. -/
inductive Entry where
  | directory
  | file (bytes : ByteArray)
  | database (tables : KeyedRepository)
  /-- the device that is always empty -/
  | nothing

/-- The word at the start of every database. -/
def databaseMark : String := "redb"

/-- Whether an entry is a directory. -/
def Entry.isDirectory : Entry → Bool
  | .directory => true
  | _ => false

/-- The text at the start of an entry, up to the first byte that belongs to no text. -/
def Entry.leadingText : Entry → String
  | .directory => ""
  | .file bytes => (String.fromUTF8? bytes).getD ""
  | .database _ => databaseMark
  | .nothing => ""

/-- Entries by their places, the names with slashes between them. -/
structure FileTree where
  entries : Fields Entry

namespace FileTree

/-! ## Places -/

/-- The key of a place. -/
def placeKey (place : List String) : String := "/".intercalate place

def entry? (tree : FileTree) (place : List String) : Option Entry :=
  if place = [] then some .directory else tree.entries.get? (placeKey place)

def set (tree : FileTree) (place : List String) (entry : Entry) : FileTree :=
  ⟨tree.entries.insert (placeKey place) entry⟩

/-- The place where commands run. -/
def workPlace : List String := ["tmp", "work"]

/-- The names in the root of a machine. -/
def rootNames : List String :=
  ["bin", "boot", "dev", "etc", "home", "lib", "media", "mnt", "opt", "proc", "root", "run", "sbin",
    "srv", "sys", "tmp", "usr", "var"]

/-- A tree with the directories of a machine, the empty device, and the working directory. -/
def bare : FileTree :=
  let root := rootNames.foldl (fun (tree : FileTree) name => tree.set [name] .directory) ⟨∅⟩
  (root.set ["dev", "null"] .nothing).set workPlace .directory

/-! ## Following a path -/

/-- Where a path leads. -/
inductive Target where
  | found (place : List String) (entry : Entry)
  /-- a name in a directory that is not in use, followed by a slash or not -/
  | free (place : List String) (slash : Bool)

/-- Follows names from a place with a directory. -/
def follow (tree : FileTree) (slash : Bool) :
    List String → (place : List String) → Entry → Except FileError Target
  | [], place, entry =>
    if slash && !entry.isDirectory then .error .notDirectory else .ok (.found place entry)
  | name :: rest, place, entry =>
    if !entry.isDirectory then .error .notDirectory
    else if name = "." then follow tree slash rest place entry
    else if name = ".." then follow tree slash rest place.dropLast .directory
    else if Path.nameLimit < name.utf8ByteSize then .error .nameTooLong
    else
      match tree.entry? (place ++ [name]) with
      | some entry => follow tree slash rest (place ++ [name]) entry
      | none => if rest = [] then .ok (.free (place ++ [name]) slash) else .error .notFound

/-- Follows a path. -/
def resolve (tree : FileTree) (path : Path) : Except FileError Target :=
  if path.isEmpty then .error .notFound
  else tree.follow path.slash path.names (if path.absolute then [] else workPlace) .directory

/-! ## Files -/

/-- The entry at a path that can be read as a file. -/
def read (tree : FileTree) (text : String) : Except FileError Entry := do
  match ← tree.resolve (← Path.ofString? text) with
  | .free _ _ => .error .notFound
  | .found _ entry => if entry.isDirectory then .error .isDirectory else .ok entry

/-- The text of a file. -/
def text? (tree : FileTree) (path : String) : Option String :=
  match tree.read path with
  | .ok (.file bytes) => String.fromUTF8? bytes
  | .ok .nothing => some ""
  | _ => none

/-- The place of a file that is there or can be made. -/
def filePlace (tree : FileTree) (text : String) : Except FileError (List String) := do
  match ← tree.resolve (← Path.ofString? text) with
  | .free place slash => if slash then .error .isDirectory else .ok place
  | .found place entry => if entry.isDirectory then .error .isDirectory else .ok place

/-- Writes a file. -/
def write (tree : FileTree) (path : String) (bytes : ByteArray) : Except FileError FileTree := do
  let place ← tree.filePlace path
  match tree.entry? place with
  | some .nothing => return tree
  | _ => return tree.set place (.file bytes)

/-- Moves a file over a name. -/
def rename (tree : FileTree) (old new : String) : Except FileError FileTree := do
  let source ← tree.filePlace old
  let target ← tree.filePlace new
  match tree.entry? source with
  | none => .error .notFound
  | some entry => return FileTree.set ⟨tree.entries.erase (placeKey source)⟩ target entry

/-- Writes an artifact into a directory, first beside its name, and gives its location. -/
def putArtifact (tree : FileTree) (directory name : String) (bytes : ByteArray) :
    Except ArtifactError String × FileTree :=
  match Artifact.checkName name with
  | .error e => (.error e, tree)
  | .ok () =>
    let path := DirectoryStore.joinPath directory name
    let temporary := DirectoryStore.joinPath directory (DirectoryStore.temporaryName name)
    match tree.write temporary bytes with
    | .error e => (.error (.io e.message), tree)
    | .ok tree =>
      match tree.rename temporary path with
      | .error e => (.error (.io e.message), tree)
      | .ok tree => (.ok path, tree)

/-! ## Directories -/

/-- Makes one directory. -/
def makeDirectory (tree : FileTree) (path : Path) : Except FileError FileTree := do
  match ← tree.resolve path with
  | .found _ _ => .error .exists
  | .free place _ => return tree.set place .directory

/-- Whether a path leads to a directory. -/
def isDirectory (tree : FileTree) (path : Path) : Bool :=
  match tree.resolve path with
  | .ok (.found _ entry) => entry.isDirectory
  | _ => false

/-- Makes a directory, unless it is there, and says whether it is there afterwards. -/
def ensureDirectory (tree : FileTree) (path : Path) : Bool × FileTree :=
  match tree.makeDirectory path with
  | .ok tree => (true, tree)
  | .error _ => (tree.isDirectory path, tree)

/-- Makes a directory and, where they are missing, those above it. It says whether the directory is
there afterwards; what was made on the way to a failure stays. -/
def makeDirectories (tree : FileTree) (path : Path) : Bool × FileTree :=
  if path.names = [] then (!path.absolute || tree.isDirectory path, tree)
  else
    match tree.makeDirectory path with
    | .ok tree => (true, tree)
    | .error .notFound =>
      match makeDirectories tree path.parent with
      | (true, tree) => tree.ensureDirectory path
      | (false, tree) => (false, tree)
    | .error _ => (tree.isDirectory path, tree)
termination_by path.names.length
decreasing_by
  have h1 := path.length_plainNames_le
  have h2 : 0 < path.names.length := List.length_pos_iff.2 (by assumption)
  simp only [Path.parent, List.length_dropLast]
  omega

/-- Makes the directory of a text. -/
def makeDirectoriesAt (tree : FileTree) (text : String) : Bool × FileTree :=
  match Path.ofString? text with
  | .ok path => tree.makeDirectories path
  | .error _ => (false, tree)

/-! ## Trees -/

/-- Adds a file with the directories above it, if that is possible. -/
def addText (tree : FileTree) (file : String × String) : FileTree :=
  match Path.ofString? file.1 with
  | .error _ => tree
  | .ok path =>
    match (tree.makeDirectories path.parent).2.write file.1 file.2.toUTF8 with
    | .ok tree => tree
    | .error _ => tree

/-- The tree of some files in the working directory. -/
def ofTexts (texts : Fields String) : FileTree := texts.entries.foldl addText bare

/-! ## Databases -/

/-- Opens the database at a path, or makes one where there is nothing or an empty file. It gives
the place of the database and its tables. -/
def openDatabase? (tree : FileTree) (path : String) :
    Option (List String × KeyedRepository × FileTree) :=
  match tree.filePlace path with
  | .error _ => none
  | .ok place =>
    let fresh := some (place, .empty, tree.set place (.database .empty))
    match tree.entry? place with
    | none => fresh
    | some .directory | some .nothing => none
    | some (.file bytes) => if bytes.isEmpty then fresh else none
    | some (.database tables) => some (place, tables, tree)

/-- Puts the tables of a database back, unless something else has taken its place. -/
def keepDatabase (tree : FileTree) (place : List String) (tables : KeyedRepository) : FileTree :=
  match tree.entry? place with
  | some (.database _) => tree.set place (.database tables)
  | _ => tree

end FileTree

end Bulletin
