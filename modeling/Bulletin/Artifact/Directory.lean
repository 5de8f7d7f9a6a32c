import Bulletin.Artifact.Basic

/-!
# Artifacts in a directory

A store whose artifacts are the files of one directory. A directory is a map from names to
contents. An artifact is first written under a temporary name beside its own, made of a dot, the
name and `.tmp`, and then moved over the name, so that no reader finds half a file.

The file system refuses names of more than 255 bytes. The temporary name is five bytes longer
than the name, so writing is refused from 251 bytes on.
-/

namespace Bulletin

/-- The files of a directory and the path at which it lies. -/
structure DirectoryStore where
  path : String
  files : Fields ByteArray

namespace DirectoryStore

/-- The path of a file in a directory. -/
def joinPath (directory name : String) : String :=
  if directory = "" || directory.toList.getLast? = some '/' then directory ++ name
  else directory ++ "/" ++ name

/-- The longest name of a file, in bytes. -/
def longestName : Nat := 255

/-- The name under which an artifact is first written. -/
def temporaryName (name : String) : String := "." ++ name ++ ".tmp"

/-- Checks a name for the store and for the file system. -/
def checkFile (name file : String) : Except ArtifactError Unit :=
  match Artifact.checkName name with
  | .error e => .error e
  | .ok () =>
    if longestName < file.utf8ByteSize then .error (.io "File name too long (os error 36)")
    else .ok ()

/-- Moves a file over a name. -/
def rename (files : Fields ByteArray) (old new : String) : Fields ByteArray :=
  match files.get? old with
  | none => files
  | some bytes => (files.erase old).insert new bytes

/-- Writes an artifact and gives its location. -/
def put (store : DirectoryStore) (name : String) (bytes : ByteArray) :
    Except ArtifactError String × DirectoryStore :=
  let temporary := temporaryName name
  match checkFile name temporary with
  | .error e => (.error e, store)
  | .ok () =>
    let written := store.files.insert temporary bytes
    (.ok (joinPath store.path name), { store with files := rename written temporary name })

def get (store : DirectoryStore) (name : String) : Except ArtifactError ByteArray :=
  match checkFile name name with
  | .error e => .error e
  | .ok () =>
    match store.files.get? name with
    | some bytes => .ok bytes
    | none => .error (.notFound name)

def contains (store : DirectoryStore) (name : String) : Except ArtifactError Bool :=
  match checkFile name name with
  | .error e => .error e
  | .ok () => .ok (store.files.contains name)

/-- Takes an artifact out, and tells whether it was there. -/
def delete (store : DirectoryStore) (name : String) : Except ArtifactError Bool × DirectoryStore :=
  match checkFile name name with
  | .error e => (.error e, store)
  | .ok () =>
    if store.files.contains name then (.ok true, { store with files := store.files.erase name })
    else (.ok false, store)

end DirectoryStore

end Bulletin
