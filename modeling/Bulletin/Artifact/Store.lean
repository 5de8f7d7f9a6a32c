import Bulletin.Artifact.Directory
import Bulletin.Artifact.Memory

/-!
# Stores of artifacts

A store is in memory or in a directory.
-/

namespace Bulletin

inductive ArtifactStore where
  | memory (store : MemoryStore)
  | directory (store : DirectoryStore)

namespace ArtifactStore

/-- Writes an artifact and gives its location. -/
def put (store : ArtifactStore) (name : String) (bytes : ByteArray) :
    Except ArtifactError String × ArtifactStore :=
  match store with
  | .memory store =>
    let (result, store) := store.put name bytes
    (result, .memory store)
  | .directory store =>
    let (result, store) := store.put name bytes
    (result, .directory store)

def get (store : ArtifactStore) (name : String) : Except ArtifactError ByteArray :=
  match store with
  | .memory store => store.get name
  | .directory store => store.get name

def contains (store : ArtifactStore) (name : String) : Except ArtifactError Bool :=
  match store with
  | .memory store => .ok (store.contains name)
  | .directory store => store.contains name

/-- Takes an artifact out, and tells whether it was there. -/
def delete (store : ArtifactStore) (name : String) : Except ArtifactError Bool × ArtifactStore :=
  match store with
  | .memory store =>
    let (found, store) := store.delete name
    (.ok found, .memory store)
  | .directory store =>
    let (result, store) := store.delete name
    (result, .directory store)

/-- The names of all artifacts, sorted; a directory does not list them. -/
def list? : ArtifactStore → Option (List String)
  | .memory store => some store.list
  | .directory _ => none

/-- The counters; a directory does not count. -/
def stats? : ArtifactStore → Option StoreStats
  | .memory store => some store.stats
  | .directory _ => none

end ArtifactStore

end Bulletin
