import Bulletin.Artifact.Basic

/-!
# Artifacts in memory

A store that keeps the contents by name and counts as it goes: how many artifacts there are, how
many bytes they hold, and how often one was written. A name that may not be used is refused when
writing; reading under it finds nothing.
-/

namespace Bulletin

/-- The counters of a store. They are words. -/
structure StoreStats where
  artifacts : UInt64
  bytes : UInt64
  writes : UInt64
deriving DecidableEq

def StoreStats.toJson (stats : StoreStats) : Json :=
  .object [("artifact_count", .nat stats.artifacts.toNat), ("total_bytes", .nat stats.bytes.toNat),
    ("write_count", .nat stats.writes.toNat)]

/-- Contents by name, and the counters. -/
structure MemoryStore where
  contents : Fields ByteArray
  stats : StoreStats

namespace MemoryStore

def empty : MemoryStore := ⟨∅, ⟨0, 0, 0⟩⟩

/-- Writes an artifact and gives its location. -/
def put (store : MemoryStore) (name : String) (bytes : ByteArray) :
    Except ArtifactError String × MemoryStore :=
  match Artifact.checkName name with
  | .error e => (.error e, store)
  | .ok () =>
    let stats := match store.contents.get? name with
      | some previous =>
        { store.stats with bytes := store.stats.bytes - UInt64.ofNat previous.size }
      | none => { store.stats with artifacts := store.stats.artifacts + 1 }
    let stats := { stats with
      bytes := stats.bytes + UInt64.ofNat bytes.size
      writes := stats.writes + 1 }
    (.ok ("memory://" ++ name), ⟨store.contents.insert name bytes, stats⟩)

def get (store : MemoryStore) (name : String) : Except ArtifactError ByteArray :=
  match store.contents.get? name with
  | some bytes => .ok bytes
  | none => .error (.notFound name)

def contains (store : MemoryStore) (name : String) : Bool := store.contents.contains name

/-- Takes an artifact out, and tells whether it was there. -/
def delete (store : MemoryStore) (name : String) : Bool × MemoryStore :=
  match store.contents.get? name with
  | none => (false, store)
  | some bytes =>
    let stats := { store.stats with
      artifacts := store.stats.artifacts - 1
      bytes := store.stats.bytes - UInt64.ofNat bytes.size }
    (true, ⟨store.contents.erase name, stats⟩)

/-- The names of all artifacts, sorted. -/
def list (store : MemoryStore) : List String :=
  store.contents.keys.mergeSort fun a b => compare a b != .gt

end MemoryStore

end Bulletin
