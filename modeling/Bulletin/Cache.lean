import Bulletin.Instant
import Bulletin.Json.Decode

/-!
# Caches

A cache holds the payload of the last success and the instant at which it was written. The
payload is fresh strictly before that instant plus the time to live; nothing else makes a cache
stale.

The end of a cache may lie beyond the calendar. Asking for it then has no answer, which is the
outcome `none` of `expiry`, `valid` and `fresh`.
-/

namespace Bulletin

/-- A payload with the instant of its writing and its time to live in minutes. -/
structure Cache where
  payload : Option Json
  cachedAt : Option Instant
  ttlMinutes : UInt32
deriving DecidableEq

namespace Cache

def ofTtl (minutes : UInt32) : Cache := ⟨none, none, minutes⟩

/-- An empty cache with a time to live of an hour. -/
def new : Cache := ofTtl 60

instance : Inhabited Cache := ⟨new⟩

def toJson (cache : Cache) : Json :=
  .object [("payload", Json.ofOption id cache.payload),
    ("cached_at", Json.ofOption Instant.toJson cache.cachedAt),
    ("ttl_minutes", .nat cache.ttlMinutes.toNat)]

def ofDraft? (v : Draft) : Option Cache := do
  match ← v.slots? [["payload"], ["cached_at"], ["ttl_minutes"]] with
  | [payload, cachedAt, ttl] =>
    return {
      payload := ← payload.orNone Draft.readAny?
      cachedAt := ← cachedAt.orNone Instant.ofDraft?
      ttlMinutes := ← ttl.orElse 60 Draft.readWord32? }
  | _ => none

/-- The end of the cache: `some none` for a cache never written, `none` for an end beyond the
calendar. -/
def expiry (cache : Cache) : Option (Option Instant) :=
  match cache.cachedAt with
  | none => some none
  | some t => (t.addMinutes? cache.ttlMinutes.toNat).map some

/-- Whether the payload may be served at an instant. -/
def valid (cache : Cache) (now : Instant) : Option Bool :=
  match cache.payload with
  | none => some false
  | some _ => cache.expiry.map fun stop => stop.any now.before

/-- The payload, if it may be served at an instant. -/
def fresh (cache : Cache) (now : Instant) : Option (Option Json) :=
  (cache.valid now).map fun ok => if ok then cache.payload else none

/-- The cache with another time to live. -/
def withTtl (cache : Cache) (minutes : UInt32) : Cache := { cache with ttlMinutes := minutes }

/-- Writes a payload and starts its time anew. -/
def store (cache : Cache) (payload : Json) (now : Instant) : Cache :=
  { cache with payload := some payload, cachedAt := some now }

end Cache

end Bulletin
