import RpcFlow.Dict
import RpcFlow.Time

/-!
# A cache with lifetimes

Entries are kept under a key until their lifetime has passed; an entry whose lifetime runs past the
end of the clock is kept for good.  An entry that has expired stays in place until it is looked up
or the cache is cleaned, but is never handed out.
-/

set_option autoImplicit false

namespace RpcFlow

/-- A stored text and the moment it expires, if ever. -/
structure CacheEntry where
  value : String
  expires : Option Moment
  deriving DecidableEq, Repr

/-- Has the entry expired? -/
def CacheEntry.isExpired (e : CacheEntry) (now : Moment) : Bool :=
  match e.expires with
  | some moment => moment ≤ now
  | none => false

/-- Entries by key. -/
structure TimedCache where
  entries : Dict CacheEntry
  deriving DecidableEq, Repr, Inhabited

namespace TimedCache

def empty : TimedCache := ⟨[]⟩

/-- Stores a text under a key for a length of time from now. -/
def store (c : TimedCache) (now : Moment) (key value : String) (lifetime : Duration) : TimedCache :=
  ⟨Dict.put c.entries key ⟨value, now.after? lifetime⟩⟩

/-- The text under a key; an expired entry is dropped instead. -/
def obtain (c : TimedCache) (now : Moment) (key : String) : Option String × TimedCache :=
  match Dict.at? c.entries key with
  | some e => if e.isExpired now then (none, ⟨Dict.without c.entries key⟩) else (some e.value, c)
  | none => (none, c)

/-- Drops what has expired. -/
def clean (c : TimedCache) (now : Moment) : TimedCache :=
  ⟨c.entries.filter fun e => !e.2.isExpired now⟩

/-- The number of entries, expired ones included. -/
def size (c : TimedCache) : Nat := c.entries.length

end TimedCache
end RpcFlow
