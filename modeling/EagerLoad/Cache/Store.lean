import EagerLoad.Error
import EagerLoad.Ordered
import EagerLoad.Time.Duration

/-! # Cache stores

A store keeps texts by key outside of a request, each until it expires or one of its tags is
flushed. Any store may refuse an operation; the memory store never does. -/
namespace EagerLoad

/-- Nanoseconds since some start. -/
abbrev Clock := Nat

structure StoreOps (σ : Type) where
  get : Clock → String → σ → Except CacheError (Option String) × σ
  put : Clock → String → String → Option Duration → List String → σ → Except CacheError Unit × σ
  flushTags : Clock → List String → σ → Except CacheError Nat × σ
  flush : Clock → σ → Except CacheError Unit × σ

/-- A text and the last moment at which it may be read. -/
structure StoreEntry where
  text : String
  expires : Option Clock
deriving DecidableEq, Repr

def StoreEntry.isExpired (e : StoreEntry) (now : Clock) : Bool := e.expires.any fun t => t < now

/-- The entries by key, and the keys registered under every tag. -/
structure MemoryStore where
  entries : List (String × StoreEntry) := []
  tags : List (String × List String) := []
deriving DecidableEq, Repr

namespace MemoryStore

def size (s : MemoryStore) : Nat := s.entries.length

def has (s : MemoryStore) (key : String) : Bool := (s.entries.lookup key).isSome

def keysOf (s : MemoryStore) (tag : String) : List String :=
  ((s.tags.lookup tag).getD []).mergeSort fun a b => a ≤ b

def drop (s : MemoryStore) (key : String) : MemoryStore :=
  { s with entries := s.entries.filter fun e => e.1 != key }

/-- Removes expired entries, the keys without entry, and the tags without keys. -/
def purged (s : MemoryStore) (now : Clock) : MemoryStore :=
  let entries := s.entries.filter fun e => !e.2.isExpired now
  let live := fun key => (entries.lookup key).isSome
  { entries
    tags := (s.tags.map fun t => (t.1, t.2.filter live)).filter fun t => !t.2.isEmpty }

/-- Removes what is expired, and says how many entries were. -/
def purge (s : MemoryStore) (now : Clock) : MemoryStore × Nat :=
  (s.purged now, s.size - (s.purged now).size)

/-- Reads an entry. One that is expired is removed. -/
def get (s : MemoryStore) (now : Clock) (key : String) : Option String × MemoryStore :=
  match s.entries.lookup key with
  | none => (none, s)
  | some e => if e.isExpired now then (none, s.drop key) else (some e.text, s)

def tag (s : MemoryStore) (key tag : String) : MemoryStore :=
  { s with tags := upsert tag (addNew ((s.tags.lookup tag).getD []) key) s.tags }

/-- Writes an entry after a purge. Tags of an earlier entry stay registered. -/
def put (s : MemoryStore) (now : Clock) (key text : String) (ttl : Option Duration)
    (tags : List String) : MemoryStore :=
  let s := s.purged now
  let entry : StoreEntry := ⟨text, ttl.map fun d => now + d.totalNanos⟩
  tags.foldl (fun s t => s.tag key t) { s with entries := upsert key entry s.entries }

/-- Removes an entry and its registrations, and says whether there was one. -/
def forget (s : MemoryStore) (key : String) : MemoryStore × Bool :=
  ({ entries := (s.drop key).entries
     tags := s.tags.map fun t => (t.1, t.2.filter fun k => k != key) }, s.has key)

/-- Removes a tag with the entries of its keys, and says how many there were. -/
def flushTag (s : MemoryStore) (tag : String) : MemoryStore × Nat :=
  let keys := (s.tags.lookup tag).getD []
  ({ entries := s.entries.filter fun e => !keys.contains e.1
     tags := s.tags.filter fun t => t.1 != tag }, (keys.filter s.has).length)

def flushTags (s : MemoryStore) (now : Clock) (tags : List String) : MemoryStore × Nat :=
  let (s, removed) := tags.foldl (fun (s, removed) t =>
    let (s, n) := s.flushTag t
    (s, removed + n)) (s, 0)
  (s.purged now, removed)

/-- The memory store as a store that never refuses. -/
def ops : StoreOps MemoryStore where
  get now key s := let (text, s) := s.get now key; (.ok text, s)
  put now key text ttl tags s := (.ok (), s.put now key text ttl tags)
  flushTags now tags s := let (s, removed) := s.flushTags now tags; (.ok removed, s)
  flush _ _ := (.ok (), {})

end MemoryStore
end EagerLoad
