import EagerLoad.Cache.Store

/-! # Unreliable stores

A memory store whose operations can be made to refuse, and whose texts can be garbled on the way
out. Refused operations leave the store as it is. -/
namespace EagerLoad

inductive StoreAction where
  | get
  | put
  | flushTags
  | flush
deriving DecidableEq, Repr

namespace StoreAction

def name : StoreAction → String
  | get => "get"
  | put => "put"
  | flushTags => "flush_tags"
  | flush => "flush"

def ofName? : String → Option StoreAction
  | "get" => some get
  | "put" => some put
  | "flush_tags" => some flushTags
  | "flush" => some flush
  | _ => none

end StoreAction

structure UnreliableStore where
  memory : MemoryStore := {}
  refused : List StoreAction := []
  /-- What every text that is found is replaced by. -/
  garbled : Option String := none

namespace UnreliableStore

def attempt (s : UnreliableStore) (a : StoreAction)
    (act : MemoryStore → Except CacheError α × MemoryStore) :
    Except CacheError α × UnreliableStore :=
  if s.refused.contains a then (.error (.backend (a.name ++ " unavailable")), s)
  else
    let (answer, memory) := act s.memory
    (answer, { s with memory })

def ops : StoreOps UnreliableStore where
  get now key s :=
    let (found, s) := s.attempt .get (MemoryStore.ops.get now key)
    (found.map fun text => text.map fun t => s.garbled.getD t, s)
  put now key text ttl tags s := s.attempt .put (MemoryStore.ops.put now key text ttl tags)
  flushTags now tags s := s.attempt .flushTags (MemoryStore.ops.flushTags now tags)
  flush now s := s.attempt .flush (MemoryStore.ops.flush now)

end UnreliableStore
end EagerLoad
