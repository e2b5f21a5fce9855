import EagerLoad.Cache.Request
import EagerLoad.Cache.Store
import EagerLoad.Plan.Compile

/-! # The state of a run

An optimizer brings together a configuration, the known entities, an executor of statements and
perhaps a store. What changes while it runs is its state: the executor's own, both caches, the
localizations found so far, the time, and the notices given. -/
namespace EagerLoad

/-- What an executor answers. Tables written to in the meantime are invalidated before the answer
is seen. -/
structure Reply (ε : Type) where
  answer : Except ExecutionError (List Row)
  written : List String := []
  next : ε

structure Executor (ε : Type) where
  dialect : Dialect
  fetch : Statement → Option Duration → ε → Reply ε

structure Optimizer (ε σ : Type) where
  config : Config
  registry : Registry
  executor : Executor ε
  store : Option (StoreOps σ)

structure State (ε σ : Type) where
  executor : ε
  store : σ
  request : RequestCache := {}
  memo : Memo := []
  clock : Clock := 0
  notices : List Notice := []

abbrev Run (ε σ α : Type) := StateM (State ε σ) α

abbrev Attempt (ε σ α : Type) := ExceptT QueryError (StateM (State ε σ)) α

namespace Run

def note (n : Notice) : Run ε σ Unit :=
  modify fun s => { s with notices := s.notices ++ [n] }

def noteAll (ns : List Notice) : Run ε σ Unit :=
  modify fun s => { s with notices := s.notices ++ ns }

/-- Gives the notices of a draft and remembers the localizations that it looked up. -/
def follow (draft : Sql.Draft) : Run ε σ Unit :=
  modify fun s =>
    { s with
      notices := s.notices ++ draft.notices
      memo := draft.consulted.foldl (fun m found => m.remember found.1 found.2) s.memo }

end Run

namespace Optimizer

def compiler (o : Optimizer ε σ) (memo : Memo) : Compiler :=
  { dialect := o.executor.dialect, registry := o.registry, memo, config := o.config }

def timeout (o : Optimizer ε σ) (p : Plan) : Option Duration := p.timeout.or o.config.timeout

def safeMode (o : Optimizer ε σ) (p : Plan) : Bool := p.safeMode.getD o.config.safeMode

/-- Clears the request cache and flushes a table's tag from the store. -/
def invalidate (o : Optimizer ε σ) (table : String) : Run ε σ (Except CacheError Unit) := do
  modify fun s => { s with request := s.request.clear }
  match o.store with
  | none => return .ok ()
  | some ops =>
    let s ← get
    let (flushed, store) := ops.flushTags s.clock [table] s.store
    set { s with store }
    match flushed with
    | .error e => return .error e
    | .ok _ =>
      Run.note .flushed
      return .ok ()

/-- Invalidates tables one after another; a store that refuses changes nothing else. -/
def invalidateAll (o : Optimizer ε σ) : List String → Run ε σ Unit
  | [] => return ()
  | table :: rest => do
    let _ ← o.invalidate table
    o.invalidateAll rest

def fetch (o : Optimizer ε σ) (statement : Statement) (timeout : Option Duration) :
    Run ε σ (Except ExecutionError (List Row)) := do
  let s ← get
  let reply := o.executor.fetch statement timeout s.executor
  set { s with executor := reply.next }
  o.invalidateAll reply.written
  return reply.answer

def logStatement (o : Optimizer ε σ) : Run ε σ Unit :=
  if o.config.logQueries then Run.note .executing else return ()

def fetchLogged (o : Optimizer ε σ) (statement : Statement) (timeout : Option Duration) :
    Run ε σ (Except ExecutionError (List Row)) := do
  o.logStatement
  o.fetch statement timeout

end Optimizer
end EagerLoad
