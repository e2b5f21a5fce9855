import EagerLoad.Run.State

/-! # Observers of changes

Whoever changes a row tells the optimizer, which invalidates what was read from the row's table and
then tells the observers in the order of their registration. An observer that fails keeps no other
from being told. -/
namespace EagerLoad

inductive Change where
  | saved
  | deleted
  | restored
deriving DecidableEq, Repr

structure ModelEvent where
  change : Change
  table : String
deriving DecidableEq, Repr

/-- What an observer does about each kind of change, with a state of type `ω`; nothing unless it is
given. -/
structure Observer (ω : Type) where
  saved : String → ω → Except CacheError Unit × ω := fun _ s => (.ok (), s)
  deleted : String → ω → Except CacheError Unit × ω := fun _ s => (.ok (), s)
  restored : String → ω → Except CacheError Unit × ω := fun _ s => (.ok (), s)

/-- Tells an observer of an event by the method for its kind. -/
def Observer.receive (observer : Observer ω) (e : ModelEvent) :
    ω → Except CacheError Unit × ω :=
  match e.change with
  | .saved => observer.saved e.table
  | .deleted => observer.deleted e.table
  | .restored => observer.restored e.table

def dispatch (e : ModelEvent) : List (Observer ω) → ω → ω × List Notice
  | [], s => (s, [])
  | observer :: rest, s =>
    let (answer, s) := observer.receive e s
    let (s, notices) := dispatch e rest s
    match answer with
    | .ok _ => (s, notices)
    | .error _ => (s, .observerFailed :: notices)

/-- Invalidates the table of an event and tells the observers. If the store refuses, the error is
given and no observer is told. -/
def Optimizer.notify (o : Optimizer ε σ) (observers : List (Observer ω)) (e : ModelEvent)
    (s : ω) : Run ε σ (Except QueryError Unit × ω) := do
  match ← o.invalidate e.table with
  | .error error => return (.error (.cache error), s)
  | .ok _ =>
    let (s, notices) := dispatch e observers s
    Run.noteAll notices
    return (.ok (), s)

end EagerLoad
