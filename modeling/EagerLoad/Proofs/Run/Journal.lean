import EagerLoad.Proofs.Run.Maintained
import EagerLoad.Proofs.Run.Parallel

/-! # Journals of runs

A journal keeps what an executor was asked and what it answered, and the texts that a store was given to
keep. It changes nothing else: a run with a journal gives what the run without it gives, and leaves the same
state. -/
namespace EagerLoad

/-- A statement that was sent, and the answer to it. -/
structure Exchange where
  statement : Statement
  answer : Except ExecutionError (List Row)

def Exchange.failed (x : Exchange) : Bool :=
  match x.answer with
  | .ok _ => false
  | .error _ => true

def Executor.journaled (x : Executor ε) : Executor (ε × List Exchange) where
  dialect := x.dialect
  fetch statement timeout e :=
    let reply := x.fetch statement timeout e.1
    { answer := reply.answer
      written := reply.written
      next := (reply.next, e.2 ++ [⟨statement, reply.answer⟩]) }

/-- The store with the keys and texts that it was given, also where it refused them. -/
def StoreOps.journaled (ops : StoreOps σ) : StoreOps (σ × List (String × String)) where
  get now key s := ((ops.get now key s.1).1, (ops.get now key s.1).2, s.2)
  put now key text ttl tags s :=
    ((ops.put now key text ttl tags s.1).1, (ops.put now key text ttl tags s.1).2, s.2 ++ [(key, text)])
  flushTags now tags s := ((ops.flushTags now tags s.1).1, (ops.flushTags now tags s.1).2, s.2)
  flush now s := ((ops.flush now s.1).1, (ops.flush now s.1).2, s.2)

def Optimizer.journaled (o : Optimizer ε σ) :
    Optimizer (ε × List Exchange) (σ × List (String × String)) where
  config := o.config
  registry := o.registry
  executor := o.executor.journaled
  store := o.store.map StoreOps.journaled

/-- The state of an optimizer with a journal. -/
abbrev Journaled (ε σ : Type) := State (ε × List Exchange) (σ × List (String × String))

namespace Journaled

/-- The state without its journal. -/
def plain (s : Journaled ε σ) : State ε σ :=
  { executor := s.executor.1, store := s.store.1, request := s.request, memo := s.memo
    clock := s.clock, notices := s.notices }

def exchanges (s : Journaled ε σ) : List Exchange := s.executor.2

/-- The keys and texts that the store was given. -/
def given (s : Journaled ε σ) : List (String × String) := s.store.2

end Journaled

/-- A state with an empty journal. -/
def State.opened (s : State ε σ) : Journaled ε σ :=
  { executor := (s.executor, []), store := (s.store, []), request := s.request, memo := s.memo
    clock := s.clock, notices := s.notices }

/-- Whether a run with a journal gives what a run without it gives, and leaves the same state. -/
def Mirrors (x : Run (ε × List Exchange) (σ × List (String × String)) α) (y : Run ε σ α) : Prop :=
  ∀ s : Journaled ε σ, (x s).1 = (y s.plain).1 ∧ Journaled.plain (x s).2 = (y s.plain).2

/-- Related to a state with a journal is the state without it. -/
theorem mirrors_iff_parallel {x : Run (ε × List Exchange) (σ × List (String × String)) α}
    {y : Run ε σ α} : Mirrors x y ↔ Parallel (fun s t => Journaled.plain s = t) x y := by
  constructor
  · rintro mirrors s _ rfl
    exact mirrors s
  · exact fun parallel s => parallel s _ rfl

namespace Optimizer

variable (o : Optimizer ε σ)

theorem mirrors_invalidate (table : String) :
    Mirrors (o.journaled.invalidate table) (o.invalidate table) := by
  intro s
  unfold invalidate
  cases absent : o.store with
  | none =>
    simp only [journaled, absent, Option.map_none]
    exact ⟨rfl, rfl⟩
  | some ops =>
    obtain ⟨read, put, flushTags, flush⟩ := ops
    simp only [journaled, absent, Option.map_some, run_bind, run_modify, run_get, run_set,
      StoreOps.journaled, Journaled.plain]
    generalize flushTags s.clock [table] s.store.1 = answer
    obtain ⟨_ | _, store⟩ := answer <;> exact ⟨rfl, rfl⟩

theorem mirrors_fetch (statement : Statement) (timeout : Option Duration) :
    Mirrors (o.journaled.fetch statement timeout) (o.fetch statement timeout) := by
  have all (tables : List String) :
      Mirrors (o.journaled.invalidateAll tables) (o.invalidateAll tables) := by
    rw [mirrors_iff_parallel]
    induction tables with
    | nil => exact .pure _
    | cons table rest ih => exact .bind (mirrors_iff_parallel.mp (o.mirrors_invalidate table)) fun _ => ih
  intro s
  exact ⟨rfl, (all _ _).2⟩

theorem mirrors_externalGet (key : String) :
    Mirrors (o.journaled.externalGet key) (o.externalGet key) := by
  intro s
  unfold externalGet
  cases absent : o.store with
  | none =>
    simp only [journaled, absent, Option.map_none]
    exact ⟨rfl, rfl⟩
  | some ops =>
    obtain ⟨read, put, flushTags, flush⟩ := ops
    simp only [journaled, absent, Option.map_some, run_bind, run_get, run_set, StoreOps.journaled,
      Journaled.plain]
    generalize read s.clock key s.store.1 = answer
    obtain ⟨_ | _ | text, store⟩ := answer
    · exact ⟨rfl, rfl⟩
    · exact ⟨rfl, rfl⟩
    · dsimp only
      cases Rows.parse? text <;> exact ⟨rfl, rfl⟩

theorem mirrors_externalPut (key : String) (rows : List Row) (ttl : Duration) (tags : List String) :
    Mirrors (o.journaled.externalPut key rows ttl tags) (o.externalPut key rows ttl tags) := by
  intro s
  unfold externalPut
  cases absent : o.store with
  | none =>
    simp only [journaled, absent, Option.map_none]
    exact ⟨trivial, rfl⟩
  | some ops =>
    obtain ⟨read, put, flushTags, flush⟩ := ops
    simp only [journaled, absent, Option.map_some, run_bind, run_get, run_set, StoreOps.journaled,
      Journaled.plain]
    generalize put s.clock key (Rows.text rows) (some ttl) tags s.store.1 = answer
    obtain ⟨_ | _, store⟩ := answer <;> exact ⟨trivial, rfl⟩

theorem journaled_twins : Twins (fun s t => Journaled.plain s = t) o.journaled o where
  config := rfl
  registry := rfl
  dialect := rfl
  memo _ _ same := same ▸ rfl
  request _ _ same := same ▸ rfl
  note _ := .modify fun _ _ same => same ▸ rfl
  follow _ := .modify fun _ _ same => same ▸ rfl
  fetch statement timeout := mirrors_iff_parallel.mp (o.mirrors_fetch statement timeout)
  requestPut _ _ _ := .modify fun _ _ same => same ▸ rfl
  externalGet key := mirrors_iff_parallel.mp (o.mirrors_externalGet key)
  externalPut key rows ttl tags := mirrors_iff_parallel.mp (o.mirrors_externalPut key rows ttl tags)

/-- A journal changes neither what a plan is answered nor what its run leaves. -/
theorem mirrors_run (p : Plan) : Mirrors (o.journaled.run p) (o.run p) :=
  mirrors_iff_parallel.mpr (o.journaled_twins.run p)

end Optimizer
end EagerLoad
