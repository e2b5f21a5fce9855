import EagerLoad.Proofs.Run.Sequential

/-! # Delivery of events

A receipt says which observer was told of what, and by which of its methods. Over any calls, with any changes
in between, each observer gets one receipt for every event whose call succeeded, in order, and no others,
whatever it or another observer answers. A call fails exactly if the store refuses to flush, and clears the
request cache in any case. -/
namespace EagerLoad

/-- The place of an observer, and the event that it was told of: the kind goes by the method. -/
structure Receipt where
  observer : Nat
  event : ModelEvent
deriving DecidableEq, Repr

/-- The observer with a list of receipts, also of those events that it fails on. -/
def Observer.recorded (observer : Observer ω) (place : Nat) : Observer (ω × List Receipt) where
  saved table s :=
    ((observer.saved table s.1).1, (observer.saved table s.1).2, s.2 ++ [⟨place, ⟨.saved, table⟩⟩])
  deleted table s :=
    ((observer.deleted table s.1).1, (observer.deleted table s.1).2, s.2 ++ [⟨place, ⟨.deleted, table⟩⟩])
  restored table s :=
    ((observer.restored table s.1).1, (observer.restored table s.1).2, s.2 ++ [⟨place, ⟨.restored, table⟩⟩])

def recorded (observers : List (Observer ω)) : List (Observer (ω × List Receipt)) :=
  observers.zipIdx.map fun (observer, place) => observer.recorded place

/-- What happens to the state before a call, and the event of the call. -/
structure Turn (ε σ : Type) where
  between : State ε σ → State ε σ
  event : ModelEvent

/-- A call with its answer and the states around it. -/
structure Call (ε σ : Type) where
  event : ModelEvent
  before : State ε σ
  answer : Except QueryError Unit
  after : State ε σ

namespace Call

def succeeded (c : Call ε σ) : Bool :=
  match c.answer with
  | .ok _ => true
  | .error _ => false

/-- The events of the calls that succeeded. -/
def accepted (calls : List (Call ε σ)) : List ModelEvent := (calls.filter succeeded).map event

end Call

namespace Optimizer

/-- Calls one after another: the calls, and what the observers have become. -/
def notifyAll (o : Optimizer ε σ) (observers : List (Observer ω)) :
    List (Turn ε σ) → ω → State ε σ → List (Call ε σ) × ω
  | [], seen, _ => ([], seen)
  | turn :: rest, seen, s =>
    let before := turn.between s
    let answer := o.notify observers turn.event seen before
    let later := o.notifyAll observers rest answer.1.2 answer.2
    (⟨turn.event, before, answer.1.1, answer.2⟩ :: later.1, later.2)

/-- Whether the store refuses to flush the tag of a table. -/
def RefusesFlush (o : Optimizer ε σ) (table : String) (s : State ε σ) : Prop :=
  ∃ ops error, o.store = some ops ∧ (ops.flushTags s.clock [table] s.store).1 = .error error

end Optimizer

/-- What a call does, with so many observers: the request cache is empty and in a new generation, and the call
fails exactly if the store refuses. Observers are told after the flush, of which they change nothing: their
failures are noted behind it, and none are if the call fails. -/
structure Call.Settles (o : Optimizer ε σ) (observers : Nat) (c : Call ε σ) : Prop where
  emptied : c.after.request.entries = []
  renewed : c.after.request.generation = c.before.request.generation + 1
  refused : (∃ error, c.answer = .error error) ↔ o.RefusesFlush c.event.table c.before
  left : c.after = { (o.invalidate c.event.table c.before).2 with notices := c.after.notices }
  noted : ∃ failed ≤ observers, c.after.notices = c.before.notices ++
    if c.succeeded then
      (if o.store.isSome then [.flushed] else []) ++ List.replicate failed .observerFailed
    else []

section Observers

variable (e : ModelEvent)

theorem Observer.receive_recorded (observer : Observer ω) (place : Nat) (s : ω × List Receipt) :
    (observer.recorded place).receive e s =
      ((observer.receive e s.1).1, (observer.receive e s.1).2, s.2 ++ [⟨place, e⟩]) := by
  obtain ⟨change, table⟩ := e
  cases change <;> rfl

/-- Told of an event, each of the observers gets one receipt for it, also after one that failed. -/
theorem dispatch_recorded (observers : List (Observer ω)) (first : Nat) (s : ω × List Receipt) :
    dispatch e ((observers.zipIdx first).map fun (observer, place) => observer.recorded place) s =
      (((dispatch e observers s.1).1,
        s.2 ++ (List.range' first observers.length).map fun place => ⟨place, e⟩),
        (dispatch e observers s.1).2) := by
  induction observers generalizing first s with
  | nil => simp [dispatch]
  | cons observer rest ih =>
    rw [List.zipIdx_cons, List.map_cons, dispatch, Observer.receive_recorded, dispatch]
    generalize observer.receive e s.1 = answer
    obtain ⟨answer, seen⟩ := answer
    dsimp only
    rw [ih, List.length_cons, List.range'_succ, List.map_cons, List.append_assoc]
    cases answer <;> rfl

/-- All that dispatching notes are failures, at most one for each observer. -/
theorem dispatch_notices (observers : List (Observer ω)) (seen : ω) :
    ∃ failed ≤ observers.length, (dispatch e observers seen).2 = List.replicate failed .observerFailed := by
  induction observers generalizing seen with
  | nil => exact ⟨0, Nat.le_refl _, rfl⟩
  | cons observer rest ih =>
    rw [dispatch]
    generalize observer.receive e seen = answer
    obtain ⟨answer, seen⟩ := answer
    obtain ⟨failed, bound, noted⟩ := ih seen
    cases answer with
    | ok _ => exact ⟨failed, Nat.le_succ_of_le bound, noted⟩
    | error _ =>
      refine ⟨failed + 1, Nat.succ_le_succ bound, ?_⟩
      rw [List.replicate_succ]
      exact congrArg (Notice.observerFailed :: ·) noted

end Observers

namespace Optimizer

variable (o : Optimizer ε σ)

/-- Invalidation clears the request cache, and fails exactly if the store refuses; what it notes otherwise is
the flush of a store. -/
theorem invalidate_settles (table : String) (s : State ε σ) :
    (o.invalidate table s).2.request = s.request.clear ∧
      ((∃ error, (o.invalidate table s).1 = .error error) ↔ o.RefusesFlush table s) ∧
      (o.invalidate table s).2.notices = s.notices ++
        match (o.invalidate table s).1 with
        | .ok _ => if o.store.isSome then [.flushed] else []
        | .error _ => [] := by
  unfold invalidate RefusesFlush
  cases absent : o.store with
  | none =>
    refine ⟨rfl, ⟨?_, ?_⟩, (List.append_nil _).symm⟩
    · rintro ⟨error, none⟩
      exact nomatch none
    · rintro ⟨ops, error, none, -⟩
      exact nomatch none
  | some ops =>
    obtain ⟨read, put, flushTags, flush⟩ := ops
    simp only [run_bind, run_modify, run_get, run_set, Option.some.injEq, exists_and_left, exists_eq_left']
    generalize flushTags s.clock [table] s.store = answer
    obtain ⟨error | _, store⟩ := answer
    · exact ⟨rfl, ⟨fun _ => ⟨error, rfl⟩, fun _ => ⟨error, rfl⟩⟩, (List.append_nil _).symm⟩
    · refine ⟨rfl, ⟨?_, ?_⟩, rfl⟩ <;>
      · rintro ⟨error, none⟩
        exact nomatch none

/-- Observers with receipts are told what those without are, and change nothing of the call. -/
theorem notify_recorded (observers : List (Observer ω)) (e : ModelEvent) (seen : ω × List Receipt)
    (s : State ε σ) :
    o.notify (recorded observers) e seen s =
      (((o.notify observers e seen.1 s).1.1, (o.notify observers e seen.1 s).1.2,
        seen.2 ++ match (o.notify observers e seen.1 s).1.1 with
          | .ok _ => (List.range observers.length).map fun place => ⟨place, e⟩
          | .error _ => []),
        (o.notify observers e seen.1 s).2) := by
  have told := dispatch_recorded e observers 0 seen
  rw [← List.range_eq_range'] at told
  obtain ⟨error, fails, answer⟩ | ⟨succeeds, answer⟩ := o.notify_answer observers e seen.1 s
  · rw [answer, notify, run_bind, fails]
    dsimp only
    rw [List.append_nil]
    rfl
  · rw [answer, notify, run_bind, succeeds]
    unfold recorded
    dsimp only
    rw [told]
    rfl

theorem notify_settles (observers : List (Observer ω)) (e : ModelEvent) (seen : ω) (s : State ε σ) :
    Call.Settles o observers.length
      ⟨e, s, (o.notify observers e seen s).1.1, (o.notify observers e seen s).2⟩ := by
  obtain ⟨cleared, refused, noted⟩ := o.invalidate_settles e.table s
  obtain ⟨failed, bound, failures⟩ := dispatch_notices e observers seen
  obtain ⟨error, fails, answer⟩ | ⟨succeeds, answer⟩ := o.notify_answer observers e seen s
  · rw [fails] at noted refused
    rw [answer]
    exact
      { emptied := congrArg RequestCache.entries cleared
        renewed := congrArg RequestCache.generation cleared
        refused := ⟨fun _ => refused.mp ⟨error, rfl⟩, fun _ => ⟨_, rfl⟩⟩
        left := rfl
        noted := ⟨0, Nat.zero_le _, noted⟩ }
  · rw [succeeds] at noted refused
    rw [answer, failures]
    refine
      { emptied := congrArg RequestCache.entries cleared
        renewed := congrArg RequestCache.generation cleared
        refused := ⟨?_, fun refuses => ?_⟩
        left := rfl
        noted := ⟨failed, bound, ?_⟩ }
    · rintro ⟨error, none⟩
      exact nomatch none
    · obtain ⟨error, none⟩ := refused.mpr refuses
      exact nomatch none
    · exact (congrArg (· ++ List.replicate failed Notice.observerFailed) noted).trans (List.append_assoc _ _ _)

/-- Over all calls, observers with receipts answer as those without, and get the receipts of accepted events. -/
theorem notifyAll_recorded (observers : List (Observer ω)) (turns : List (Turn ε σ))
    (seen : ω × List Receipt) (s : State ε σ) :
    o.notifyAll (recorded observers) turns seen s =
      ((o.notifyAll observers turns seen.1 s).1, (o.notifyAll observers turns seen.1 s).2,
        seen.2 ++ (Call.accepted (o.notifyAll observers turns seen.1 s).1).flatMap fun e =>
          (List.range observers.length).map fun place => ⟨place, e⟩) := by
  induction turns generalizing seen s with
  | nil => simp [notifyAll, Call.accepted]
  | cons turn rest ih =>
    rw [notifyAll, notifyAll, notify_recorded]
    dsimp only
    generalize o.notify observers turn.event seen.1 (turn.between s) = answer
    obtain ⟨⟨answer, now⟩, t⟩ := answer
    rw [ih]
    cases answer with
    | error error =>
      rw [List.append_nil]
      rfl
    | ok _ =>
      rw [List.append_assoc]
      rfl

end Optimizer

/-- What a list of observers is told over some calls. -/
structure Delivers (o : Optimizer ε σ) (observers : List (Observer ω)) (turns : List (Turn ε σ)) (seen : ω)
    (s : State ε σ) : Prop where
  calls : ∀ c ∈ (o.notifyAll observers turns seen s).1, c.Settles o observers.length
  /-- Receipts change nothing: the calls are answered alike, and the observers become the same. -/
  unchanged : (o.notifyAll (recorded observers) turns (seen, []) s).1 = (o.notifyAll observers turns seen s).1 ∧
    (o.notifyAll (recorded observers) turns (seen, []) s).2.1 = (o.notifyAll observers turns seen s).2
  /-- For every accepted event the observers are told of it in order. -/
  receipts : (o.notifyAll (recorded observers) turns (seen, []) s).2.2 =
    (Call.accepted (o.notifyAll observers turns seen s).1).flatMap fun e =>
      (List.range observers.length).map fun place => ⟨place, e⟩
  /-- So each of them has been told of just the accepted events, in order. -/
  each : ∀ place < observers.length,
    ((o.notifyAll (recorded observers) turns (seen, []) s).2.2.filter (·.observer = place)).map Receipt.event =
      Call.accepted (o.notifyAll observers turns seen s).1

/-- Among the receipts for some events those of one observer are one for each event. -/
theorem filter_receipts {observers place : Nat} (known : place < observers) (events : List ModelEvent) :
    ((events.flatMap fun e => (List.range observers).map fun place => (⟨place, e⟩ : Receipt)).filter
      (·.observer = place)).map Receipt.event = events := by
  have one (e : ModelEvent) : (((List.range observers).map fun place => (⟨place, e⟩ : Receipt)).filter
      (·.observer = place)).map Receipt.event = [e] := by
    have single : (List.range observers).filter (fun other => decide (other = place)) = [place] := by
      rw [List.filter_eq, List.nodup_range.count, if_pos (List.mem_range.mpr known)]
      rfl
    rw [List.filter_map, List.map_map]
    exact congrArg (List.map fun _ => e) single
  induction events with
  | nil => rfl
  | cons e rest ih => rw [List.flatMap_cons, List.filter_append, List.map_append, one, ih, List.singleton_append]

/-- Events are delivered to all observers exactly if the store does not refuse their calls, whatever observers
answer, and every call clears the request cache. -/
theorem Optimizer.notifyAll_delivers (o : Optimizer ε σ) (observers : List (Observer ω))
    (turns : List (Turn ε σ)) (seen : ω) (s : State ε σ) : Delivers o observers turns seen s where
  calls := by
    induction turns generalizing seen s with
    | nil => exact fun c none => absurd none List.not_mem_nil
    | cons turn rest ih =>
      intro c made
      obtain rfl | later := List.mem_cons.mp made
      · exact o.notify_settles observers turn.event seen (turn.between s)
      · exact ih _ _ c later
  unchanged := by
    rw [notifyAll_recorded]
    exact ⟨rfl, rfl⟩
  receipts := by
    rw [notifyAll_recorded]
    rfl
  each place known := by
    rw [notifyAll_recorded]
    exact filter_receipts known _

end EagerLoad
