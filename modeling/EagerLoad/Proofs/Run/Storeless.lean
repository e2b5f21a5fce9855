import EagerLoad.Cache.Unreliable
import EagerLoad.Proofs.Run.Journal
import EagerLoad.Proofs.Run.Transparent

/-! # Running with a broken store and without any

A store from which no rows can be read is as good as none. Whether it refuses, has nothing or gives back
texts that hold no rows, and whether or not it takes what it is given: all plans that are run one after
another are answered the same, by the same statements, and the same rows are in the request cache. -/
namespace EagerLoad

/-- Whether no text that holds rows is read from a store in any of some states, which it never leaves. -/
structure StoreOps.Barren (ops : StoreOps σ) (broken : σ → Prop) : Prop where
  unread : ∀ now key s text, broken s → (ops.get now key s).1 = .ok (some text) →
    Rows.parse? text = none
  get : ∀ now key s, broken s → broken (ops.get now key s).2
  put : ∀ now key text ttl tags s, broken s → broken (ops.put now key text ttl tags s).2
  flushTags : ∀ now tags s, broken s → broken (ops.flushTags now tags s).2

theorem StoreOps.Barren.journaled {ops : StoreOps σ} {broken : σ → Prop} (barren : ops.Barren broken) :
    ops.journaled.Barren fun s => broken s.1 where
  unread now key s text := barren.unread now key s.1 text
  get now key s := barren.get now key s.1
  put now key text ttl tags s := barren.put now key text ttl tags s.1
  flushTags now tags s := barren.flushTags now tags s.1

namespace UnreliableStore

/-- Whether every read is refused, or every text that is found is replaced by one that holds no rows. -/
def Broken (s : UnreliableStore) : Prop :=
  .get ∈ s.refused ∨ ∃ text, s.garbled = some text ∧ Rows.parse? text = none

theorem broken_attempt {s : UnreliableStore} (broken : s.Broken) (action : StoreAction)
    (act : MemoryStore → Except CacheError α × MemoryStore) : (s.attempt action act).2.Broken := by
  unfold attempt
  split <;> exact broken

theorem ops_barren : UnreliableStore.ops.Barren Broken where
  unread now key s text broken found := by
    simp only [ops, attempt] at found
    rcases broken with refused | ⟨other, garbled, unread⟩
    · rw [if_pos (List.elem_eq_true_of_mem refused)] at found
      exact nomatch found
    · rw [garbled] at found
      split at found
      · exact nomatch found
      · obtain ⟨_ | stored, -, same⟩ := map_eq_ok_iff.mp found
        · exact nomatch same
        · obtain rfl : other = text := Option.some.inj same
          exact unread
  get now key s broken := broken_attempt broken .get _
  put now key text ttl tags s broken := broken_attempt broken .put _
  flushTags now tags s broken := broken_attempt broken .flushTags _

end UnreliableStore

/-- Whether a state with a broken store is like another one but for the stores, the time and the notices. -/
structure State.Matches (broken : σ → Prop) (s : State ε σ) (t : State ε τ) : Prop where
  broken : broken s.store
  executor : t.executor = s.executor
  request : t.request = s.request
  memo : t.memo = s.memo

namespace Optimizer

def storeless (o : Optimizer ε σ) : Optimizer ε Unit :=
  { config := o.config, registry := o.registry, executor := o.executor, store := none }

/-- Runs plans one after another, each at a time of its own. -/
def runAll (o : Optimizer ε σ) :
    List (Clock × Plan) → Run ε σ (List (Except QueryError Execution))
  | [] => return []
  | (now, p) :: rest => do
    modify fun s => { s with clock := now }
    let answer ← o.run p
    return answer :: (← o.runAll rest)

section Broken

variable {o : Optimizer ε σ} {o' : Optimizer ε τ} {broken : σ → Prop}
  (barren : ∀ ops, o.store = some ops → ops.Barren broken) (absent : o'.store = none)
include barren

/-- Nothing is found in a broken store. -/
theorem externalGet_broken (key : String) {s : State ε σ} {t : State ε τ} (same : s.Matches broken t) :
    (o.externalGet key s).1 = none ∧ State.Matches broken (o.externalGet key s).2 t := by
  unfold externalGet
  cases present : o.store with
  | none => exact ⟨rfl, same⟩
  | some ops =>
    have unread := (barren ops present).unread s.clock key s.store
    have left := (barren ops present).get s.clock key s.store same.broken
    obtain ⟨read, put, flushTags, flush⟩ := ops
    simp only [run_bind, run_get, run_set]
    dsimp only at unread left
    generalize read s.clock key s.store = answer at unread left ⊢
    rcases answer with ⟨_ | _ | text, store⟩
    · exact ⟨rfl, { same with broken := left }⟩
    · exact ⟨rfl, { same with broken := left }⟩
    · dsimp only
      rw [unread text same.broken rfl]
      exact ⟨rfl, { same with broken := left }⟩

theorem externalPut_broken (key : String) (rows : List Row) (ttl : Duration) (tags : List String)
    {s : State ε σ} {t : State ε τ} (same : s.Matches broken t) :
    State.Matches broken (o.externalPut key rows ttl tags s).2 t := by
  unfold externalPut
  cases present : o.store with
  | none => exact same
  | some ops =>
    have left := (barren ops present).put s.clock key (Rows.text rows) (some ttl) tags s.store same.broken
    obtain ⟨read, put, flushTags, flush⟩ := ops
    simp only [run_bind, run_get, run_set]
    dsimp only at left
    generalize put s.clock key (Rows.text rows) (some ttl) tags s.store = answer at left ⊢
    rcases answer with ⟨_ | _, store⟩ <;> exact { same with broken := left }

include absent

/-- An invalidation that the store refuses clears the request cache like one without a store. -/
theorem invalidate_broken (table : String) {s : State ε σ} {t : State ε τ} (same : s.Matches broken t) :
    State.Matches broken (o.invalidate table s).2 (o'.invalidate table t).2 := by
  have cleared : State.Matches broken { s with request := s.request.clear }
      { t with request := t.request.clear } :=
    { same with request := congrArg RequestCache.clear same.request }
  unfold invalidate
  rw [absent]
  cases present : o.store with
  | none => exact cleared
  | some ops =>
    have left := (barren ops present).flushTags s.clock [table] s.store same.broken
    obtain ⟨read, put, flushTags, flush⟩ := ops
    simp only [run_bind, run_modify, run_get, run_set]
    dsimp only at left
    generalize flushTags s.clock [table] s.store = answer at left ⊢
    rcases answer with ⟨_ | _, store⟩ <;> exact { cleared with broken := left }

theorem invalidateAll_broken (tables : List String) :
    Parallel (State.Matches broken) (o.invalidateAll tables) (o'.invalidateAll tables) := by
  induction tables with
  | nil => exact .pure _
  | cons table rest ih =>
    exact fun s t same => ih _ _ (invalidate_broken barren absent table same)

theorem storeless_twins (config : o'.config = o.config) (registry : o'.registry = o.registry)
    (executor : o'.executor = o.executor) : Twins (State.Matches broken) o o' where
  config
  registry
  dialect := congrArg Executor.dialect executor
  memo _ _ same := same.memo
  request _ _ same := same.request
  note _ := .modify fun _ _ same => { same with }
  follow draft := .modify fun s t same => by
    refine { same with memo := ?_ }
    dsimp only
    rw [same.memo]
  fetch statement timeout := by
    intro s t same
    have reply : o'.executor.fetch statement timeout t.executor =
        o.executor.fetch statement timeout s.executor := by
      rw [executor, same.executor]
    unfold fetch
    simp only [run_bind, run_get, run_set, reply]
    have advanced : State.Matches broken
        { s with executor := (o.executor.fetch statement timeout s.executor).next }
        { t with executor := (o.executor.fetch statement timeout s.executor).next } :=
      { same with executor := rfl }
    exact ⟨rfl, (invalidateAll_broken barren absent _ _ _ advanced).2⟩
  requestPut key rows generation := .modify fun s t same => by
    refine { same with request := ?_ }
    dsimp only
    rw [same.request]
  externalGet key := by
    intro s t same
    obtain ⟨nothing, left⟩ := externalGet_broken barren key same
    rw [nothing, externalGet, absent]
    exact ⟨rfl, left⟩
  externalPut key rows ttl tags := by
    intro s t same
    rw [externalPut.eq_def o', absent]
    exact ⟨rfl, externalPut_broken barren key rows ttl tags same⟩

end Broken

theorem runAll_parallel {R : State ε σ → State δ τ → Prop} {o : Optimizer ε σ} {o' : Optimizer δ τ}
    (twins : Twins R o o')
    (timed : ∀ now s t, R s t → R { s with clock := now } { t with clock := now })
    (steps : List (Clock × Plan)) : Parallel R (o.runAll steps) (o'.runAll steps) := by
  induction steps with
  | nil => exact .pure _
  | cons step rest ih =>
    obtain ⟨now, p⟩ := step
    refine .bind (.modify (timed now)) fun _ => .bind (twins.run p) fun answer => ?_
    exact .bind ih fun answers => .pure _

end Optimizer

/-- A state of an optimizer that has no store. -/
def State.storeless (s : State ε σ) : State ε Unit :=
  { executor := s.executor, store := (), request := s.request, memo := s.memo, clock := s.clock
    notices := s.notices }

/-- A broken store never changes a query. Whatever plans are run one after another, each is answered the same
rows, layout, report or error as without a store. The executor is asked the same in the same order and ends
up in the same state, and so does the request cache. -/
theorem Optimizer.runAll_storeless (o : Optimizer ε σ) {broken : σ → Prop}
    (barren : ∀ ops, o.store = some ops → ops.Barren broken) {s : State ε σ} (start : broken s.store)
    (steps : List (Clock × Plan)) :
    (o.runAll steps s).1 = (o.storeless.runAll steps s.storeless).1 ∧
      (o.runAll steps s).2.request = (o.storeless.runAll steps s.storeless).2.request ∧
      (o.runAll steps s).2.executor = (o.storeless.runAll steps s.storeless).2.executor ∧
      Journaled.exchanges (o.journaled.runAll steps s.opened).2 =
        Journaled.exchanges (o.storeless.journaled.runAll steps s.storeless.opened).2 := by
  have twins : Twins (State.Matches broken) o o.storeless := storeless_twins barren rfl rfl rfl rfl
  obtain ⟨answers, left⟩ := runAll_parallel twins (fun _ _ _ same => { same with }) steps s s.storeless
    { broken := start, executor := rfl, request := rfl, memo := rfl }
  have journaled : ∀ ops, o.journaled.store = some ops → ops.Barren fun s => broken s.1 := by
    intro ops present
    obtain ⟨plain, known, rfl⟩ := Option.map_eq_some_iff.mp present
    exact (barren plain known).journaled
  have twins : Twins (State.Matches fun s => broken s.1) o.journaled o.storeless.journaled :=
    storeless_twins journaled rfl rfl rfl rfl
  obtain ⟨-, sent⟩ := runAll_parallel twins (fun _ _ _ same => { same with }) steps s.opened
    s.storeless.opened { broken := start, executor := rfl, request := rfl, memo := rfl }
  exact ⟨answers, left.request.symm, left.executor.symm, (congrArg Prod.snd sent.executor).symm⟩

namespace Harbour

/-- The harbour with a store in which every text turns into fog. -/
def foggy : Optimizer Unit UnreliableStore :=
  { config := optimizer.config
    registry := optimizer.registry
    executor := optimizer.executor
    store := some UnreliableStore.ops }

def fog : State Unit UnreliableStore := { executor := (), store := { garbled := some "fog" } }

end Harbour

open Harbour in
theorem Optimizer.runAll_storeless_harbour :
    (∀ ops, foggy.store = some ops → ops.Barren UnreliableStore.Broken) ∧ fog.store.Broken ∧
      (foggy.runAll steps fog).1 = (foggy.storeless.runAll steps fog.storeless).1 ∧
      (foggy.runAll steps fog).2.request = (foggy.storeless.runAll steps fog.storeless).2.request ∧
      (foggy.runAll steps fog).2.executor = (foggy.storeless.runAll steps fog.storeless).2.executor ∧
      Journaled.exchanges (foggy.journaled.runAll steps fog.opened).2 =
        Journaled.exchanges (foggy.storeless.journaled.runAll steps fog.storeless.opened).2 := by
  have barren : ∀ ops, foggy.store = some ops → ops.Barren UnreliableStore.Broken := by
    intro ops same
    obtain rfl := Option.some.inj same
    exact UnreliableStore.ops_barren
  have broken : fog.store.Broken := .inr ⟨"fog", rfl, by decide⟩
  exact ⟨barren, broken, foggy.runAll_storeless barren broken steps⟩

end EagerLoad
