import EagerLoad.Proofs.Run.Errors
import EagerLoad.Proofs.Run.Sequential

/-! # How old cached rows can be

The store keeps every text with its time to live and reads none that is overdue. The request cache knows no
time: rows that come into it are not overdue then, whether they were executed or read in the store, but they
stay until the cache is cleared. -/
namespace EagerLoad

/-- Whether something holds of all entries of a memory store by their keys. -/
def MemoryStore.Each (holds : String → StoreEntry → Prop) (s : MemoryStore) : Prop :=
  ∀ key e, (key, e) ∈ s.entries → holds key e

namespace MemoryStore.Each

variable {holds : String → StoreEntry → Prop} {s : MemoryStore}

theorem get (h : s.Each holds) (now : Clock) (key : String) : (s.get now key).2.Each holds := by
  unfold MemoryStore.get
  split
  · exact h
  · split
    · exact fun k e kept => h k e (List.mem_filter.mp kept).1
    · exact h

/-- What is read is an entry that has not expired. -/
theorem get_holds (h : s.Each holds) {now : Clock} {key text : String}
    (found : (s.get now key).1 = some text) :
    ∃ e, holds key e ∧ e.text = text ∧ e.isExpired now = false := by
  unfold MemoryStore.get at found
  split at found
  · exact nomatch found
  · rename_i e known
    split at found
    · exact nomatch found
    · rename_i current
      exact ⟨e, h key e (mem_of_lookup known), Option.some.inj found, Bool.not_eq_true _ ▸ current⟩

theorem put (h : s.Each holds) (now : Clock) {key text : String} (ttl : Option Duration)
    (tags : List String) (held : holds key ⟨text, ttl.map fun d => now + d.totalNanos⟩) :
    (s.put now key text ttl tags).Each holds := by
  intro k e kept
  rw [MemoryStore.put, entries_tagAll] at kept
  rcases mem_upsert kept with written | earlier
  · obtain ⟨rfl, rfl⟩ := Prod.mk.inj written
    exact held
  · exact h k e (List.mem_filter.mp earlier).1

theorem flushTags (h : s.Each holds) (now : Clock) (table : String) :
    (s.flushTags now [table]).1.Each holds :=
  fun key e kept => h key e (List.mem_filter.mp (List.mem_filter.mp kept).1).1

end MemoryStore.Each

/-- Whether something holds of all rows in the request cache in its generation, and something of all entries
of the store. -/
structure Dated (serves : Nat → String → List Row → Prop) (holds : String → StoreEntry → Prop)
    (now : Clock) (s : State ε MemoryStore) : Prop where
  clock : s.clock = now
  request : ∀ key rows, (key, rows) ∈ s.request.entries → serves s.request.generation key rows
  store : s.store.Each holds

namespace Dated

variable {serves : Nat → String → List Row → Prop} {holds : String → StoreEntry → Prop} {now : Clock}
  {s : State ε MemoryStore}

theorem mono {servesMore : Nat → String → List Row → Prop} {holdsMore : String → StoreEntry → Prop}
    (h : Dated serves holds now s)
    (served : ∀ generation key rows, serves generation key rows → servesMore generation key rows)
    (held : ∀ key e, holds key e → holdsMore key e) : Dated servesMore holdsMore now s where
  clock := h.clock
  request key rows kept := served _ key rows (h.request key rows kept)
  store key e kept := held key e (h.store key e kept)

theorem note (n : Notice) : Maintains (Dated serves holds now) (Run.note n : Run ε MemoryStore Unit) :=
  fun _ h => { h with }

theorem follow (draft : Sql.Draft) :
    Maintains (Dated serves holds now) (Run.follow draft : Run ε MemoryStore Unit) :=
  fun _ h => { h with }

theorem requestPut (h : Dated serves holds now s) {key : String} {rows : List Row} {generation : Nat}
    (served : serves generation key rows) :
    Dated serves holds now (Optimizer.requestPut key rows generation s).2 where
  clock := h.clock
  request k kept listed := by
    simp only [Optimizer.requestPut, run_modify, RequestCache.put] at listed ⊢
    split at listed
    · rename_i current
      rw [if_pos current]
      rcases mem_upsert listed with written | earlier
      · obtain ⟨rfl, rfl⟩ := Prod.mk.inj written
        exact current ▸ served
      · exact h.request k kept earlier
    · rename_i refused
      rw [if_neg refused]
      exact h.request k kept listed
  store := h.store

variable {o : Optimizer ε MemoryStore} (inMemory : o.InMemory)
include inMemory

theorem invalidate (table : String) : Maintains (Dated serves holds now) (o.invalidate table) := by
  intro s h
  rcases inMemory with absent | memory
  · simp only [Optimizer.invalidate, absent, run_bind, run_modify]
    exact ⟨h.clock, fun key rows kept => absurd kept List.not_mem_nil, h.store⟩
  · simp only [Optimizer.invalidate, memory, MemoryStore.ops, run_bind, run_modify, run_get, run_set]
    exact ⟨h.clock, fun key rows kept => absurd kept List.not_mem_nil, h.store.flushTags _ table⟩

theorem fetch (statement : Statement) (timeout : Option Duration) :
    Maintains (Dated serves holds now) (o.fetch statement timeout) :=
  .fetch (fun _ _ h => { h with }) (invalidate inMemory) statement timeout

theorem execute (h : Dated serves holds now s) (p : Plan) (c : CompiledPlan) :
    Dated serves holds now (o.execute p c s).2 :=
  Maintains.execute (fetch inMemory) note p c s h

theorem recover (h : Dated serves holds now s) (p : Plan) (layout : Layout) (e : ExecutionError) :
    Dated serves holds now (o.recover p layout e s).2 :=
  Maintains.recover (fetch inMemory) note follow p layout e s h

/-- Rows that are found in the store are what an entry is read as that has not expired. -/
theorem externalGet (h : Dated serves holds now s) (key : String) :
    Dated serves holds now (o.externalGet key s).2 ∧
      ∀ rows, (o.externalGet key s).1 = some rows →
        ∃ e, holds key e ∧ e.isExpired now = false ∧ Rows.parse? e.text = some rows := by
  rcases inMemory with absent | memory
  · rw [Optimizer.externalGet, absent]
    refine ⟨h, fun rows none => ?_⟩
    cases none
  · obtain ⟨answer, request, store⟩ := Optimizer.externalGet_memory memory key s
    obtain ⟨other, notices, same⟩ := o.externalGet_frame key s
    refine ⟨⟨?_, ?_, ?_⟩, ?_⟩
    · rw [same]
      exact h.clock
    · rw [request]
      exact h.request
    · rw [store]
      exact h.store.get _ key
    · intro rows found
      rw [answer, h.clock, Option.bind_eq_some_iff] at found
      obtain ⟨text, read, parsed⟩ := found
      obtain ⟨e, held, rfl, current⟩ := h.store.get_holds read
      exact ⟨e, held, current, parsed⟩

theorem externalPut (h : Dated serves holds now s) {key : String} {rows : List Row} {ttl : Duration}
    (tags : List String) (held : holds key ⟨Rows.text rows, some (now + ttl.totalNanos)⟩) :
    Dated serves holds now (o.externalPut key rows ttl tags s).2 := by
  rcases inMemory with absent | memory
  · rw [Optimizer.externalPut, absent]
    exact h
  · simp only [Optimizer.externalPut, memory, MemoryStore.ops, run_bind, run_get, run_set]
    refine ⟨h.clock, h.request, h.store.put _ (some ttl) tags ?_⟩
    rw [h.clock]
    exact held

theorem publish (h : Dated serves holds now s) {p : Plan} {pending : Pending} {rows : List Row}
    (kept : ∀ key ttl, pending.cacheAs = some (key, ttl) → serves pending.generation key rows ∧
      holds key ⟨Rows.text rows, some (now + ttl.totalNanos)⟩) :
    Dated serves holds now (o.publish p pending rows s).2 := by
  unfold Optimizer.publish
  cases cached : pending.cacheAs with
  | none => exact h
  | some entry =>
    obtain ⟨key, ttl⟩ := entry
    obtain ⟨served, held⟩ := kept key ttl cached
    exact (h.requestPut served).externalPut inMemory _ held

end Dated

/-- What a run comes to when it has begun with such caches. Rows that it finds in the store go into the
request cache. -/
def Begun.Finds (o : Optimizer ε MemoryStore) (p : Plan) (serves : Nat → String → List Row → Prop)
    (holds : String → StoreEntry → Prop) (now : Clock) (s t : State ε MemoryStore) : Begun → Prop
  | .failed _ => Dated serves holds now t
  | .miss _ => Dated serves holds now t
  | .hit x => ∃ c, p.compile (o.compiler s.memo) = .ok c ∧
      (x.report.cacheHit = some .request ∧ serves s.request.generation (o.keyOf p c) x.rows ∧
        Dated serves holds now t ∨
      x.report.cacheHit = some .external ∧
        (∃ e, holds (o.keyOf p c) e ∧ e.isExpired now = false ∧ Rows.parse? e.text = some x.rows) ∧
        (serves s.request.generation (o.keyOf p c) x.rows → Dated serves holds now t))

theorem Dated.begin {serves : Nat → String → List Row → Prop} {holds : String → StoreEntry → Prop}
    {now : Clock} {s : State ε MemoryStore} (h : Dated serves holds now s)
    {o : Optimizer ε MemoryStore} (inMemory : o.InMemory) (p : Plan) :
    (o.begin p s).1.Finds o p serves holds now s (o.begin p s).2 := by
  have followed : Dated serves holds now (Run.follow (p.trail (o.compiler s.memo)) s).2 :=
    follow _ s h
  cases compiled : p.compile (o.compiler s.memo) with
  | error e =>
    rw [Optimizer.begin_of_error compiled]
    exact followed
  | ok c =>
    rw [Optimizer.begin_of_compiled compiled]
    unfold Optimizer.seek
    cases o.cacheTtl p with
    | none => exact followed
    | some ttl =>
      simp only [run_bind, run_get]
      cases found : (Run.follow (p.trail (o.compiler s.memo)) s).2.request.get? (o.keyOf p c) with
      | some rows =>
        have served := followed.request _ _ (mem_of_lookup found)
        exact ⟨c, compiled, .inl ⟨rfl, served, note .requestHit _ followed⟩⟩
      | none =>
        obtain ⟨kept, stored⟩ := followed.externalGet inMemory (o.keyOf p c)
        simp only [run_bind]
        generalize o.externalGet (o.keyOf p c) (Run.follow (p.trail (o.compiler s.memo)) s).2 = answer
          at kept stored ⊢
        rcases answer with ⟨_ | rows, t⟩
        · exact kept
        · exact ⟨c, compiled, .inr ⟨rfl, stored rows rfl, fun served =>
            (note .externalHit t kept).requestPut served⟩⟩

/-- A run of a plan, and the state that it began in. -/
structure Made (ε : Type) where
  plan : Plan
  before : State ε MemoryStore

/-- Whether a run executed rows to be kept under a key for some time. -/
structure Made.Executed (o : Optimizer ε MemoryStore) (r : Made ε) (key : String) (rows : List Row)
    (ttl : Duration) : Prop where
  cached : o.cacheTtl r.plan = some ttl
  key : ∃ c, r.plan.compile (o.compiler r.before.memo) = .ok c ∧ o.keyOf r.plan c = key
  answer : ∃ x, (o.run r.plan r.before).1 = .ok x ∧ x.rows = rows ∧ x.report.cacheHit = none ∧
    x.report.usedFallback = false

namespace Optimizer

variable (o : Optimizer ε MemoryStore) (past : List (Made ε))

/-- Whether an earlier run executed rows under a key that are not overdue, or that are read like that. -/
def InTime (now : Clock) (key : String) (rows : List Row) : Prop :=
  ∃ r ∈ past, ∃ kept ttl, r.Executed o key kept ttl ∧
    (rows = kept ∨ Rows.parse? (Rows.text kept) = some rows) ∧ now ≤ r.before.clock + ttl.totalNanos

/-- Whether rows were in time for the run, executed or found in the store, that put them into the request
cache in some generation. -/
def Admitted (generation : Nat) (key : String) (rows : List Row) : Prop :=
  ∃ v ∈ past, v.before.request.generation = generation ∧ o.InTime past v.before.clock key rows ∧
    ∃ x, (o.run v.plan v.before).1 = .ok x ∧ x.rows = rows ∧ x.report.cacheHit ≠ some .request

/-- Whether an entry of the store has the rows of an earlier run, and expires when they are overdue. -/
def Shelved (key : String) (e : StoreEntry) : Prop :=
  ∃ r ∈ past, ∃ rows ttl, r.Executed o key rows ttl ∧
    e = ⟨Rows.text rows, some (r.before.clock + ttl.totalNanos)⟩

variable {o past}

theorem InTime.mono {more : List (Made ε)} (subset : past ⊆ more) {now : Clock} {key : String}
    {rows : List Row} (h : o.InTime past now key rows) : o.InTime more now key rows := by
  obtain ⟨r, known, executed⟩ := h
  exact ⟨r, subset known, executed⟩

theorem Admitted.mono {more : List (Made ε)} (subset : past ⊆ more) {generation : Nat} {key : String}
    {rows : List Row} (h : o.Admitted past generation key rows) : o.Admitted more generation key rows := by
  obtain ⟨v, known, current, inTime, answer⟩ := h
  exact ⟨v, subset known, current, inTime.mono subset, answer⟩

theorem Shelved.mono {more : List (Made ε)} (subset : past ⊆ more) {key : String} {e : StoreEntry}
    (h : o.Shelved past key e) : o.Shelved more key e := by
  obtain ⟨r, known, executed⟩ := h
  exact ⟨r, subset known, executed⟩

/-- Rows that are read from an entry before it expires are in time. -/
theorem Shelved.inTime {key : String} {e : StoreEntry} (h : o.Shelved past key e) {now : Clock}
    {rows : List Row} (current : e.isExpired now = false) (parsed : Rows.parse? e.text = some rows) :
    o.InTime past now key rows := by
  obtain ⟨r, known, kept, ttl, executed, rfl⟩ := h
  exact ⟨r, known, kept, ttl, executed, .inr parsed, MemoryStore.not_isExpired_iff.mp current⟩

end Optimizer

open Optimizer in
/-- A run leaves caches that are accounted for by it and the runs before it. -/
theorem Dated.run {o : Optimizer ε MemoryStore} (inMemory : o.InMemory) {past : List (Made ε)}
    {s : State ε MemoryStore} (h : Dated (o.Admitted past) (o.Shelved past) s.clock s) (p : Plan) :
    Dated (o.Admitted (⟨p, s⟩ :: past)) (o.Shelved (⟨p, s⟩ :: past)) s.clock (o.run p s).2 := by
  have h : Dated (o.Admitted (⟨p, s⟩ :: past)) (o.Shelved (⟨p, s⟩ :: past)) s.clock s :=
    h.mono (fun _ _ _ => .mono (List.subset_cons_self _ _)) fun _ _ => .mono (List.subset_cons_self _ _)
  have finds := h.begin inMemory p
  cases begun : (o.begin p s).1 with
  | failed e =>
    rw [begun] at finds
    rw [run_of_failed begun]
    exact finds
  | hit x =>
    rw [begun] at finds
    rw [run_of_hit begun]
    obtain ⟨c, -, ⟨-, -, dated⟩ | ⟨tier, ⟨e, held, current, parsed⟩, dated⟩⟩ := finds
    · exact dated
    · apply dated
      refine ⟨⟨p, s⟩, List.mem_cons_self, rfl, held.inTime current parsed, x, ?_, rfl, ?_⟩
      · rw [run_of_hit begun]
      · rw [tier]
        exact nofun
  | miss pending =>
    rw [begun] at finds
    obtain ⟨c, compiles, -, rfl⟩ := begin_eq_miss_iff.mp begun
    have left := Dated.execute inMemory finds p c
    cases executed : (o.execute p c (o.begin p s).2).1 with
    | error e =>
      rw [run_of_unexecuted begun executed]
      exact left.recover inMemory p _ e
    | ok found =>
      obtain ⟨rows, report⟩ := found
      have answer := run_of_executed begun executed
      have first := report_of_executed executed
      rw [answer]
      refine left.publish inMemory fun key ttl cached => ?_
      obtain ⟨ttl', known, same⟩ := Option.map_eq_some_iff.mp cached
      obtain ⟨rfl, rfl⟩ := Prod.mk.inj same
      have made : Made.Executed o ⟨p, s⟩ (o.keyOf p c) rows ttl' :=
        ⟨known, ⟨c, compiles, rfl⟩, _, congrArg Prod.fst answer, rfl, first⟩
      have here : (⟨p, s⟩ : Made ε) ∈ ⟨p, s⟩ :: past := List.mem_cons_self
      refine ⟨⟨⟨p, s⟩, here, rfl, ?_, _, congrArg Prod.fst answer, rfl, ?_⟩, ?_⟩
      · exact ⟨⟨p, s⟩, here, rows, ttl', made, .inl rfl, Nat.le_add_right _ _⟩
      · rw [first.1]
        exact nofun
      · exact ⟨⟨p, s⟩, here, rows, ttl', made, rfl⟩

namespace Optimizer

/-- The runs that were made from a state on, the latest one first, and the state that they have left. Time
passes between them and never goes back. -/
inductive History (o : Optimizer ε MemoryStore) (start : State ε MemoryStore) :
    List (Made ε) → State ε MemoryStore → Prop
  | start : History o start [] start
  | run {past s} (earlier : History o start past s) {now : Clock} (later : s.clock ≤ now) (p : Plan) :
      History o start (⟨p, { s with clock := now }⟩ :: past) (o.run p { s with clock := now }).2

/-- Whether rows from a cache are never overdue. -/
def NeverOverdue (o : Optimizer ε MemoryStore) (start : State ε MemoryStore) : Prop :=
  ∀ past s, o.History start past s → ∀ now, s.clock ≤ now → ∀ p x,
    (o.run p { s with clock := now }).1 = .ok x → x.report.cacheHit.isSome = true →
      ∃ key, o.InTime past now key x.rows

variable {o : Optimizer ε MemoryStore} {start s : State ε MemoryStore} {past : List (Made ε)}

theorem History.dated (inMemory : o.InMemory) (request : start.request.entries = [])
    (store : start.store.entries = []) (history : o.History start past s) :
    Dated (o.Admitted past) (o.Shelved past) s.clock s := by
  induction history with
  | start =>
    refine ⟨rfl, fun key rows kept => ?_, fun key e kept => ?_⟩
    · rw [request] at kept
      exact absurd kept List.not_mem_nil
    · rw [store] at kept
      exact absurd kept List.not_mem_nil
  | @run past s _ now _ p ih =>
    have dated : Dated (o.Admitted past) (o.Shelved past) now { s with clock := now } :=
      { ih with clock := rfl }
    have left := Dated.run (s := { s with clock := now }) inMemory dated p
    exact { left with clock := rfl }

/-- Rows that are found in the store are not overdue. Rows that are found in the request cache were not when
they came into it in its present generation, however long ago that is. -/
theorem hits_in_time (inMemory : o.InMemory) (request : start.request.entries = [])
    (store : start.store.entries = []) (history : o.History start past s) (now : Clock) {p : Plan}
    {x : Execution} (answered : (o.run p { s with clock := now }).1 = .ok x) {tier : CacheTier}
    (hit : x.report.cacheHit = some tier) :
    ∃ c, p.compile (o.compiler s.memo) = .ok c ∧
      match tier with
      | .external => o.InTime past now (o.keyOf p c) x.rows
      | .request => o.Admitted past s.request.generation (o.keyOf p c) x.rows := by
  have dated : Dated (o.Admitted past) (o.Shelved past) now { s with clock := now } :=
    { history.dated inMemory request store with clock := rfl }
  have finds := dated.begin inMemory p
  rw [begin_of_cacheHit answered (Option.isSome_of_eq_some hit)] at finds
  obtain ⟨c, compiles, ⟨found, served, -⟩ | ⟨found, ⟨e, held, current, parsed⟩, -⟩⟩ := finds
  · obtain rfl := Option.some.inj (hit.symm.trans found)
    exact ⟨c, compiles, served⟩
  · obtain rfl := Option.some.inj (hit.symm.trans found)
    exact ⟨c, compiles, held.inTime current parsed⟩

/-- Rows that the request cache has are found there. -/
theorem seek_requested {o : Optimizer ε σ} {p : Plan} {c : CompiledPlan} {s : State ε σ}
    {rows : List Row} (cached : (o.cacheTtl p).isSome = true)
    (found : s.request.get? (o.keyOf p c) = some rows) :
    (o.seek p c s).1 = .hit (hitReport .request c rows) := by
  obtain ⟨ttl, known⟩ := Option.isSome_iff_exists.mp cached
  simp only [seek, known, run_bind, run_get, found]
  rfl

end Optimizer

namespace Newsroom

def opening : State (List Row) MemoryStore := { executor := before, store := {} }

/-- One nanosecond after the rows of the first run are overdue. -/
def overdue : Clock := 60000000001

theorem first_made : optimizer.History opening [⟨articles, opening⟩] (optimizer.run articles opening).2 :=
  .run .start (Nat.le_refl 0) articles

theorem found_overdue : (optimizer.run articles
    { (optimizer.run articles opening).2 with clock := overdue }).1 =
      .ok (Optimizer.hitReport .request compiled before) := by
  have hit : (optimizer.begin articles { (optimizer.run articles opening).2 with clock := overdue }).1 =
      .hit (Optimizer.hitReport .request compiled before) := by
    rw [Optimizer.begin_of_compiled (compiles _)]
    refine Optimizer.seek_requested rfl ?_
    rw [opening, run_eq]
    exact List.lookup_cons_self
  rw [Optimizer.run_of_hit hit]

end Newsroom

open Newsroom in
theorem Optimizer.hits_in_time_newsroom :
    optimizer.InMemory ∧ opening.request.entries = [] ∧ opening.store.entries = [] ∧
      optimizer.History opening [⟨articles, opening⟩] (optimizer.run articles opening).2 ∧
      (optimizer.run articles { (optimizer.run articles opening).2 with clock := overdue }).1 =
        .ok (Optimizer.hitReport .request compiled before) ∧
      ∃ c, articles.compile (optimizer.compiler (optimizer.run articles opening).2.memo) = .ok c ∧
        optimizer.Admitted [⟨articles, opening⟩] (optimizer.run articles opening).2.request.generation
          (optimizer.keyOf articles c) before :=
  ⟨.inr rfl, rfl, rfl, first_made, found_overdue,
    hits_in_time (.inr rfl) rfl rfl first_made overdue found_overdue rfl⟩

open Newsroom in
/-- The rows of the first run are still found in the request cache. -/
theorem Optimizer.not_neverOverdue_newsroom : ¬ optimizer.NeverOverdue opening := by
  intro never
  obtain ⟨key, r, known, kept, ttl, executed, -, inTime⟩ :=
    never _ _ first_made overdue (Nat.zero_le _) articles _ found_overdue rfl
  obtain rfl := List.mem_singleton.mp known
  obtain rfl : Duration.ofMillis 60000 = ttl := Option.some.inj executed.cached
  exact absurd inTime (by decide)

end EagerLoad
