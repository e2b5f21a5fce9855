import EagerLoad.Proofs.Run.Caches

/-! # What both caches hold

Something may hold of all rows in the request cache, and something of all texts in the store with a tag
that they are registered under. It goes on to hold if it holds of what is published and if texts in the
store are read as rows of which it holds, since a hit in the store fills the request cache. -/
namespace EagerLoad

/-- Whether an optimizer has no store but the memory store. -/
def Optimizer.InMemory (o : Optimizer ε MemoryStore) : Prop :=
  o.store = none ∨ o.store = some MemoryStore.ops

/-- The key under which a compiled plan is cached. -/
def Optimizer.keyOf (o : Optimizer ε σ) (p : Plan) (compiled : CompiledPlan) : String :=
  CacheKey.derive o.config.cacheNamespace p compiled.query.base

/-- Reading the memory store finds what its text is read as, and leaves the request cache as it is. -/
theorem Optimizer.externalGet_memory {o : Optimizer ε MemoryStore}
    (memory : o.store = some MemoryStore.ops) (key : String) (s : State ε MemoryStore) :
    (o.externalGet key s).1 = (s.store.get s.clock key).1.bind Rows.parse? ∧
      (o.externalGet key s).2.request = s.request ∧
      (o.externalGet key s).2.store = (s.store.get s.clock key).2 := by
  simp only [externalGet, memory, MemoryStore.ops, run_bind, run_get, run_set]
  generalize s.store.get s.clock key = read
  obtain ⟨_ | text, store⟩ := read
  · exact ⟨rfl, rfl, rfl⟩
  · cases parsed : Rows.parse? text with
    | none =>
      simp only [Option.bind_some, parsed]
      exact ⟨rfl, rfl, rfl⟩
    | some rows =>
      simp only [Option.bind_some, parsed]
      exact ⟨rfl, rfl, rfl⟩

structure Cached (serves : String → List Row → Prop) (stores : String → String → String → Prop)
    (s : State ε MemoryStore) : Prop where
  request : ∀ key rows, (key, rows) ∈ s.request.entries → serves key rows
  store : s.store.Backed stores

/-- Writing a store changes nothing else, but may give a notice. -/
theorem Optimizer.externalPut_frame (o : Optimizer ε σ) (key : String) (rows : List Row)
    (ttl : Duration) (tags : List String) (s : State ε σ) :
    ∃ store notices, (o.externalPut key rows ttl tags s).2 = { s with store, notices } := by
  unfold externalPut
  cases o.store with
  | none => exact ⟨_, _, rfl⟩
  | some ops =>
    obtain ⟨read, put, flushTags, flush⟩ := ops
    simp only [run_bind, run_get, run_set]
    generalize put s.clock key (Rows.text rows) (some ttl) tags s.store = answer
    obtain ⟨_ | _, store⟩ := answer <;> exact ⟨_, _, rfl⟩

/-- Reading a store changes nothing else, but may give a notice. -/
theorem Optimizer.externalGet_frame (o : Optimizer ε σ) (key : String) (s : State ε σ) :
    ∃ store notices, (o.externalGet key s).2 = { s with store, notices } := by
  unfold externalGet
  cases o.store with
  | none => exact ⟨_, _, rfl⟩
  | some ops =>
    obtain ⟨read, put, flushTags, flush⟩ := ops
    simp only [run_bind, run_get, run_set]
    generalize read s.clock key s.store = answer
    obtain ⟨_ | _ | text, store⟩ := answer
    · exact ⟨_, _, rfl⟩
    · exact ⟨_, _, rfl⟩
    · cases parsed : Rows.parse? text <;> simp only [parsed] <;> exact ⟨_, _, rfl⟩

namespace Cached

variable {serves : String → List Row → Prop} {stores : String → String → String → Prop}
  {s s' : State ε MemoryStore}

theorem mono {servesMore : String → List Row → Prop} {storesMore : String → String → String → Prop}
    (h : Cached serves stores s) (served : ∀ key rows, serves key rows → servesMore key rows)
    (stored : ∀ tag key text, stores tag key text → storesMore tag key text) :
    Cached servesMore storesMore s :=
  ⟨fun key rows kept => served key rows (h.request key rows kept), h.store.mono stored⟩

theorem of_same (h : Cached serves stores s) (request : s'.request = s.request)
    (store : s'.store = s.store) : Cached serves stores s' :=
  ⟨by rw [request]; exact h.request, by rw [store]; exact h.store⟩

theorem of_keeps {x : Run ε MemoryStore α} (h : Cached serves stores s) (keeps : Keeps x) :
    Cached serves stores (x s).2 :=
  h.of_same (keeps s).1 (keeps s).2

/-- Rows kept in the request cache must be served rightly if their generation is the current one. -/
theorem requestPut (h : Cached serves stores s) {key : String} {rows : List Row} {generation : Nat}
    (served : generation = s.request.generation → serves key rows) :
    Cached serves stores (Optimizer.requestPut key rows generation s).2 := by
  refine ⟨fun k kept listed => ?_, h.store⟩
  simp only [Optimizer.requestPut, run_modify, RequestCache.put] at listed
  split at listed
  · rename_i current
    obtain written | earlier := mem_upsert listed
    · obtain ⟨rfl, rfl⟩ := Prod.mk.inj written
      exact served current
    · exact h.request k kept earlier
  · exact h.request k kept listed

theorem request_get (h : Cached serves stores s) {key : String} {rows : List Row}
    (found : s.request.get? key = some rows) : serves key rows :=
  h.request key rows (mem_of_lookup found)

variable {o : Optimizer ε MemoryStore} (inMemory : o.InMemory)
include inMemory

theorem externalGet (h : Cached serves stores s) (key : String) :
    Cached serves stores (o.externalGet key s).2 := by
  obtain absent | memory := inMemory
  · rw [Optimizer.externalGet, absent]
    exact h
  · obtain ⟨-, request, store⟩ := Optimizer.externalGet_memory memory key s
    exact ⟨by rw [request]; exact h.request, by rw [store]; exact h.store.get s.clock key⟩

/-- Rows found in the store are what one of its texts is read as. -/
theorem externalGet_found (h : Cached serves stores s) {key : String} {rows : List Row}
    (found : (o.externalGet key s).1 = some rows) :
    o.store.isSome ∧ ∃ tag text, stores tag key text ∧ Rows.parse? text = some rows := by
  obtain absent | memory := inMemory
  · rw [Optimizer.externalGet, absent] at found
    exact nomatch found
  · obtain ⟨answer, -, -⟩ := Optimizer.externalGet_memory memory key s
    rw [answer, Option.bind_eq_some_iff] at found
    obtain ⟨text, read, parsed⟩ := found
    obtain ⟨tag, held⟩ := h.store.get_holds read
    exact ⟨by rw [memory]; rfl, tag, text, held, parsed⟩

theorem externalPut (h : Cached serves stores s) {key : String} {rows : List Row} (ttl : Duration)
    {tag : String} {tags : List String} (listed : tag ∈ tags) (held : stores tag key (Rows.text rows)) :
    Cached serves stores (o.externalPut key rows ttl tags s).2 := by
  obtain absent | memory := inMemory
  · rw [Optimizer.externalPut, absent]
    exact h
  · simp only [Optimizer.externalPut, memory, MemoryStore.ops, run_bind, run_get, run_set]
    exact ⟨h.request, h.store.put s.clock (some ttl) listed held⟩

/-- A run publishes its rows under one of its tags, and in the request cache only if no clear came in
between. -/
theorem publish (h : Cached serves stores s) {p : Plan} {pending : Pending} {rows : List Row}
    {tag : String} (listed : tag ∈ Optimizer.cacheTags p)
    (served : ∀ key ttl, pending.cacheAs = some (key, ttl) →
      pending.generation = s.request.generation → serves key rows)
    (stored : ∀ key ttl, pending.cacheAs = some (key, ttl) → stores tag key (Rows.text rows)) :
    Cached serves stores (o.publish p pending rows s).2 := by
  unfold Optimizer.publish
  cases cached : pending.cacheAs with
  | none => exact h
  | some entry =>
    obtain ⟨key, ttl⟩ := entry
    exact (h.requestPut (served key ttl cached)).externalPut inMemory ttl listed
      (stored key ttl cached)

/-- An invalidation leaves nothing in the request cache, and in the store only what is registered under
another tag. -/
theorem invalidate (h : Cached serves stores s) (table : String) :
    Cached (fun _ _ => False)
      (fun tag key text => (o.store.isSome → tag ≠ table) ∧ stores tag key text)
      (o.invalidate table s).2 := by
  obtain absent | memory := inMemory
  · simp only [Optimizer.invalidate, absent, run_bind, run_modify]
    refine ⟨fun key rows kept => (List.not_mem_nil kept).elim, ?_⟩
    exact h.store.mono fun tag key text held => ⟨by simp, held⟩
  · simp only [Optimizer.invalidate, memory, MemoryStore.ops, run_bind, run_modify, run_get, run_set]
    refine ⟨fun key rows kept => (List.not_mem_nil kept).elim, ?_⟩
    exact (h.store.flushTags s.clock table).mono fun tag key text both => ⟨fun _ => both.1, both.2⟩

end Cached

theorem Optimizer.exists_mem_cacheTags (p : Plan) : ∃ tag, tag ∈ cacheTags p := by
  unfold cacheTags
  split
  · exact ⟨p.table, List.mem_singleton_self _⟩
  · rename_i some
    rw [List.isEmpty_iff] at some
    exact List.exists_mem_of_ne_nil _ some

/-- The memory store never refuses, so every notification tells the observers. -/
theorem Optimizer.notify_eq {o : Optimizer ε MemoryStore} (inMemory : o.InMemory)
    (observers : List (Observer ω)) (e : ModelEvent) (seen : ω) (s : State ε MemoryStore) :
    (o.notify observers e seen s).2 =
      (Run.noteAll (dispatch e observers seen).2 (o.invalidate e.table s).2).2 := by
  have flushed : (o.invalidate e.table s).1 = .ok () := by
    obtain absent | memory := inMemory
    · rw [invalidate, absent]
      rfl
    · simp only [invalidate, memory, MemoryStore.ops, run_bind, run_modify, run_get, run_set]
      rfl
  rw [notify, run_bind, flushed]
  rfl

theorem Cached.notify {serves : String → List Row → Prop} {stores : String → String → String → Prop}
    {s : State ε MemoryStore} {o : Optimizer ε MemoryStore} (h : Cached serves stores s)
    (inMemory : o.InMemory) (observers : List (Observer ω)) (e : ModelEvent) (seen : ω) :
    Cached (fun _ _ => False)
      (fun tag key text => (o.store.isSome → tag ≠ e.table) ∧ stores tag key text)
      (o.notify observers e seen s).2 := by
  rw [Optimizer.notify_eq inMemory]
  exact (h.invalidate inMemory e.table).of_keeps (.noteAll _)

/-- What a beginning run may have come to: its plan does not compile, or rows served under its key are
found, or else the run goes on in the present generation. -/
def Begun.Fits (o : Optimizer ε σ) (p : Plan) (serves : String → List Row → Prop)
    (s : State ε σ) : Begun → Prop
  | .failed e => p.compile (o.compiler s.memo) = .error e
  | .hit x => ∃ compiled, p.compile (o.compiler s.memo) = .ok compiled ∧
      (o.cacheTtl p).isSome ∧ x.layout = compiled.layout ∧ serves (o.keyOf p compiled) x.rows
  | .miss pending => p.compile (o.compiler s.memo) = .ok pending.compiled ∧
      pending.cacheAs = (o.cacheTtl p).map (fun ttl => (o.keyOf p pending.compiled, ttl)) ∧
      pending.generation = s.request.generation

namespace Optimizer

/-- The lookup of a compiled plan in both caches. -/
def seek (o : Optimizer ε σ) (p : Plan) (compiled : CompiledPlan) : Run ε σ Begun := do
  let generation := (← get).request.generation
  match o.cacheTtl p with
  | none => return .miss ⟨compiled, none, generation⟩
  | some ttl =>
    match (← get).request.get? (o.keyOf p compiled) with
    | some rows =>
      Run.note .requestHit
      return .hit (hitReport .request compiled rows)
    | none =>
      match ← o.externalGet (o.keyOf p compiled) with
      | some rows =>
        Run.note .externalHit
        requestPut (o.keyOf p compiled) rows generation
        return .hit (hitReport .external compiled rows)
      | none => return .miss ⟨compiled, some (o.keyOf p compiled, ttl), generation⟩

theorem begin_of_error {o : Optimizer ε σ} {p : Plan} {s : State ε σ} {e : CompileError}
    (failed : p.compile (o.compiler s.memo) = .error e) :
    o.begin p s = (.failed e, (Run.follow (p.trail (o.compiler s.memo)) s).2) := by
  simp only [begin, compile, run_bind, run_get]
  rw [failed]
  rfl

theorem begin_of_compiled {o : Optimizer ε σ} {p : Plan} {s : State ε σ} {c : CompiledPlan}
    (compiled : p.compile (o.compiler s.memo) = .ok c) :
    o.begin p s = o.seek p c (Run.follow (p.trail (o.compiler s.memo)) s).2 := by
  simp only [begin, compile, run_bind, run_get]
  rw [compiled]
  cases ttl : o.cacheTtl p with
  | none =>
    simp only [seek, ttl]
    rfl
  | some ttl' =>
    simp only [seek, ttl]
    rfl

section Runs

variable {o : Optimizer ε σ} {p : Plan} {s : State ε σ}

theorem run_of_failed {e : CompileError} (begun : (o.begin p s).1 = .failed e) :
    o.run p s = (.error (.compile e), (o.begin p s).2) := by
  rw [run, run_bind, begun]
  rfl

theorem run_of_hit {x : Execution} (begun : (o.begin p s).1 = .hit x) :
    o.run p s = (.ok x, (o.begin p s).2) := by
  rw [run, run_bind, begun]
  rfl

variable {pending : Pending} (begun : (o.begin p s).1 = .miss pending)
include begun

/-- Without a hit the plan is executed and its rows are published. -/
theorem run_of_executed {rows : List Row} {report : Report}
    (executed : (o.execute p pending.compiled (o.begin p s).2).1 = .ok (rows, report)) :
    o.run p s =
      (.ok ⟨rows, pending.compiled.layout,
        { report with subqueries := pending.compiled.subqueries, rows := rows.length }⟩,
        (o.publish p pending rows (o.execute p pending.compiled (o.begin p s).2).2).2) := by
  rw [run, run_bind, begun]
  simp only [run_bind, executed]
  rfl

theorem run_of_unexecuted {e : ExecutionError}
    (executed : (o.execute p pending.compiled (o.begin p s).2).1 = .error e) :
    o.run p s = o.recover p pending.compiled.layout e
      (o.execute p pending.compiled (o.begin p s).2).2 := by
  rw [run, run_bind, begun]
  simp only [run_bind, executed]

end Runs

/-- A lookup remembers nothing but rows. -/
theorem seek_memo (o : Optimizer ε σ) (p : Plan) (c : CompiledPlan) (s : State ε σ) :
    (o.seek p c s).2.memo = s.memo := by
  unfold seek
  cases o.cacheTtl p with
  | none => rfl
  | some ttl =>
    obtain ⟨store, notices, same⟩ := o.externalGet_frame (o.keyOf p c) s
    simp only [run_bind, run_get]
    cases s.request.get? (o.keyOf p c) with
    | some rows => rfl
    | none =>
      simp only [run_bind, same]
      cases (o.externalGet (o.keyOf p c) s).1 <;> rfl

theorem begin_memo (o : Optimizer ε σ) (p : Plan) (s : State ε σ) :
    (o.begin p s).2.memo = (Run.follow (p.trail (o.compiler s.memo)) s).2.memo := by
  cases compiled : p.compile (o.compiler s.memo) with
  | error e => rw [begin_of_error compiled]
  | ok c => rw [begin_of_compiled compiled, seek_memo]

theorem publish_memo (o : Optimizer ε σ) (p : Plan) (pending : Pending) (rows : List Row)
    (s : State ε σ) : (o.publish p pending rows s).2.memo = s.memo := by
  unfold publish
  cases pending.cacheAs with
  | none => rfl
  | some entry =>
    obtain ⟨key, ttl⟩ := entry
    obtain ⟨store, notices, same⟩ := o.externalPut_frame key rows ttl (cacheTags p)
      (requestPut key rows pending.generation s).2
    have kept := congrArg State.memo same
    exact kept

theorem requestPut_generation (key : String) (rows : List Row) (generation : Nat) (s : State ε σ) :
    (requestPut key rows generation s).2.request.generation = s.request.generation := by
  simp only [requestPut, run_modify, RequestCache.put]
  split <;> rfl

theorem publish_generation (o : Optimizer ε σ) (p : Plan) (pending : Pending) (rows : List Row)
    (s : State ε σ) :
    (o.publish p pending rows s).2.request.generation = s.request.generation := by
  unfold publish
  cases pending.cacheAs with
  | none => rfl
  | some entry =>
    obtain ⟨key, ttl⟩ := entry
    obtain ⟨store, notices, same⟩ := o.externalPut_frame key rows ttl (cacheTags p)
      (requestPut key rows pending.generation s).2
    exact (congrArg (·.request.generation) same).trans
      (requestPut_generation key rows pending.generation s)

theorem invalidate_generation (o : Optimizer ε σ) (table : String) (s : State ε σ) :
    (o.invalidate table s).2.request.generation = s.request.generation + 1 := by
  unfold invalidate
  cases o.store with
  | none => rfl
  | some ops =>
    simp only [run_bind, run_modify, run_get, run_set]
    cases (ops.flushTags s.clock [table] s.store).1 <;> rfl

theorem notify_generation {o : Optimizer ε MemoryStore} (inMemory : o.InMemory)
    (observers : List (Observer ω)) (e : ModelEvent) (seen : ω) (s : State ε MemoryStore) :
    (o.notify observers e seen s).2.request.generation = s.request.generation + 1 := by
  rw [notify_eq inMemory]
  exact o.invalidate_generation e.table s

end Optimizer

namespace Cached

variable {serves : String → List Row → Prop} {stores : String → String → String → Prop}
  {s : State ε MemoryStore} {o : Optimizer ε MemoryStore} (inMemory : o.InMemory)
  (read : o.store.isSome → ∀ tag key text rows, stores tag key text →
    Rows.parse? text = some rows → serves key rows)
include inMemory read

/-- Rows that are found are served rightly, also when they are found in the store and then kept in the
request cache. -/
theorem seek (h : Cached serves stores s) (p : Plan) (c : CompiledPlan) :
    Cached serves stores (o.seek p c s).2 ∧
      (o.seek p c s).2.request.generation = s.request.generation ∧
      ((o.seek p c s).1 = .miss ⟨c, (o.cacheTtl p).map fun ttl => (o.keyOf p c, ttl),
          s.request.generation⟩ ∨
        ∃ x, (o.seek p c s).1 = .hit x ∧ (o.cacheTtl p).isSome ∧ x.layout = c.layout ∧
          serves (o.keyOf p c) x.rows) := by
  unfold Optimizer.seek
  cases ttl : o.cacheTtl p with
  | none => exact ⟨h, rfl, .inl rfl⟩
  | some ttl' =>
    cases found : s.request.get? (o.keyOf p c) with
    | some rows =>
      simp only [run_bind, run_get, found]
      exact ⟨h.of_keeps (.bind (.note _) fun _ => .pure _), rfl,
        .inr ⟨_, rfl, rfl, rfl, h.request_get found⟩⟩
    | none =>
      have kept := h.externalGet inMemory (o.keyOf p c)
      have request : (o.externalGet (o.keyOf p c) s).2.request = s.request := by
        obtain ⟨store, notices, same⟩ := o.externalGet_frame (o.keyOf p c) s
        rw [same]
      cases stored : (o.externalGet (o.keyOf p c) s).1 with
      | none =>
        simp only [run_bind, run_get, found, stored]
        exact ⟨kept, by rw [← request]; rfl, .inl rfl⟩
      | some rows =>
        obtain ⟨storing, tag, text, held, parsed⟩ := h.externalGet_found inMemory stored
        have served := read storing tag _ text rows held parsed
        simp only [run_bind, run_get, found, stored]
        refine ⟨(kept.of_keeps (.note .externalHit)).requestPut fun _ => served, ?_,
          .inr ⟨_, rfl, rfl, rfl, served⟩⟩
        exact (Optimizer.requestPut_generation _ _ _ _).trans
          (congrArg RequestCache.generation request)

/-- What a beginning run comes to, and that both caches still hold what they should. -/
theorem begin (h : Cached serves stores s) (p : Plan) :
    Cached serves stores (o.begin p s).2 ∧
      (o.begin p s).2.request.generation = s.request.generation ∧
      (o.begin p s).1.Fits o p serves s := by
  have followed : Cached serves stores (Run.follow (p.trail (o.compiler s.memo)) s).2 :=
    h.of_keeps (.follow _)
  cases compiled : p.compile (o.compiler s.memo) with
  | error e =>
    rw [Optimizer.begin_of_error compiled]
    exact ⟨followed, rfl, compiled⟩
  | ok c =>
    rw [Optimizer.begin_of_compiled compiled]
    obtain ⟨kept, generation, missed | ⟨x, found, cached, layout, served⟩⟩ :=
      followed.seek inMemory read p c
    · refine ⟨kept, generation, ?_⟩
      rw [missed]
      exact ⟨compiled, rfl, rfl⟩
    · refine ⟨kept, generation, ?_⟩
      rw [found]
      exact ⟨c, compiled, cached, layout, served⟩

end Cached

namespace Optimizer

/-- Nothing is found in empty caches. -/
theorem seek_empty {o : Optimizer ε MemoryStore} (memory : o.store = some MemoryStore.ops) {p : Plan}
    {c : CompiledPlan} {ttl : Duration} {s : State ε MemoryStore} (cached : o.cacheTtl p = some ttl)
    (request : s.request = {}) (store : s.store = {}) :
    o.seek p c s = (.miss ⟨c, some (o.keyOf p c, ttl), 0⟩, s) := by
  have missing : s.request.get? (o.keyOf p c) = none := by
    rw [request]
    rfl
  have unread : s.store.get s.clock (o.keyOf p c) = (none, s.store) := by
    rw [store]
    rfl
  simp only [seek, cached, run_bind, run_get, missing, externalGet, memory, MemoryStore.ops, unread,
    run_set, congrArg RequestCache.generation request]
  rfl

/-- A text that the store has is found as soon as the request cache does not have the key. -/
theorem seek_stored {o : Optimizer ε MemoryStore} (memory : o.store = some MemoryStore.ops)
    {p : Plan} {c : CompiledPlan} {ttl : Duration} {s : State ε MemoryStore} {text : String}
    {rows : List Row} (cached : o.cacheTtl p = some ttl) (request : s.request.entries = [])
    (stored : (s.store.get s.clock (o.keyOf p c)).1 = some text)
    (parsed : Rows.parse? text = some rows) :
    (o.seek p c s).1 = .hit (hitReport .external c rows) := by
  have missing : s.request.get? (o.keyOf p c) = none := by
    rw [RequestCache.get?, request]
    rfl
  have found : (o.externalGet (o.keyOf p c) s).1 = some rows := by
    rw [(externalGet_memory memory (o.keyOf p c) s).1, stored]
    exact parsed
  simp only [seek, cached, run_bind, run_get, missing, found]
  rfl

end Optimizer

end EagerLoad
