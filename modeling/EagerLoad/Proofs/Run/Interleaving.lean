import EagerLoad.Proofs.Cache.Key
import EagerLoad.Proofs.Plan.Split
import EagerLoad.Proofs.Run.Cached

/-! # Interleaved runs and invalidations

Many runs may be under way at once. Each takes three steps: it begins by looking into both caches, it has
its statements executed, and it publishes its rows. In between, tables are written to, observers are
notified, and time passes. A world records when each of this happened. -/
namespace EagerLoad

/-- A run that has to execute, and its rows with the moment of their execution as soon as it has them. -/
structure Flight where
  plan : Plan
  pending : Pending
  begun : Nat
  result : Option (List Row × Nat) := none

structure Publication where
  plan : Plan
  compiled : CompiledPlan
  rows : List Row
  begun : Nat
  executed : Nat
  published : Nat

/-- Everything that happens takes one moment. Writes and completed notifications are recorded with their
table and their moment. -/
structure World (δ ω : Type) where
  state : State δ MemoryStore
  observed : ω
  now : Nat := 0
  flights : List Flight := []
  publications : List Publication := []
  written : List (String × Nat) := []
  notified : List (String × Nat) := []

/-- What may happen next, in any order. Runs under way are named by their place. -/
inductive Event (δ : Type) where
  | begin (p : Plan)
  | execute (place : Nat)
  | publish (place : Nat)
  | write (table : String) (change : δ → δ)
  | notify (e : ModelEvent)
  | wait (time : Nat)

namespace World

section Steps

variable (o : Optimizer δ MemoryStore) (observers : List (Observer ω)) (w : World δ ω)

def start (database : δ) (observed : ω) : World δ ω :=
  { state := { executor := database, store := {} }, observed }

def begin (p : Plan) : World δ ω :=
  match (o.begin p w.state).1 with
  | .miss pending =>
    { w with
      state := (o.begin p w.state).2
      flights := w.flights ++ [⟨p, pending, w.now, none⟩] }
  | _ => { w with state := (o.begin p w.state).2 }

/-- A run whose execution fails goes on to recover from it, and publishes nothing. -/
def execute (place : Nat) : World δ ω :=
  match w.flights[place]? with
  | some ⟨p, pending, begun, none⟩ =>
    match (o.execute p pending.compiled w.state).1 with
    | .ok (rows, _) =>
      { w with
        state := (o.execute p pending.compiled w.state).2
        flights := w.flights.set place ⟨p, pending, begun, some (rows, w.now)⟩ }
    | .error e =>
      { w with
        state := (o.recover p pending.compiled.layout e (o.execute p pending.compiled w.state).2).2
        flights := w.flights.eraseIdx place }
  | _ => w

def publish (place : Nat) : World δ ω :=
  match w.flights[place]? with
  | some ⟨p, pending, begun, some (rows, executed)⟩ =>
    { w with
      state := (o.publish p pending rows w.state).2
      flights := w.flights.eraseIdx place
      publications := if pending.cacheAs.isSome then
        ⟨p, pending.compiled, rows, begun, executed, w.now⟩ :: w.publications else w.publications }
  | _ => w

def write (table : String) (change : δ → δ) : World δ ω :=
  { w with
    state := { w.state with executor := change w.state.executor }
    written := (table, w.now) :: w.written }

def notify (e : ModelEvent) : World δ ω :=
  { w with
    state := (o.notify observers e w.observed w.state).2
    observed := (o.notify observers e w.observed w.state).1.2
    notified := (e.table, w.now) :: w.notified }

def wait (time : Nat) : World δ ω :=
  { w with state := { w.state with clock := w.state.clock + time } }

def happen : Event δ → World δ ω
  | .begin p => w.begin o p
  | .execute place => w.execute o place
  | .publish place => w.publish o place
  | .write table change => w.write table change
  | .notify e => w.notify o observers e
  | .wait time => w.wait time

def step (e : Event δ) : World δ ω :=
  { w.happen o observers e with now := w.now + 1 }

def run (events : List (Event δ)) : World δ ω := events.foldl (step o observers) w

end Steps
end World

/-- Whether a beginning run is to be cached under the tag of its own table, as it is by default. -/
def Event.Tagged : Event δ → Prop
  | .begin p => p.table ∈ Optimizer.cacheTags p
  | _ => True

theorem Event.tagged_of_default {p : Plan} (h : p.cache.tags = []) : (Event.begin p : Event δ).Tagged := by
  simp [Event.Tagged, Optimizer.cacheTags, h]

namespace World

variable {o : Optimizer δ MemoryStore} {observers : List (Observer ω)} {w : World δ ω}

/-- Without anything in between, the three steps of a run leave the caches as the run does. -/
theorem run_uninterrupted {p : Plan} {pending : Pending} {rows : List Row} {report : Report}
    (begun : (o.begin p w.state).1 = .miss pending)
    (answered : (o.execute p pending.compiled (o.begin p w.state).2).1 = .ok (rows, report)) :
    (o.run p w.state).2 =
      (w.run o observers
        [.begin p, .execute w.flights.length, .publish w.flights.length]).state := by
  have begin_eq : w.begin o p =
      { w with
        state := (o.begin p w.state).2
        flights := w.flights ++ [⟨p, pending, w.now, none⟩] } := by
    simp only [World.begin, begun]
  rw [Optimizer.run_of_executed begun answered]
  simp [run, step, happen, begin_eq, execute, publish, answered]

end World

/-- Whether rows were executed after every notification for their table, those apart that came while
their run was under way: a store takes the rows of such a run nevertheless. -/
def Publication.Current (o : Optimizer ε σ) (notified : List (String × Nat)) (q : Publication) : Prop :=
  ∀ n ∈ notified, n.1 = q.plan.table →
    n.2 < q.executed ∨ (o.store.isSome = true ∧ q.begun ≤ n.2 ∧ n.2 < q.published)

def Publication.key (o : Optimizer ε σ) (q : Publication) : String := o.keyOf q.plan q.compiled

/-- Whether rows are those of a publication, as they are or read back from their text. -/
def Publication.Delivers (q : Publication) (rows : List Row) : Prop :=
  rows = q.rows ∨ Rows.parse? (Rows.text q.rows) = some rows

/-- What holds of a run under way. In the generation in which it began nothing was notified since. -/
structure Flight.Sound (o : Optimizer ε σ) (now generation : Nat) (notified : List (String × Nat))
    (f : Flight) : Prop where
  tagged : f.plan.table ∈ Optimizer.cacheTags f.plan
  cached : f.pending.cacheAs =
    (o.cacheTtl f.plan).map fun ttl => (o.keyOf f.plan f.pending.compiled, ttl)
  begun : f.begun < now
  present : f.pending.generation ≤ generation
  undisturbed : f.pending.generation = generation → ∀ n ∈ notified, n.2 < f.begun
  executed : ∀ rows moment, f.result = some (rows, moment) → f.begun < moment

theorem Flight.Sound.later {o : Optimizer ε σ} {now generation : Nat}
    {notified : List (String × Nat)} {f : Flight} (h : f.Sound o now generation notified) :
    f.Sound o (now + 1) generation notified :=
  { h with begun := Nat.lt_succ_of_lt h.begun }

/-- A clear begins a generation of which no run under way is. -/
theorem Flight.Sound.cleared {o : Optimizer ε σ} {now generation : Nat}
    {notified more : List (String × Nat)} {f : Flight} (h : f.Sound o now generation notified) :
    f.Sound o (now + 1) (generation + 1) more :=
  { h.later with
    present := Nat.le_succ_of_le h.present
    undisturbed := fun same => absurd h.present (by omega) }

namespace World

/-- Rows may be served under a key if they were published under it and are current. -/
def Serves (o : Optimizer δ MemoryStore) (w : World δ ω) (key : String) (rows : List Row) : Prop :=
  ∃ q ∈ w.publications, q.key o = key ∧ q.Delivers rows ∧ q.Current o w.notified

def Stores (o : Optimizer δ MemoryStore) (w : World δ ω) (tag key text : String) : Prop :=
  o.store.isSome = true → ∃ q ∈ w.publications, q.key o = key ∧ Rows.text q.rows = text ∧
    q.plan.table = tag ∧ q.Current o w.notified

/-- The invariant of all worlds: runs under way are as they began, and both caches hold nothing but
current publications. -/
structure Sound (o : Optimizer δ MemoryStore) (w : World δ ω) : Prop where
  flights : ∀ f ∈ w.flights, f.Sound o w.now w.state.request.generation w.notified
  past : ∀ n ∈ w.notified, n.2 < w.now
  caches : Cached (w.Serves o) (w.Stores o) w.state

theorem sound_start (o : Optimizer δ MemoryStore) (database : δ) (observed : ω) :
    (start database observed).Sound o where
  flights f underway := absurd underway (by simp [start])
  past n known := absurd known (by simp [start])
  caches := ⟨fun key rows kept => absurd kept (by simp [start]), MemoryStore.backed_empty⟩

variable {o : Optimizer δ MemoryStore} {observers : List (Observer ω)} {w : World δ ω}

/-- What is stored as text is served as rows. -/
theorem serves_of_stores (storing : o.store.isSome = true) (tag key text : String) (rows : List Row)
    (stored : w.Stores o tag key text) (parsed : Rows.parse? text = some rows) :
    w.Serves o key rows := by
  obtain ⟨q, published, keyed, rfl, -, current⟩ := stored storing
  exact ⟨q, published, keyed, .inr parsed, current⟩

/-- As long as nothing is published and nobody is notified, a moment passes without harm. -/
theorem Sound.pass {state : State δ MemoryStore} {flights : List Flight} (h : w.Sound o)
    (written : List (String × Nat)) (caches : Cached (w.Serves o) (w.Stores o) state)
    (generation : state.request.generation = w.state.request.generation)
    (sound : ∀ f ∈ flights, f.Sound o (w.now + 1) w.state.request.generation w.notified) :
    Sound o { w with state, flights, written, now := w.now + 1 } where
  flights f underway := by
    rw [generation]
    exact sound f underway
  past n known := Nat.lt_succ_of_lt (h.past n known)
  caches := caches

theorem Sound.flights_later (h : w.Sound o) {f : Flight} (underway : f ∈ w.flights) :
    f.Sound o (w.now + 1) w.state.request.generation w.notified :=
  (h.flights f underway).later

theorem Sound.begin (h : w.Sound o) (inMemory : o.InMemory) {p : Plan}
    (tagged : p.table ∈ Optimizer.cacheTags p) :
    Sound o { w.begin o p with now := w.now + 1 } := by
  obtain ⟨caches, generation, fits⟩ := h.caches.begin inMemory serves_of_stores p
  unfold World.begin
  split
  · rename_i pending missed
    rw [missed] at fits
    obtain ⟨-, cached, current⟩ := fits
    refine h.pass w.written caches generation fun f underway => ?_
    obtain earlier | new := List.mem_append.mp underway
    · exact h.flights_later earlier
    · obtain rfl := List.mem_singleton.mp new
      exact
        { tagged
          cached
          begun := Nat.lt_succ_self _
          present := Nat.le_of_eq current
          undisturbed := fun _ => h.past
          executed := fun rows moment none => nomatch none }
  · exact h.pass w.written caches generation fun f underway => h.flights_later underway

theorem Sound.execute (h : w.Sound o) (reads : o.executor.ReadsOnly) (place : Nat) :
    Sound o { w.execute o place with now := w.now + 1 } := by
  unfold World.execute
  split
  · rename_i p pending begun found
    have underway := List.mem_of_getElem? found
    have executed := Optimizer.keeps_execute reads p pending.compiled
    have caches := h.caches.of_keeps executed
    split
    · rename_i rows report answered
      refine h.pass w.written caches (by rw [(executed w.state).1]) fun f flying => ?_
      obtain earlier | rfl := List.mem_or_eq_of_mem_set flying
      · exact h.flights_later earlier
      · refine { h.flights_later underway with executed := fun rows' moment got => ?_ }
        obtain ⟨-, rfl⟩ := Prod.mk.inj (Option.some.inj got)
        exact (h.flights _ underway).begun
    · rename_i e answered
      have recovered := Optimizer.keeps_recover reads p pending.compiled.layout e
      refine h.pass w.written (caches.of_keeps recovered) ?_ fun f flying => ?_
      · rw [(recovered _).1, (executed w.state).1]
      · exact h.flights_later (List.mem_of_mem_eraseIdx flying)
  · exact h.pass w.written h.caches rfl fun f underway => h.flights_later underway

/-- What is published is current: only runs that straddled a notification were executed before it, and
the request cache takes nothing from them. -/
theorem Sound.publish (h : w.Sound o) (inMemory : o.InMemory) (place : Nat) :
    Sound o { w.publish o place with now := w.now + 1 } := by
  unfold World.publish
  split
  · rename_i p pending begun rows executed found
    have underway := List.mem_of_getElem? found
    obtain ⟨tagged, cached, -, -, undisturbed, executedLater⟩ := h.flights _ underway
    have later : begun < executed := executedLater rows executed rfl
    have generation := Optimizer.publish_generation o p pending rows w.state
    cases kept : pending.cacheAs with
    | none =>
      have idle : (o.publish p pending rows w.state).2 = w.state := by
        rw [Optimizer.publish, kept]
        rfl
      rw [idle]
      exact h.pass w.written h.caches rfl fun f flying => h.flights_later (List.mem_of_mem_eraseIdx flying)
    | some entry =>
      let q : Publication := ⟨p, pending.compiled, rows, begun, executed, w.now⟩
      have keyed (key : String) (ttl : Duration) (as : pending.cacheAs = some (key, ttl)) :
          q.key o = key := by
        obtain ⟨ttl', -, same⟩ := Option.map_eq_some_iff.mp (cached.symm.trans as)
        exact (Prod.mk.inj same).1
      have straddled (storing : o.store.isSome = true) : q.Current o w.notified := by
        intro n known _
        by_cases before : n.2 < begun
        · exact .inl (Nat.lt_trans before later)
        · exact .inr ⟨storing, Nat.le_of_not_lt before, h.past n known⟩
      have fresh (same : pending.generation = w.state.request.generation) :
          q.Current o w.notified :=
        fun n known _ => .inl (Nat.lt_trans (undisturbed same n known) later)
      refine
        { flights := fun f flying => ?_
          past := fun n known => Nat.lt_succ_of_lt (h.past n known)
          caches := ?_ }
      · rw [generation]
        exact h.flights_later (List.mem_of_mem_eraseIdx flying)
      · refine Cached.publish inMemory (h.caches.mono ?_ ?_) tagged ?_ ?_
        · rintro key served ⟨q', published, rest⟩
          exact ⟨q', List.mem_cons_of_mem q published, rest⟩
        · intro tag key text stored storing
          obtain ⟨q', published, rest⟩ := stored storing
          exact ⟨q', List.mem_cons_of_mem q published, rest⟩
        · intro key ttl as same
          exact ⟨q, List.mem_cons_self, keyed key ttl as, .inl rfl, fresh same⟩
        · intro key ttl as storing
          exact ⟨q, List.mem_cons_self, keyed key ttl as, rfl, rfl, straddled storing⟩
  · exact h.pass w.written h.caches rfl fun f underway => h.flights_later underway

/-- A notification leaves only rows of other tables in the store, to which it is irrelevant. -/
theorem Sound.notify (h : w.Sound o) (inMemory : o.InMemory) (e : ModelEvent) :
    Sound o { w.notify o observers e with now := w.now + 1 } where
  flights f underway := by
    have generation := Optimizer.notify_generation inMemory observers e w.observed w.state
    have cleared : f.Sound o (w.now + 1) (w.state.request.generation + 1)
        ((e.table, w.now) :: w.notified) := (h.flights f underway).cleared
    rw [← generation] at cleared
    exact cleared
  past n known := by
    obtain rfl | earlier := List.mem_cons.mp known
    · exact Nat.lt_succ_self _
    · exact Nat.lt_succ_of_lt (h.past n earlier)
  caches := by
    refine (h.caches.notify inMemory observers e w.observed).mono (fun _ _ never => never.elim) ?_
    rintro tag key text ⟨other, stored⟩ storing
    obtain ⟨q, published, keyed, text, rfl, current⟩ := stored storing
    refine ⟨q, published, keyed, text, rfl, fun n known same => ?_⟩
    obtain rfl | earlier := List.mem_cons.mp known
    · exact absurd same.symm (other storing)
    · exact current n earlier same

/-- Whatever happens next, the invariant is kept. -/
theorem Sound.step (h : w.Sound o) (inMemory : o.InMemory) (reads : o.executor.ReadsOnly)
    (e : Event δ) (tagged : e.Tagged) : (w.step o observers e).Sound o := by
  cases e with
  | begin p => exact h.begin inMemory tagged
  | execute place => exact h.execute reads place
  | publish place => exact h.publish inMemory place
  | write table change =>
    exact h.pass _ (h.caches.of_same rfl rfl) rfl fun f underway => h.flights_later underway
  | notify e => exact h.notify inMemory e
  | wait time =>
    exact h.pass _ (h.caches.of_same rfl rfl) rfl fun f underway => h.flights_later underway

theorem Sound.run (h : w.Sound o) (inMemory : o.InMemory) (reads : o.executor.ReadsOnly)
    {events : List (Event δ)} (tagged : ∀ e ∈ events, e.Tagged) :
    (w.run o observers events).Sound o := by
  induction events generalizing w with
  | nil => exact h
  | cons e rest ih =>
    refine ih (h.step inMemory reads e (tagged e List.mem_cons_self)) fun later known => ?_
    exact tagged later (List.mem_cons_of_mem e known)

end World

section Staleness

variable (o : Optimizer δ MemoryStore) (observers : List (Observer ω)) (database : δ) (observed : ω)

/-- Rows found by a beginning run were executed after every notification for its table that is completed,
unless there is a store and the run that published them was under way during the notification. -/
theorem hit_current_unless_straddled (inMemory : o.InMemory) (reads : o.executor.ReadsOnly)
    {events : List (Event δ)} (tagged : ∀ e ∈ events, e.Tagged) {p : Plan} {x : Execution}
    (hit : (o.begin p ((World.start database observed).run o observers events).state).1 = .hit x) :
    ∃ q ∈ ((World.start database observed).run o observers events).publications,
      q.plan.table = p.table ∧ q.Delivers x.rows ∧
      ∀ n ∈ ((World.start database observed).run o observers events).notified, n.1 = p.table →
        n.2 < q.executed ∨ (o.store.isSome = true ∧ q.begun ≤ n.2 ∧ n.2 < q.published) := by
  have sound : ((World.start database observed).run o observers events).Sound o :=
    (World.sound_start o database observed).run inMemory reads tagged
  generalize (World.start database observed).run o observers events = w at *
  obtain ⟨-, -, fits⟩ := sound.caches.begin inMemory World.serves_of_stores p
  rw [hit] at fits
  obtain ⟨compiled, -, -, -, q, published, keyed, delivered, current⟩ := fits
  have tables : q.plan.table = p.table := (CacheKey.derive_inj keyed).1
  refine ⟨q, published, tables, delivered, fun n known same => ?_⟩
  exact current n known (same.trans tables.symm)

/-- What was to be expected of every hit: its rows were executed after the writes to its table whose
notification is completed. -/
def NeverStale : Prop :=
  ∀ events : List (Event δ), (∀ e ∈ events, e.Tagged) → ∀ p x,
    (o.begin p ((World.start database observed).run o observers events).state).1 = .hit x →
    ∃ q ∈ ((World.start database observed).run o observers events).publications,
      q.plan.table = p.table ∧ q.Delivers x.rows ∧
      ∀ n ∈ ((World.start database observed).run o observers events).notified, n.1 = p.table →
        ∀ m ∈ ((World.start database observed).run o observers events).written, m.1 = p.table →
          m.2 < n.2 → m.2 < q.executed

end Staleness

section Straddling

variable {o : Optimizer δ MemoryStore} (observers : List (Observer ω)) {database : δ} {observed : ω}
  (memory : o.store = some MemoryStore.ops) {p : Plan} {c : CompiledPlan} {ttl : Duration}
  {rows found : List Row} {report : Report}
  (compiled : ∀ memo, p.compile (o.compiler memo) = .ok c) (cached : o.cacheTtl p = some ttl)
  (answered : ∀ s : State δ MemoryStore, s.executor = database →
    (o.execute p c s).1 = .ok (rows, report))

/-- A run that is executed before a write and publishes after the notification of the write. -/
def straddle (p : Plan) (table : String) (change : δ → δ) (e : ModelEvent) : List (Event δ) :=
  [.begin p, .execute 0, .write table change, .notify e, .publish 0]

include memory compiled cached answered

/-- The run is published, with the moments of its steps. -/
theorem run_straddle (table : String) (change : δ → δ) (e : ModelEvent) :
    let s := (o.execute p c (Run.follow (p.trail (o.compiler []))
      { executor := database, store := {} }).2).2
    let notified := o.notify observers e observed { s with executor := change s.executor }
    (World.start database observed).run o observers (straddle p table change e) =
      { state := (o.publish p ⟨c, some (o.keyOf p c, ttl), 0⟩ rows notified.2).2
        observed := notified.1.2
        now := 5
        flights := []
        publications := [⟨p, c, rows, 0, 1, 4⟩]
        written := [(table, 2)]
        notified := [(e.table, 3)] } := by
  intro s notified
  let s₁ : State δ MemoryStore := (Run.follow (p.trail (o.compiler []))
    { executor := database, store := {} }).2
  have begun : o.begin p { executor := database, store := {} } =
      (.miss ⟨c, some (o.keyOf p c, ttl), 0⟩, s₁) := by
    rw [Optimizer.begin_of_compiled (compiled _)]
    exact Optimizer.seek_empty memory cached rfl rfl
  have answer : (o.execute p c s₁).1 = .ok (rows, report) := answered s₁ rfl
  have first : (World.start database observed).step o observers (.begin p) =
      { World.start database observed with
        state := s₁, flights := [⟨p, ⟨c, some (o.keyOf p c, ttl), 0⟩, 0, none⟩], now := 1 } := by
    simp only [World.step, World.happen, World.begin, World.start, begun]
    rfl
  simp only [straddle, World.run, List.foldl_cons, List.foldl_nil, first]
  simp only [World.step, World.happen, World.execute, List.getElem?_cons_zero, answer]
  rfl

/-- Rows of a run that straddles a notification are served to the next run, whatever was written in
between. -/
theorem straddling_served (reads : o.executor.ReadsOnly)
    (parsed : Rows.parse? (Rows.text rows) = some found) (table : String) (change : δ → δ)
    (e : ModelEvent) :
    (o.begin p ((World.start database observed).run o observers
      (straddle p table change e)).state).1 = .hit (Optimizer.hitReport .external c found) := by
  have inMemory : o.InMemory := .inr memory
  rw [run_straddle observers memory compiled cached answered]
  dsimp only
  have kept := Optimizer.keeps_execute reads p c
    (Run.follow (p.trail (o.compiler [])) { executor := database, store := {} }).2
  generalize (o.execute p c (Run.follow (p.trail (o.compiler []))
    { executor := database, store := {} }).2).2 = s at kept ⊢
  obtain ⟨request, store⟩ : s.request = {} ∧ s.store = {} := kept
  have generation := Optimizer.notify_generation inMemory observers e observed
    { s with executor := change s.executor }
  have empty : Cached (fun _ _ => False) (fun _ _ _ => False)
      { s with executor := change s.executor } :=
    ⟨by simp [request], by rw [store]; exact MemoryStore.backed_empty⟩
  have cleared := (empty.notify inMemory observers e observed).request
  generalize (o.notify observers e observed { s with executor := change s.executor }).2 = t
    at generation cleared ⊢
  rw [request] at generation
  -- the request cache refuses the rows for their generation; the store takes them
  have refused : (Optimizer.requestPut (o.keyOf p c) rows 0 t).2 = t := by
    simp [Optimizer.requestPut, run_modify, RequestCache.put, generation]
  have published : (o.publish p ⟨c, some (o.keyOf p c, ttl), 0⟩ rows t).2 = { t with
      store := t.store.put t.clock (o.keyOf p c) (Rows.text rows) (some ttl)
        (Optimizer.cacheTags p) } := by
    have step : (o.publish p ⟨c, some (o.keyOf p c, ttl), 0⟩ rows t).2 =
      (o.externalPut (o.keyOf p c) rows ttl (Optimizer.cacheTags p)
        (Optimizer.requestPut (o.keyOf p c) rows 0 t).2).2 := rfl
    rw [step, refused]
    simp only [Optimizer.externalPut, memory, MemoryStore.ops, run_bind, run_get, run_set]
    rfl
  rw [published, Optimizer.begin_of_compiled (compiled _)]
  refine Optimizer.seek_stored memory cached ?_ (MemoryStore.get_put _ _ _ _ _ _) parsed
  exact List.eq_nil_iff_forall_not_mem.mpr fun entry held => cleared entry.1 entry.2 held

end Straddling

namespace Directory

/-- The database is the rows of one table, which every statement reads. -/
def optimizer : Optimizer (List Row) MemoryStore :=
  { config := {}
    registry := []
    executor := ⟨.sqlite, fun _ _ rows => { answer := .ok rows, next := rows }⟩
    store := some MemoryStore.ops }

def users : Plan :=
  { entity := { type := "User", table := "users", columns := ["name"] }
    cache := { ttl := some (.ofMillis 60000) } }

def before : List Row := [[("name", .str "Ann")]]

def after : List Row := [[("name", .str "Bea")]]

def statement : Statement :=
  .ofFragment .sqlite ((users.unsplitDraft (optimizer.compiler [])).fragment .sqlite)

/-- The first run reads the table before the write and publishes after the notification. -/
def events : List (Event (List Row)) := straddle users "users" (fun _ => after) ⟨.saved, "users"⟩

theorem compiled (memo : Memo) :
    users.compile (optimizer.compiler memo) = .ok ⟨.single statement, [], 0⟩ := by
  have complete : (users.unsplitDraft (optimizer.compiler [])).failure? = none := by decide
  have alike : users.unsplitDraft (optimizer.compiler memo) =
    users.unsplitDraft (optimizer.compiler []) := rfl
  refine Plan.compile_eq_ok_iff.mpr ⟨rfl, rfl, statement, ?_, rfl⟩
  rw [Plan.unsplit, alike]
  exact (Sql.Draft.ofDraft_eq_ok_iff _ _ _).mpr ⟨complete, rfl⟩

theorem answered (s : State (List Row) MemoryStore) (rows : s.executor = before) :
    (optimizer.execute users ⟨.single statement, [], 0⟩ s).1 = .ok (before, { statements := 1 }) :=
  optimizer.executeSingle_of_answer (congrArg Except.ok rows)

theorem tagged : ∀ e ∈ events, e.Tagged := by
  intro e known
  simp only [events, straddle, List.mem_cons, List.not_mem_nil, or_false] at known
  obtain rfl | rfl | rfl | rfl | rfl := known
  · exact Event.tagged_of_default rfl
  all_goals exact trivial

theorem hit : (optimizer.begin users ((World.start before ()).run optimizer
    ([] : List (Observer Unit)) events).state).1 =
      .hit (Optimizer.hitReport .external ⟨.single statement, [], 0⟩ before) :=
  straddling_served [] rfl compiled rfl answered (fun _ _ _ => rfl) (by decide +kernel)
    "users" _ _

end Directory

open Directory in
theorem hit_current_unless_straddled_directory :
    optimizer.InMemory ∧ optimizer.executor.ReadsOnly ∧ (∀ e ∈ events, e.Tagged) ∧
      ∃ q ∈ ((World.start before ()).run optimizer ([] : List (Observer Unit)) events).publications,
        q.plan.table = users.table ∧ q.Delivers before ∧
        ∀ n ∈ ((World.start before ()).run optimizer ([] : List (Observer Unit)) events).notified,
          n.1 = users.table →
            n.2 < q.executed ∨ (optimizer.store.isSome = true ∧ q.begun ≤ n.2 ∧ n.2 < q.published) :=
  ⟨.inr rfl, fun _ _ _ => rfl, tagged,
    hit_current_unless_straddled optimizer [] before () (.inr rfl) (fun _ _ _ => rfl) tagged hit⟩

open Directory in
/-- A run that begins after the notification is given the rows from before the write. -/
theorem not_neverStale_directory :
    ¬ NeverStale optimizer ([] : List (Observer Unit)) before () := by
  intro never
  obtain ⟨q, published, -, -, fresh⟩ := never events tagged users _ hit
  unfold events at published fresh
  rw [run_straddle [] rfl compiled rfl answered] at published fresh
  obtain rfl := List.mem_singleton.mp published
  have late : 2 < 1 := fresh ("users", 3) List.mem_cons_self rfl ("users", 2) List.mem_cons_self rfl
    (by decide)
  exact absurd late (by decide)

end EagerLoad
