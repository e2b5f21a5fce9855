import EagerLoad.Proofs.Cache.Key
import EagerLoad.Proofs.Plan.Split
import EagerLoad.Proofs.Run.Errors
import EagerLoad.Proofs.Run.Filed

/-! # Runs and invalidations one after another

A history is a list of runs, notifications, and changes from outside, each of which ends before the next
one begins. Whatever a run finds in the caches was given to them by an earlier run, and no notification for
its base table has come since. A notification for another table that the run reads clears the request cache,
but finds nothing to flush in a store, where the rows go on to be found. -/
namespace EagerLoad

/-- The rows that a run gave to the caches, with the moment of the run. -/
structure Origin where
  plan : Plan
  compiled : CompiledPlan
  rows : List Row
  moment : Nat

/-- Everything that is done takes one moment. Runs that gave rows to the caches and notifications that
succeeded are recorded. -/
structure Chronicle (ε σ ω : Type) where
  state : State ε σ
  observed : ω
  now : Nat := 0
  origins : List Origin := []
  notified : List (String × Nat) := []

/-- What may be done next. The executor and the store may also be changed from outside. -/
inductive Action (ε σ : Type) where
  | run (p : Plan)
  | notify (e : ModelEvent)
  | write (change : ε → ε)
  | upset (change : σ → σ)
  | wait (time : Nat)

/-- Whether a run is cached under the default tag, and a change from outside takes from the store at most. -/
def Action.Fair (f : Filing σ) : Action ε σ → Prop
  | .run p => p.cache.tags = []
  | .upset change => ∀ s, f.sound s → f.Dwindles s (change s)
  | _ => True

/-- What a run gives to the caches. -/
def Optimizer.origins (o : Optimizer ε σ) (p : Plan) (s : State ε σ) (now : Nat) : List Origin :=
  match (o.begin p s).1 with
  | .miss pending =>
    match (o.execute p pending.compiled (o.begin p s).2).1 with
    | .ok (rows, _) => if pending.cacheAs.isSome then [⟨p, pending.compiled, rows, now⟩] else []
    | .error _ => []
  | _ => []

namespace Chronicle

variable (o : Optimizer ε σ) (observers : List (Observer ω)) (c : Chronicle ε σ ω)

def run (p : Plan) : Chronicle ε σ ω :=
  { c with
    state := (o.run p c.state).2
    origins := o.origins p c.state c.now ++ c.origins }

def notify (e : ModelEvent) : Chronicle ε σ ω :=
  let answer := o.notify observers e c.observed c.state
  { c with
    state := answer.2
    observed := answer.1.2
    notified := match answer.1.1 with
      | .ok _ => (e.table, c.now) :: c.notified
      | .error _ => c.notified }

def act : Action ε σ → Chronicle ε σ ω
  | .run p => c.run o p
  | .notify e => c.notify o observers e
  | .write change => { c with state := { c.state with executor := change c.state.executor } }
  | .upset change => { c with state := { c.state with store := change c.state.store } }
  | .wait time => { c with state := { c.state with clock := c.state.clock + time } }

def step (a : Action ε σ) : Chronicle ε σ ω := { c.act o observers a with now := c.now + 1 }

def after (actions : List (Action ε σ)) : Chronicle ε σ ω := actions.foldl (step o observers) c

end Chronicle

namespace Origin

def key (o : Optimizer ε σ) (q : Origin) : String := o.keyOf q.plan q.compiled

/-- Whether rows are those of a run, as they are or read back from their text. -/
def Delivers (q : Origin) (rows : List Row) : Prop :=
  rows = q.rows ∨ Rows.parse? (Rows.text q.rows) = some rows

/-- Whether a run came after every notification for its base table, and without a store after every
notification at all. -/
def Current (o : Optimizer ε σ) (notified : List (String × Nat)) (q : Origin) : Prop :=
  ∀ n ∈ notified, n.1 = q.plan.table ∨ o.store = none → n.2 < q.moment

end Origin

theorem Optimizer.notify_answer (o : Optimizer ε σ) (observers : List (Observer ω)) (e : ModelEvent)
    (observed : ω) (s : State ε σ) :
    (∃ error, (o.invalidate e.table s).1 = .error error ∧
      o.notify observers e observed s = ((.error (.cache error), observed), (o.invalidate e.table s).2)) ∨
    ((o.invalidate e.table s).1 = .ok () ∧
      o.notify observers e observed s = ((.ok (), (dispatch e observers observed).1),
        (Run.noteAll (dispatch e observers observed).2 (o.invalidate e.table s).2).2)) := by
  rw [notify, run_bind]
  generalize o.invalidate e.table s = answer
  rcases answer with ⟨error | _, t⟩
  · exact .inl ⟨error, rfl, rfl⟩
  · exact .inr ⟨rfl, rfl⟩

namespace Chronicle

def Serves (o : Optimizer ε σ) (c : Chronicle ε σ ω) (key : String) (rows : List Row) : Prop :=
  ∃ q ∈ c.origins, q.key o = key ∧ q.Delivers rows ∧ q.Current o c.notified

def Stores (o : Optimizer ε σ) (c : Chronicle ε σ ω) (tag key text : String) : Prop :=
  o.store.isSome = true ∧ ∃ q ∈ c.origins, q.key o = key ∧ Rows.text q.rows = text ∧
    q.plan.table = tag ∧ q.Current o c.notified

/-- The invariant of all histories: both caches hold nothing but rows of current runs. -/
structure Kept (o : Optimizer ε σ) (f : Filing σ) (c : Chronicle ε σ ω) : Prop where
  past : ∀ n ∈ c.notified, n.2 < c.now
  caches : Filed f (c.Serves o) (c.Stores o) c.state

variable {o : Optimizer ε σ} {f : Filing σ} {observers : List (Observer ω)} {c : Chronicle ε σ ω}

theorem serves_of_stores (tag key text : String) (rows : List Row) (stored : c.Stores o tag key text)
    (parsed : Rows.parse? text = some rows) : c.Serves o key rows := by
  obtain ⟨-, q, known, keyed, rfl, -, current⟩ := stored
  exact ⟨q, known, keyed, .inr parsed, current⟩

/-- As long as nobody is notified, a moment passes without harm. -/
theorem Kept.pass (h : c.Kept o f) {state : State ε σ} {origins : List Origin}
    (caches : Filed f (Serves o { c with origins }) (Stores o { c with origins }) state) :
    Kept o f { c with state, origins, now := c.now + 1 } where
  past n known := Nat.lt_succ_of_lt (h.past n known)
  caches := caches

theorem Kept.recorded (h : c.Kept o f) (origins : List Origin) :
    Filed f (Serves o { c with origins := origins ++ c.origins })
      (Stores o { c with origins := origins ++ c.origins }) c.state := by
  apply h.caches.mono
  · rintro key rows ⟨q, known, rest⟩
    exact ⟨q, List.mem_append_right _ known, rest⟩
  · rintro tag key text ⟨storing, q, known, rest⟩
    exact ⟨storing, q, List.mem_append_right _ known, rest⟩

theorem Kept.current_now (h : c.Kept o f) (p : Plan) (compiled : CompiledPlan) (rows : List Row) :
    Origin.Current o c.notified ⟨p, compiled, rows, c.now⟩ :=
  fun n known _ => h.past n known

variable (files : ∀ ops, o.store = some ops → ops.Files f)
include files

/-- What a run finds is current, and so is what it keeps: it is executed after all notifications so far. -/
theorem Kept.run (h : c.Kept o f) {p : Plan} (untagged : p.cache.tags = []) :
    Kept o f { c.run o p with now := c.now + 1 } := by
  apply h.pass
  dsimp only [Chronicle.run]
  obtain ⟨begun, fits⟩ := (h.recorded (o.origins p c.state c.now)).begin files serves_of_stores p
  cases start : (o.begin p c.state).1 with
  | failed e =>
    rw [Optimizer.run_of_failed start]
    exact begun
  | hit x =>
    rw [Optimizer.run_of_hit start]
    exact begun
  | miss pending =>
    rw [start] at fits
    obtain ⟨-, cached, -⟩ := fits
    have left := begun.execute files p pending.compiled
    cases executed : (o.execute p pending.compiled (o.begin p c.state).2).1 with
    | error e =>
      rw [Optimizer.run_of_unexecuted start executed]
      exact left.recover files p pending.compiled.layout e
    | ok found =>
      obtain ⟨rows, report⟩ := found
      rw [Optimizer.run_of_executed start executed]
      have tag : p.table ∈ Optimizer.cacheTags p := by simp [Optimizer.cacheTags, untagged]
      refine left.publish files tag fun key ttl as => ?_
      have recorded : ⟨p, pending.compiled, rows, c.now⟩ ∈ o.origins p c.state c.now ++ c.origins := by
        simp [Optimizer.origins, start, executed, as]
      have keyed : Origin.key o ⟨p, pending.compiled, rows, c.now⟩ = key := by
        obtain ⟨ttl', -, same⟩ := Option.map_eq_some_iff.mp (cached.symm.trans as)
        exact (Prod.mk.inj same).1
      have current := h.current_now p pending.compiled rows
      exact ⟨⟨_, recorded, keyed, .inl rfl, current⟩, fun storing =>
        ⟨storing, _, recorded, keyed, rfl, rfl, current⟩⟩

/-- A notification that succeeds leaves only rows of other base tables in the store, to which it is
irrelevant, and nothing at all without a store. -/
theorem Kept.notify (h : c.Kept o f) (e : ModelEvent) :
    Kept o f { c.notify o observers e with now := c.now + 1 } := by
  have invalidated := h.caches.invalidate files e.table
  rcases o.notify_answer observers e c.observed c.state with ⟨error, refused, same⟩ | ⟨done, same⟩
  · simp only [Chronicle.notify, same]
    exact h.pass (invalidated.mono (fun _ _ never => never.elim) fun _ _ _ both => both.2)
  · simp only [Chronicle.notify, same]
    refine ⟨fun n known => ?_, ?_⟩
    · rcases List.mem_cons.mp known with rfl | earlier
      · exact Nat.lt_succ_self _
      · exact Nat.lt_succ_of_lt (h.past n earlier)
    · refine (invalidated.mono (fun _ _ never => never.elim) ?_).of_same rfl rfl
      rintro tag key text ⟨other, storing, q, known, keyed, texts, rfl, current⟩
      refine ⟨storing, q, known, keyed, texts, rfl, fun n told relevant => ?_⟩
      rcases List.mem_cons.mp told with rfl | earlier
      · rcases relevant with table | none
        · exact absurd table.symm (other done storing)
        · rw [none] at storing
          exact absurd storing Bool.false_ne_true
      · exact current n earlier relevant

/-- Whatever is done next, the invariant is kept. -/
theorem Kept.step (h : c.Kept o f) {a : Action ε σ} (fair : a.Fair f) :
    (c.step o observers a).Kept o f := by
  cases a with
  | run p => exact h.run files fair
  | notify e => exact h.notify files e
  | write change => exact h.pass (h.caches.of_same rfl rfl)
  | upset change => exact h.pass (h.caches.dwindle rfl (fair _ h.caches.sound))
  | wait time => exact h.pass (h.caches.of_same rfl rfl)

theorem Kept.after (h : c.Kept o f) {actions : List (Action ε σ)} (fair : ∀ a ∈ actions, a.Fair f) :
    (c.after o observers actions).Kept o f := by
  induction actions generalizing c with
  | nil => exact h
  | cons a rest ih =>
    have first : (c.step o observers a).Kept o f := h.step files (fair a List.mem_cons_self)
    exact ih first fun later known => fair later (List.mem_cons_of_mem a known)

end Chronicle

/-- The tables that a relation reads. -/
def Relation.tables (registry : Registry) (r : Relation) : List String :=
  ((registry.get? r.related).map Entity.table).toList ++
    match r with
    | .hasManyThrough _ t => [t.table]
    | .belongsToMany _ p => [p.table]
    | _ => []

/-- The tables that the statements of a plan read for its relations, counts and aggregates, and its own. -/
def Plan.tables (registry : Registry) (p : Plan) : List String :=
  p.table :: (p.relations.map RelationRequest.name ++ p.counts.map CountRequest.relation ++
    p.aggregates.map AggregateRequest.relation).flatMap fun name =>
      ((p.entity.relation? name).map (Relation.tables registry)).getD []

namespace Chronicle

def start (database : ε) (store : σ) (observed : ω) : Chronicle ε σ ω :=
  { state := { executor := database, store }, observed }

theorem kept_start {f : Filing σ} {store : σ} (o : Optimizer ε σ) (database : ε) (observed : ω)
    (sound : f.sound store) (empty : ∀ key text, ¬ f.readable store key text) :
    (start database store observed).Kept o f where
  past _ known := absurd known List.not_mem_nil
  caches := ⟨fun _ _ kept => absurd kept List.not_mem_nil, sound,
    fun key text kept => absurd kept (empty key text)⟩

end Chronicle

section Outdated

variable (o : Optimizer ε σ) (observers : List (Observer ω)) (database : ε) (store : σ) (observed : ω)

/-- What is found in a cache was executed after every notification for the base table that succeeded, and
without a store after every notification for any table. -/
theorem hit_after_notifications {f : Filing σ} (files : ∀ ops, o.store = some ops → ops.Files f)
    (sound : f.sound store) (empty : ∀ key text, ¬ f.readable store key text)
    {actions : List (Action ε σ)} (fair : ∀ a ∈ actions, a.Fair f) {p : Plan} {x : Execution}
    (answered : (o.run p ((Chronicle.start database store observed).after o observers actions).state).1 =
      .ok x) (hit : x.report.cacheHit.isSome = true) :
    ∃ q ∈ ((Chronicle.start database store observed).after o observers actions).origins,
      q.plan.table = p.table ∧ q.Delivers x.rows ∧
      ∀ n ∈ ((Chronicle.start database store observed).after o observers actions).notified,
        n.1 = p.table ∨ o.store = none → n.2 < q.moment := by
  have kept : ((Chronicle.start database store observed).after o observers actions).Kept o f :=
    (Chronicle.kept_start o database observed sound empty).after files fair
  generalize (Chronicle.start database store observed).after o observers actions = c at *
  have found := (kept.caches.begin files Chronicle.serves_of_stores p).2
  rw [Optimizer.begin_of_cacheHit answered hit] at found
  obtain ⟨compiled, -, -, -, q, known, keyed, delivered, current⟩ := found
  have tables : q.plan.table = p.table := (CacheKey.derive_inj keyed).1
  refine ⟨q, known, tables, delivered, fun n told relevant => ?_⟩
  rw [← tables] at relevant
  exact current n told relevant

/-- What was to be expected of every hit: its rows were executed after every notification for a table that
the plan reads. -/
def NeverOutdated (f : Filing σ) : Prop :=
  ∀ actions : List (Action ε σ), (∀ a ∈ actions, a.Fair f) → ∀ p x,
    (o.run p ((Chronicle.start database store observed).after o observers actions).state).1 = .ok x →
    x.report.cacheHit.isSome = true →
    ∃ q ∈ ((Chronicle.start database store observed).after o observers actions).origins,
      q.plan.table = p.table ∧ q.Delivers x.rows ∧
      ∀ n ∈ ((Chronicle.start database store observed).after o observers actions).notified,
        n.1 ∈ p.tables o.registry → n.2 < q.moment

end Outdated

namespace Newsroom

def user : Entity := { type := "User", table := "users", columns := ["name"] }

def article : Entity :=
  { type := "Article", table := "articles", columns := ["title", "author_id"]
    relations := [("author", .belongsTo "User" "author_id" "id")] }

/-- The database is the rows that every statement is answered with. -/
def optimizer : Optimizer (List Row) MemoryStore :=
  { config := {}
    registry := [("User", user)]
    executor := ⟨.sqlite, fun _ _ rows => { answer := .ok rows, next := rows }⟩
    store := some MemoryStore.ops }

def articles : Plan :=
  { entity := article
    relations := [{ name := "author", kind := .single }]
    cache := { ttl := some (.ofMillis 60000) } }

def before : List Row := [[("title", .str "News"), ("author", .str "Ann")]]

def after : List Row := [[("title", .str "News"), ("author", .str "Bea")]]

def statement : Statement :=
  .ofFragment .sqlite ((articles.unsplitDraft (optimizer.compiler [])).fragment .sqlite)

def compiled : CompiledPlan := ⟨.single statement, [⟨"author", .one⟩], 1⟩

/-- The author is renamed between two runs, and the users' table is notified. -/
def actions : List (Action (List Row) MemoryStore) :=
  [.run articles, .write fun _ => after, .notify ⟨.saved, "users"⟩]

def chronicle : Chronicle (List Row) MemoryStore Unit :=
  (Chronicle.start before {} ()).after optimizer [] actions

theorem compiles (memo : Memo) : articles.compile (optimizer.compiler memo) = .ok compiled := by
  have complete : (articles.unsplitDraft (optimizer.compiler [])).failure? = none := by decide
  have alike : articles.unsplitDraft (optimizer.compiler memo) =
    articles.unsplitDraft (optimizer.compiler []) := rfl
  refine Plan.compile_eq_ok_iff.mpr ⟨rfl, rfl, statement, ?_, rfl⟩
  rw [Plan.unsplit, alike]
  exact (Sql.Draft.ofDraft_eq_ok_iff _ _ _).mpr ⟨complete, rfl⟩

def pending : Pending := ⟨compiled, some (optimizer.keyOf articles compiled, .ofMillis 60000), 0⟩

def begun : State (List Row) MemoryStore :=
  (Run.follow (articles.trail (optimizer.compiler [])) { executor := before, store := {} }).2

def published : MemoryStore :=
  ({} : MemoryStore).put 0 (optimizer.keyOf articles compiled) (Rows.text before)
    (some (.ofMillis 60000)) ["articles"]

theorem begin_eq : optimizer.begin articles { executor := before, store := {} } = (.miss pending, begun) := by
  rw [Optimizer.begin_of_compiled (compiles _)]
  exact Optimizer.seek_empty rfl rfl rfl rfl

theorem run_eq : (optimizer.run articles { executor := before, store := {} }).2 =
    { begun with
      request := ⟨[(optimizer.keyOf articles compiled, before)], 0⟩
      store := published } := by
  have start : (optimizer.begin articles { executor := before, store := {} }).1 = .miss pending := by
    rw [begin_eq]
  have executed : (optimizer.execute articles pending.compiled
      (optimizer.begin articles { executor := before, store := {} }).2).1 =
        .ok (before, { statements := 1 }) := by
    rw [begin_eq]
    rfl
  rw [Optimizer.run_of_executed start executed, begin_eq]
  rfl

theorem chronicle_eq : chronicle =
    { state :=
        { begun with
          executor := after
          request := ⟨[], 1⟩
          store := (published.flushTags 0 ["users"]).1
          notices := begun.notices ++ [.flushed] ++ [] }
      observed := ()
      now := 3
      origins := [⟨articles, compiled, before, 0⟩]
      notified := [("users", 2)] } := by
  have first : (Chronicle.start before {} ()).step optimizer ([] : List (Observer Unit)) (.run articles) =
      { state :=
          { begun with
            request := ⟨[(optimizer.keyOf articles compiled, before)], 0⟩
            store := published }
        observed := ()
        now := 1
        origins := [⟨articles, compiled, before, 0⟩] } := by
    simp only [Chronicle.step, Chronicle.act, Chronicle.run, Chronicle.start, run_eq,
      Optimizer.origins, begin_eq]
    rfl
  simp only [chronicle, actions, Chronicle.after, List.foldl_cons, List.foldl_nil, first]
  rfl

/-- The rows are registered under the articles' table alone, so flushing the users' tag leaves them. -/
theorem stored : ((published.flushTags 0 ["users"]).1.get 0 (optimizer.keyOf articles compiled)).1 =
    some (Rows.text before) := by
  apply MemoryStore.get_flushTags
  · exact MemoryStore.get_put _ _ _ _ _ _
  · intro listed
    rcases (MemoryStore.mem_registered_tagAll _ _ _ _).mp listed with earlier | ⟨users, -⟩
    · exact absurd earlier List.not_mem_nil
    · exact absurd users (by decide)

theorem found : (optimizer.run articles chronicle.state).1 =
    .ok (Optimizer.hitReport .external compiled before) := by
  have hit : (optimizer.begin articles chronicle.state).1 =
      .hit (Optimizer.hitReport .external compiled before) := by
    rw [chronicle_eq, Optimizer.begin_of_compiled (compiles _)]
    exact Optimizer.seek_stored rfl rfl rfl stored (by decide +kernel)
  rw [Optimizer.run_of_hit hit]

theorem fair : ∀ a ∈ actions, a.Fair MemoryStore.filing := by
  intro a known
  simp only [actions, List.mem_cons, List.not_mem_nil, or_false] at known
  rcases known with rfl | rfl | rfl
  · rfl
  · exact trivial
  · exact trivial

end Newsroom

open Newsroom in
theorem hit_after_notifications_newsroom :
    (∀ ops, optimizer.store = some ops → ops.Files MemoryStore.filing) ∧
      MemoryStore.filing.sound {} ∧ (∀ key text, ¬ MemoryStore.filing.readable {} key text) ∧
      (∀ a ∈ actions, a.Fair MemoryStore.filing) ∧
      (optimizer.run articles chronicle.state).1 =
        .ok (Optimizer.hitReport .external compiled before) ∧
      ∃ q ∈ chronicle.origins, q.plan.table = "articles" ∧ q.Delivers before ∧
        ∀ n ∈ chronicle.notified, n.1 = "articles" ∨ optimizer.store = none → n.2 < q.moment := by
  have files : ∀ ops, optimizer.store = some ops → ops.Files MemoryStore.filing := by
    intro ops same
    obtain rfl := Option.some.inj same
    exact MemoryStore.ops_files
  have empty : ∀ key text, ¬ MemoryStore.filing.readable {} key text := by
    rintro key text ⟨e, kept, -⟩
    exact absurd kept List.not_mem_nil
  exact ⟨files, trivial, empty, fair, found,
    hit_after_notifications optimizer [] before {} () files trivial empty fair found rfl⟩

open Newsroom in
/-- The author is among what the articles are read with, and the store still gives the former name. -/
theorem not_neverOutdated_newsroom :
    ¬ NeverOutdated optimizer ([] : List (Observer Unit)) before {} () MemoryStore.filing := by
  intro never
  obtain ⟨q, known, -, -, fresh⟩ := never actions fair articles _ found rfl
  have known : q ∈ chronicle.origins := known
  have fresh : ∀ n ∈ chronicle.notified, n.1 ∈ articles.tables optimizer.registry → n.2 < q.moment :=
    fresh
  rw [chronicle_eq] at known fresh
  obtain rfl := List.mem_singleton.mp known
  have late : 2 < 0 := fresh ("users", 2) List.mem_cons_self (by decide)
  exact absurd late (by decide)

end EagerLoad
