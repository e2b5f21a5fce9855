import EagerLoad.Proofs.Cache.Material
import EagerLoad.Proofs.Run.Agreement
import EagerLoad.Proofs.Run.Cached

/-! # Running with caches and without

With an executor that answers by a function, every entry of both caches holds the rows that all plans
with its key are executed to. So plans are answered alike with caches and without them, whatever was
run before and whatever has expired. -/
namespace EagerLoad

/-- Whether rows are read from their text as they are, if they are read at all. -/
def Rows.Survive (rows : List Row) : Prop :=
  ∀ read, Rows.parse? (Rows.text rows) = some read → read = rows

/-- The rows and their layout, without the report of how they were come by. -/
def Execution.answer (x : Execution) : List Row × Layout := (x.rows, x.layout)

namespace Optimizer

/-- Runs plans one after another, each at a time of its own. -/
def serve (o : Optimizer ε σ) :
    List (Clock × Plan) → Run ε σ (List (Except QueryError (List Row × Layout)))
  | [] => return []
  | (now, p) :: rest => do
    modify fun s => { s with clock := now }
    let ran ← o.run p
    return ran.map Execution.answer :: (← o.serve rest)

/-- Executes a compiled plan, and recovers if that fails. -/
def perform (o : Optimizer ε σ) (p : Plan) (c : CompiledPlan) :
    Run ε σ (Except QueryError (List Row × Layout)) := do
  match ← o.execute p c with
  | .ok (rows, _) => return .ok (rows, c.layout)
  | .error e => return (← o.recover p c.layout e).map Execution.answer

/-- What a plan is answered when nothing is kept. -/
def fresh (o : Optimizer ε σ) (p : Plan) (s : State ε σ) : Except QueryError (List Row × Layout) :=
  match p.compile (o.compiler s.memo) with
  | .ok c => (o.perform p c s).1
  | .error e => .error (.compile e)

end Optimizer

/-- What a beginning run may have come to: the answer when nothing is kept, or a plan to execute. -/
def Begun.Known (o : Optimizer ε σ) (p : Plan) (start : State ε σ) : Begun → Prop
  | .failed e => o.fresh p start = .error (.compile e)
  | .hit x => o.fresh p start = .ok x.answer
  | .miss pending => p.compile (o.compiler start.memo) = .ok pending.compiled ∧
      ∀ key ttl, pending.cacheAs = some (key, ttl) → key = o.keyOf p pending.compiled

namespace Optimizer

section Steps

variable {o : Optimizer ε σ} {p : Plan} {s : State ε σ}

theorem perform_of_executed {c : CompiledPlan} {rows : List Row} {report : Report}
    (executed : (o.execute p c s).1 = .ok (rows, report)) :
    (o.perform p c s).1 = .ok (rows, c.layout) := by
  rw [perform, run_bind, executed]
  rfl

theorem perform_of_unexecuted {c : CompiledPlan} {e : ExecutionError}
    (executed : (o.execute p c s).1 = .error e) :
    (o.perform p c s).1 =
      (o.recover p c.layout e (o.execute p c s).2).1.map Execution.answer := by
  rw [perform, run_bind, executed]
  rfl

theorem fresh_of_compiled {c : CompiledPlan} (compiled : p.compile (o.compiler s.memo) = .ok c) :
    o.fresh p s = (o.perform p c s).1 := by
  rw [fresh, compiled]

theorem fresh_of_error {e : CompileError} (failed : p.compile (o.compiler s.memo) = .error e) :
    o.fresh p s = .error (.compile e) := by
  rw [fresh, failed]

end Steps

/-- Whether rows are what all of some plans are answered that have a key. -/
def Serves (o : Optimizer ε σ) (plans : List Plan) (start : State ε σ) (key : String)
    (rows : List Row) : Prop :=
  ∀ p ∈ plans, ∀ c, p.compile (o.compiler start.memo) = .ok c → o.keyOf p c = key →
    (o.perform p c start).1 = .ok (rows, c.layout)

/-- Whether a text is read as such rows, if it is read at all. -/
def Stores (o : Optimizer ε σ) (plans : List Plan) (start : State ε σ) (_ key text : String) :
    Prop :=
  ∀ rows, Rows.parse? text = some rows → o.Serves plans start key rows

/-- Whether an optimizer tells plans apart by their keys: their entities are registered, no infinity
and no NaN occurs in them, and the same key stands for the same text that was hashed. -/
structure Distinguishes (o : Optimizer ε σ) (memo : Memo) (plans : List Plan) : Prop where
  registered : ∀ p ∈ plans, o.registry.get? p.entity.type = some p.entity
  finite : ∀ p ∈ plans, p.IsFinite
  apart : ∀ p ∈ plans, ∀ q ∈ plans, ∀ a b, p.compile (o.compiler memo) = .ok a →
    q.compile (o.compiler memo) = .ok b → o.keyOf p a = o.keyOf q b →
      (CacheKey.material p a.query.base).text = (CacheKey.material q b.query.base).text

section Kept

variable {o : Optimizer ε MemoryStore} {answers : Statement → Except ExecutionError (List Row)}
  (computes : o.executor.Computes answers) (enabled : Bool) {p : Plan} {c : CompiledPlan}
  {s start : State ε MemoryStore}

include computes in
theorem executed_alike (c : CompiledPlan) (found : Fallback.Finds o p start.memo s.memo) :
    (o.execute p c start).1 = ((o.withCaching enabled).execute p c s).1 ∧
      Fallback.Finds o p start.memo (o.execute p c start).2.memo ∧
      Fallback.Finds o p start.memo ((o.withCaching enabled).execute p c s).2.memo := by
  have agree : Agree (Fallback.Finds o p start.memo) (o.execute p c)
      ((o.withCaching enabled).execute p c) :=
    execute_agree computes enabled rfl c
  exact agree start s (Memo.Alike.refl _ _ _) found

variable {plans : List Plan} (distinct : o.Distinguishes start.memo plans)
include computes distinct

/-- What a plan is executed to serves all plans with its key, since they are compiled to the same. -/
theorem serves_of_executed {rows : List Row} {report : Report} (known : p ∈ plans)
    (compiled : p.compile (o.compiler start.memo) = .ok c)
    (executed : (o.execute p c start).1 = .ok (rows, report)) :
    o.Serves plans start (o.keyOf p c) rows := by
  intro q asked b made same
  have other := distinct.finite q asked
  have own := distinct.finite p known
  obtain ⟨requests, base⟩ := CacheKey.material_inj other own (Plan.base_isFinite other _ made)
    (Plan.base_isFinite own _ compiled) (distinct.apart q asked p known b c made compiled same)
  have alike := requests.selectsAlike (c := o.compiler start.memo) (distinct.registered q asked)
    (distinct.registered p known)
  obtain rfl := Plan.compile_eq_of_base alike made compiled base
  have agree : Agree (fun _ => True) (o.execute q b) (o.execute p b) :=
    execute_agree computes o.config.cacheEnabled requests.columns b
  exact perform_of_executed ((agree start start trivial trivial).1.trans executed)

/-- The rows of an executed plan are kept rightly if they survive. -/
theorem publish_cached (inMemory : o.InMemory) {pending : Pending} {rows : List Row} {report : Report}
    (cached : Cached (o.Serves plans start) (o.Stores plans start) s) (known : p ∈ plans)
    (compiled : p.compile (o.compiler start.memo) = .ok pending.compiled)
    (keyed : ∀ key ttl, pending.cacheAs = some (key, ttl) → key = o.keyOf p pending.compiled)
    (executed : (o.execute p pending.compiled start).1 = .ok (rows, report))
    (survive : Rows.Survive rows) :
    Cached (o.Serves plans start) (o.Stores plans start)
      ((o.withCaching enabled).publish p pending rows s).2 := by
  have served := serves_of_executed computes distinct known compiled executed
  have stored (tag : String) :
      o.Stores plans start tag (o.keyOf p pending.compiled) (Rows.text rows) := by
    intro read parsed
    rw [survive read parsed]
    exact served
  obtain ⟨tag, listed⟩ := exists_mem_cacheTags p
  refine cached.publish inMemory listed (fun key ttl published _ => ?_) fun key ttl published => ?_
  · rw [keyed key ttl published]
    exact served
  · rw [keyed key ttl published]
    exact stored tag

end Kept

section Answered

variable {o : Optimizer ε MemoryStore} {answers : Statement → Except ExecutionError (List Row)}
  (computes : o.executor.Computes answers) (sound : o.registry.Sound) (inMemory : o.InMemory)
  (enabled : Bool) {p : Plan} {plans : List Plan} {s start : State ε MemoryStore}
  (found : Fallback.Finds o p start.memo s.memo)
  (cached : Cached (o.Serves plans start) (o.Stores plans start) s) (known : p ∈ plans)
include sound inMemory found cached known

theorem begin_known :
    Cached (o.Serves plans start) (o.Stores plans start) ((o.withCaching enabled).begin p s).2 ∧
      Fallback.Finds o p start.memo ((o.withCaching enabled).begin p s).2.memo ∧
      ((o.withCaching enabled).begin p s).1.Known o p start := by
  have compiles : p.compile ((o.withCaching enabled).compiler s.memo) =
      p.compile (o.compiler start.memo) :=
    Plan.compile_alike (o.withCaching_alike enabled found) sound
  obtain ⟨kept, -, fits⟩ := cached.begin (o := o.withCaching enabled) inMemory
    (fun _ _ _ _ rows stored parsed => stored rows parsed) p
  have followed := Plan.alike_follow (c := (o.withCaching enabled).compiler s.memo)
    (Plan.trail_finds sound) (Memo.Alike.refl o.registry p.entity s.memo)
  refine ⟨kept, ?_, ?_⟩
  · rw [begin_memo]
    exact followed.trans found
  · cases begun : ((o.withCaching enabled).begin p s).1 with
    | failed e =>
      rw [begun] at fits
      exact fresh_of_error (compiles.symm.trans fits)
    | hit x =>
      rw [begun] at fits
      obtain ⟨c, compiled, -, layout, served⟩ := fits
      rw [compiles] at compiled
      rw [Begun.Known, fresh_of_compiled compiled, served p known c compiled rfl, ← layout]
      rfl
    | miss pending =>
      rw [begun] at fits
      obtain ⟨compiled, cacheAs, -⟩ := fits
      refine ⟨compiles.symm.trans compiled, fun key ttl published => ?_⟩
      rw [cacheAs, Option.map_eq_some_iff] at published
      obtain ⟨_, -, same⟩ := published
      exact (Prod.mk.inj same).1.symm

include computes

/-- A run is answered what it is answered when nothing is kept. -/
theorem run_answer :
    ((o.withCaching enabled).run p s).1.map Execution.answer = o.fresh p start ∧
      Fallback.Finds o p start.memo ((o.withCaching enabled).run p s).2.memo := by
  obtain ⟨-, memo, result⟩ := begin_known sound inMemory enabled found cached known
  cases begun : ((o.withCaching enabled).begin p s).1 with
  | failed e =>
    rw [begun] at result
    rw [run_of_failed begun]
    exact ⟨result.symm, memo⟩
  | hit x =>
    rw [begun] at result
    rw [run_of_hit begun]
    exact ⟨result.symm, memo⟩
  | miss pending =>
    rw [begun] at result
    obtain ⟨compiled, -⟩ := result
    obtain ⟨same, here, there⟩ := executed_alike computes enabled (p := p) pending.compiled memo
    rw [fresh_of_compiled compiled]
    cases executed : (o.execute p pending.compiled start).1 with
    | ok found =>
      obtain ⟨rows, report⟩ := found
      rw [executed] at same
      rw [run_of_executed begun same.symm, perform_of_executed executed, publish_memo]
      exact ⟨rfl, there⟩
    | error e =>
      have recovers : Agree (Fallback.Finds o p start.memo) (o.recover p pending.compiled.layout e)
          ((o.withCaching enabled).recover p pending.compiled.layout e) :=
        recover_agree sound computes enabled _ e
      obtain ⟨recovered, -, after⟩ := recovers _ _ here there
      rw [executed] at same
      rw [run_of_unexecuted begun same.symm, perform_of_unexecuted executed, recovered]
      exact ⟨rfl, after⟩

variable (distinct : o.Distinguishes start.memo plans)
  (survive : ∀ p ∈ plans, ∀ rows layout, o.fresh p start = .ok (rows, layout) → Rows.Survive rows)
include distinct survive

/-- After a run both caches still hold what they should. -/
theorem run_cached : Cached (o.Serves plans start) (o.Stores plans start)
    ((o.withCaching enabled).run p s).2 := by
  obtain ⟨kept, memo, result⟩ := begin_known sound inMemory enabled found cached known
  cases begun : ((o.withCaching enabled).begin p s).1 with
  | failed e =>
    rw [run_of_failed begun]
    exact kept
  | hit x =>
    rw [run_of_hit begun]
    exact kept
  | miss pending =>
    rw [begun] at result
    obtain ⟨compiled, keyed⟩ := result
    have reads : (o.withCaching enabled).executor.ReadsOnly := computes.reads
    obtain ⟨same, -, -⟩ := executed_alike computes enabled (p := p) pending.compiled memo
    have unchanged := kept.of_keeps (keeps_execute reads p pending.compiled)
    cases executed : (o.execute p pending.compiled start).1 with
    | ok found =>
      obtain ⟨rows, report⟩ := found
      have back := survive p known rows _
        ((fresh_of_compiled compiled).trans (perform_of_executed executed))
      rw [executed] at same
      rw [run_of_executed begun same.symm]
      exact publish_cached computes enabled distinct inMemory unchanged known compiled keyed executed
        back
    | error e =>
      rw [executed] at same
      rw [run_of_unexecuted begun same.symm]
      exact unchanged.of_keeps (keeps_recover reads p _ e)

end Answered

section Sequence

variable {o : Optimizer ε MemoryStore} (inMemory : o.InMemory)
  {answers : Statement → Except ExecutionError (List Row)} (computes : o.executor.Computes answers)
  (sound : o.registry.Sound) {plans : List Plan} {s start : State ε MemoryStore}
  (distinct : o.Distinguishes start.memo plans)
include inMemory computes sound distinct

/-- Plans that are run one after another are each answered what they are answered when nothing is
kept. -/
theorem serve_eq (enabled : Bool) {steps : List (Clock × Plan)} (drawn : ∀ step ∈ steps, step.2 ∈ plans)
    (found : ∀ p ∈ plans, Fallback.Finds o p start.memo s.memo)
    (cached : Cached (o.Serves plans start) (o.Stores plans start) s)
    (survive : ∀ p ∈ plans, ∀ rows layout, o.fresh p start = .ok (rows, layout) →
      Rows.Survive rows) :
    ((o.withCaching enabled).serve steps s).1 = steps.map fun step => o.fresh step.2 start := by
  induction steps generalizing s with
  | nil => rfl
  | cons step rest ih =>
    obtain ⟨now, p⟩ := step
    have known : p ∈ plans := drawn (now, p) List.mem_cons_self
    have timed : Cached (o.Serves plans start) (o.Stores plans start) { s with clock := now } :=
      cached.of_same rfl rfl
    obtain ⟨answered, after⟩ := run_answer computes sound inMemory enabled (s := { s with clock := now })
      (found p known) timed known
    have kept := run_cached computes sound inMemory enabled (s := { s with clock := now })
      (found p known) timed known distinct survive
    have finds (q : Plan) (asked : q ∈ plans) :=
      after.of_registered (distinct.registered p known) (distinct.registered q asked)
    have later := ih (fun step listed => drawn step (List.mem_cons_of_mem _ listed)) finds kept
    rw [List.map_cons, ← answered, ← later]
    rfl

end Sequence
end Optimizer

namespace Harbour

def ship : Entity := { type := "Ship", table := "ships", columns := ["name"] }

def crew : Entity := { type := "Crew", table := "crews" }

def ships : Plan := { entity := ship, cache := { ttl := some (.ofMillis 60000) } }

def crews : Plan := { entity := crew, safeMode := some false }

def fleet : List Row := [[("id", .int 7), ("name", .str "Argo")]]

def missing : ExecutionError := .database "no such table: crews"

/-- There is a table of ships and none of crews. -/
def answers (statement : Statement) : Except ExecutionError (List Row) :=
  if statement.sql = "SELECT \"ships\".\"id\", \"ships\".\"name\" FROM \"ships\"" then .ok fleet
  else .error missing

def optimizer : Optimizer Unit MemoryStore :=
  { config := { cacheTtl := some (.ofMillis 1000) }
    registry := [("Ship", ship), ("Crew", crew)]
    executor := ⟨.sqlite, fun statement _ _ => { answer := answers statement, next := () }⟩
    store := some MemoryStore.ops }

def start : State Unit MemoryStore := { executor := (), store := {} }

theorem sound : optimizer.registry.Sound :=
  (Registry.sound_nil.register ship).register crew

theorem ships_answer : ((optimizer.withCaching false).run ships start).1.map Execution.answer =
    .ok (fleet, []) := rfl

theorem crews_answer : ((optimizer.withCaching false).run crews start).1.map Execution.answer =
    .error (.execution missing) := rfl

theorem forall_plans {holds : Plan → Prop} (first : holds ships) (second : holds crews) :
    ∀ p ∈ [ships, crews], holds p :=
  List.forall_mem_cons.mpr ⟨first, List.forall_mem_singleton.mpr second⟩

theorem survive : ∀ p ∈ [ships, crews], ∀ x,
    ((optimizer.withCaching false).run p start).1 = .ok x → Rows.Survive x.rows := by
  have back : Rows.parse? (Rows.text fleet) = some fleet := by decide +kernel
  refine forall_plans (fun x ran => ?_) fun x ran => ?_
  · have answered := ships_answer
    rw [ran] at answered
    obtain ⟨same, -⟩ := Prod.mk.inj (Except.ok.inj answered)
    intro read parsed
    rw [same, back] at parsed
    rw [same]
    exact (Option.some.inj parsed).symm
  · have answered := crews_answer
    rw [ran] at answered
    exact nomatch answered

/-- The two plans have keys of different tables. -/
theorem apart : ∀ p ∈ [ships, crews], ∀ q ∈ [ships, crews], ∀ a b,
    p.compile (optimizer.compiler start.memo) = .ok a →
      q.compile (optimizer.compiler start.memo) = .ok b → optimizer.keyOf p a = optimizer.keyOf q b →
        (CacheKey.material p a.query.base).text = (CacheKey.material q b.query.base).text := by
  have same {p : Plan} {a b : CompiledPlan} (made : p.compile (optimizer.compiler start.memo) = .ok a)
      (again : p.compile (optimizer.compiler start.memo) = .ok b) :
      (CacheKey.material p a.query.base).text = (CacheKey.material p b.query.base).text := by
    rw [made] at again
    rw [Except.ok.inj again]
  have tables : ships.table ≠ crews.table := by decide
  refine forall_plans (forall_plans ?_ ?_) (forall_plans ?_ ?_)
  · exact fun _ _ made again _ => same made again
  · exact fun _ _ _ _ keyed => absurd (CacheKey.derive_inj keyed).1 tables
  · exact fun _ _ _ _ keyed => absurd (CacheKey.derive_inj keyed).1 tables.symm
  · exact fun _ _ made again _ => same made again

/-- The ships are asked for again while they are kept, and the crews again although they cannot be
read. -/
def steps : List (Clock × Plan) := [(0, ships), (5, crews), (7, ships), (9, crews)]

end Harbour

end EagerLoad
