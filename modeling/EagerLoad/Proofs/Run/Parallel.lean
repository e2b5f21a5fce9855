import EagerLoad.Proofs.Run.Fetch
import EagerLoad.Run.Fallback

/-! # Runs side by side

Two optimizers may differ in what their states keep beside what they answer by. If related states stay
related through all that a run consists of, whole runs from related states give the same. -/
namespace EagerLoad

/-- Whether two runs give the same from related states, and leave related states. -/
def Parallel (R : State ε σ → State δ τ → Prop) (x : Run ε σ α) (y : Run δ τ α) : Prop :=
  ∀ s t, R s t → (x s).1 = (y t).1 ∧ R (x s).2 (y t).2

/-- Whether two optimizers have the same settings, and do the same in related states when they meet their
executors and their stores. -/
structure Optimizer.Twins (R : State ε σ → State δ τ → Prop) (o : Optimizer ε σ) (o' : Optimizer δ τ) :
    Prop where
  config : o'.config = o.config
  registry : o'.registry = o.registry
  dialect : o'.executor.dialect = o.executor.dialect
  memo : ∀ s t, R s t → t.memo = s.memo
  request : ∀ s t, R s t → t.request = s.request
  note : ∀ n, Parallel R (Run.note n) (Run.note n)
  follow : ∀ draft, Parallel R (Run.follow draft) (Run.follow draft)
  fetch : ∀ statement timeout, Parallel R (o.fetch statement timeout) (o'.fetch statement timeout)
  requestPut : ∀ key rows generation,
    Parallel R (Optimizer.requestPut key rows generation) (Optimizer.requestPut key rows generation)
  externalGet : ∀ key, Parallel R (o.externalGet key) (o'.externalGet key)
  externalPut : ∀ key rows ttl tags,
    Parallel R (o.externalPut key rows ttl tags) (o'.externalPut key rows ttl tags)

namespace Parallel

variable {R : State ε σ → State δ τ → Prop}

theorem pure (a : α) : Parallel R (Pure.pure a) (Pure.pure a) := fun _ _ related => ⟨rfl, related⟩

theorem bind {x : Run ε σ α} {y : Run δ τ α} {next : α → Run ε σ β} {other : α → Run δ τ β}
    (first : Parallel R x y) (rest : ∀ a, Parallel R (next a) (other a)) :
    Parallel R (x >>= next) (y >>= other) := by
  intro s t related
  obtain ⟨answer, left⟩ := first s t related
  have later := rest (x s).1 _ _ left
  rw [run_bind, run_bind, ← answer]
  exact later

/-- What is done with two states is parallel if it is for related ones. -/
theorem get {next : State ε σ → Run ε σ α} {other : State δ τ → Run δ τ α}
    (rest : ∀ s t, R s t → Parallel R (next s) (other t)) :
    Parallel R (MonadState.get >>= next) (MonadState.get >>= other) :=
  fun s t related => rest s t related s t related

theorem modify {change : State ε σ → State ε σ} {other : State δ τ → State δ τ}
    (kept : ∀ s t, R s t → R (change s) (other t)) :
    Parallel R (MonadState.modifyGet fun s => ((), change s))
      (MonadState.modifyGet fun t => ((), other t)) :=
  fun s t related => ⟨rfl, kept s t related⟩

theorem attempt {x : Attempt ε σ α} {y : Attempt δ τ α} {next : α → Attempt ε σ β}
    {other : α → Attempt δ τ β} (first : Parallel R x.run y.run)
    (rest : ∀ a, Parallel R (next a).run (other a).run) :
    Parallel R (x >>= next).run (y >>= other).run := by
  rw [attempt_bind, attempt_bind]
  refine bind first fun a => ?_
  cases a with
  | ok a => exact rest a
  | error e => exact pure _

theorem lift {x : Run ε σ α} {y : Run δ τ α} (h : Parallel R x y) :
    Parallel R (ExceptT.lift x : Attempt ε σ α).run (ExceptT.lift y : Attempt δ τ α).run :=
  bind h fun _ => pure _

theorem attempt_get {next : State ε σ → Attempt ε σ α} {other : State δ τ → Attempt δ τ α}
    (rest : ∀ s t, R s t → Parallel R (next s).run (other t).run) :
    Parallel R (MonadState.get >>= next).run (MonadState.get >>= other).run :=
  fun s t related => rest s t related s t related

theorem foldlM {items : List α} {step : β → α → Attempt ε σ β} {other : β → α → Attempt δ τ β}
    (each : ∀ b item, Parallel R (step b item).run (other b item).run) (b : β) :
    Parallel R (items.foldlM step b).run (items.foldlM other b).run := by
  induction items generalizing b with
  | nil => exact pure _
  | cons item rest ih =>
    rw [List.foldlM_cons, List.foldlM_cons]
    exact attempt (each b item) ih

theorem compileStep (x : Except CompileError α) :
    Parallel R (Fallback.compileStep x : Attempt ε σ α).run
      (Fallback.compileStep x : Attempt δ τ α).run := by
  cases x <;> exact pure _

end Parallel

namespace Optimizer.Twins

variable {R : State ε σ → State δ τ → Prop} {o : Optimizer ε σ} {o' : Optimizer δ τ}
  (twins : Twins R o o')
include twins

theorem timeout (p : Plan) : o'.timeout p = o.timeout p := by
  rw [Optimizer.timeout, Optimizer.timeout, twins.config]

theorem cacheTtl (p : Plan) : o'.cacheTtl p = o.cacheTtl p := by
  rw [Optimizer.cacheTtl, Optimizer.cacheTtl, twins.config]

theorem compiler {s : State ε σ} {t : State δ τ} (related : R s t) :
    o'.compiler t.memo = o.compiler s.memo := by
  rw [Optimizer.compiler, Optimizer.compiler, twins.config, twins.registry, twins.dialect,
    twins.memo s t related]

theorem fetchLogged (statement : Statement) (timeout : Option Duration) :
    Parallel R (o.fetchLogged statement timeout) (o'.fetchLogged statement timeout) := by
  refine .bind ?_ fun _ => twins.fetch statement timeout
  unfold logStatement
  rw [twins.config]
  split
  · exact twins.note _
  · exact .pure _

theorem executeSingle (statement : Statement) (timeout : Option Duration) :
    Parallel R (o.executeSingle statement timeout) (o'.executeSingle statement timeout) := by
  refine .bind (twins.fetchLogged statement timeout) fun answer => ?_
  cases answer <;> exact .pure _

theorem executeBatches (primaryKey : String) (keys : List DbValue) (timeout : Option Duration)
    (followUps : List FollowUp) (rows : List Row) (report : Report) :
    Parallel R (o.executeBatches primaryKey keys timeout followUps rows report)
      (o'.executeBatches primaryKey keys timeout followUps rows report) := by
  induction followUps generalizing rows report with
  | nil => exact .pure _
  | cons batch rest ih =>
    unfold Optimizer.executeBatches
    rw [twins.dialect, twins.config]
    refine .bind (twins.fetchLogged _ timeout) fun answer => ?_
    cases answer with
    | ok incoming => exact ih _ _
    | error e =>
      dsimp only
      split
      · exact .pure _
      · exact .bind (twins.note _) fun _ => ih _ _

theorem executeSplit (p : Plan) (split : Split) (timeout : Option Duration) :
    Parallel R (o.executeSplit p split timeout) (o'.executeSplit p split timeout) := by
  refine .bind (twins.fetchLogged split.base timeout) fun answer => ?_
  cases answer with
  | error e => exact .pure _
  | ok rows =>
    refine .bind (twins.executeBatches _ _ _ _ _ _) fun merged => ?_
    cases merged <;> exact .pure _

theorem execute (p : Plan) (compiled : CompiledPlan) :
    Parallel R (o.execute p compiled) (o'.execute p compiled) := by
  unfold Optimizer.execute
  rw [twins.timeout]
  split
  · exact twins.executeSingle _ _
  · exact twins.executeSplit _ _ _

theorem fetchDraft (timeout : Option Duration) (draft : Sql.Draft) :
    Parallel R (Fallback.fetchDraft o timeout draft).run (Fallback.fetchDraft o' timeout draft).run := by
  unfold Fallback.fetchDraft
  rw [twins.dialect]
  refine .attempt (.lift (twins.follow draft)) fun _ => ?_
  refine .attempt (.compileStep _) fun statement => ?_
  refine .attempt (.lift (twins.fetch statement timeout)) fun answer => ?_
  cases answer <;> exact .pure _

theorem contextNow (p : Plan) :
    Parallel R (Fallback.contextNow o p).run (Fallback.contextNow o' p).run :=
  .attempt_get fun s t related => by
    rw [twins.compiler related]
    exact .pure _

theorem loadBase (p : Plan) (timeout : Option Duration) (keys : List String) :
    Parallel R (Fallback.loadBase o p timeout keys).run (Fallback.loadBase o' p timeout keys).run :=
  .attempt_get fun s t related => by
    rw [twins.compiler related]
    exact twins.fetchDraft timeout _

theorem loadRelation (p : Plan) (timeout : Option Duration) (l : Loaded) (r : RelationRequest) :
    Parallel R (Fallback.loadRelation o p timeout l r).run
      (Fallback.loadRelation o' p timeout l r).run := by
  refine .attempt (.compileStep _) fun key => ?_
  refine .attempt (.compileStep _) fun shape => ?_
  dsimp only
  split
  · exact .pure _
  · rw [twins.registry]
    refine .attempt (.compileStep _) fun selection => ?_
    split
    · refine .attempt (.lift (twins.note _)) fun _ => .attempt (twins.contextNow p) fun ctx => ?_
      exact .attempt (twins.fetchDraft timeout _) fun related => .pure _
    · refine .attempt (twins.contextNow p) fun ctx => ?_
      exact .attempt (twins.fetchDraft timeout _) fun related => .pure _

theorem loadValues (p : Plan) (timeout : Option Duration) (relation label : String) (absent : Json)
    (draft : Context → List DbValue → Sql.Draft) (l : Loaded) :
    Parallel R (Fallback.loadValues o p timeout relation label absent draft l).run
      (Fallback.loadValues o' p timeout relation label absent draft l).run := by
  refine .attempt (.compileStep _) fun key => ?_
  dsimp only
  split
  · exact .pure _
  · refine .attempt (twins.contextNow p) fun ctx => ?_
    exact .attempt (twins.fetchDraft timeout _) fun rows => .pure _

theorem load (p : Plan) (timeout : Option Duration) :
    Parallel R (Fallback.load o p timeout).run (Fallback.load o' p timeout).run := by
  refine .attempt (.compileStep _) fun keys => ?_
  refine .attempt_get fun s t related => ?_
  dsimp only
  rw [twins.compiler related]
  refine .attempt (twins.loadBase p timeout keys) fun base => ?_
  refine .attempt (.compileStep _) fun helpers => ?_
  refine .attempt (.foldlM (twins.loadRelation p timeout) _) fun loaded => ?_
  refine .attempt (.foldlM (fun l c => twins.loadValues p timeout _ _ _ _ l) _) fun counted => ?_
  refine .attempt (.foldlM (fun l a => twins.loadValues p timeout _ _ _ _ l) _) fun total => ?_
  exact .attempt (.lift (twins.note _)) fun _ => .pure _

theorem recover (p : Plan) (layout : Layout) (e : ExecutionError) :
    Parallel R (o.recover p layout e) (o'.recover p layout e) := by
  unfold Optimizer.recover safeMode
  rw [twins.config, twins.timeout]
  split
  · refine .bind (twins.note _) fun _ => .bind (twins.load p _) fun loaded => ?_
    cases loaded <;> exact .pure _
  · exact .bind (twins.note _) fun _ => .pure _

theorem publish (p : Plan) (pending : Pending) (rows : List Row) :
    Parallel R (o.publish p pending rows) (o'.publish p pending rows) := by
  unfold Optimizer.publish
  split
  · exact .pure _
  · exact .bind (twins.requestPut _ _ _) fun _ => twins.externalPut _ _ _ _

theorem compile (p : Plan) : Parallel R (o.compile p) (o'.compile p) :=
  .get fun s t related => by
    dsimp only
    rw [twins.compiler related]
    exact .bind (twins.follow _) fun _ => .pure _

theorem begin (p : Plan) : Parallel R (o.begin p) (o'.begin p) := by
  refine .bind (twins.compile p) fun compiled => ?_
  cases compiled with
  | error e => exact .pure _
  | ok compiled =>
    dsimp only
    rw [twins.cacheTtl, twins.config]
    refine .get fun s t related => ?_
    rw [twins.request s t related]
    split
    · exact .pure _
    · refine .get fun s' t' related' => ?_
      rw [twins.request s' t' related']
      split
      · exact .bind (twins.note _) fun _ => .pure _
      · refine .bind (twins.externalGet _) fun found => ?_
        cases found with
        | none => exact .pure _
        | some rows =>
          exact .bind (twins.note _) fun _ => .bind (twins.requestPut _ _ _) fun _ => .pure _

/-- A plan is answered the same from related states, and its run leaves related states. -/
theorem run (p : Plan) : Parallel R (o.run p) (o'.run p) := by
  refine .bind (twins.begin p) fun begun => ?_
  cases begun with
  | failed e => exact .pure _
  | hit execution => exact .pure _
  | miss pending =>
    refine .bind (twins.execute p pending.compiled) fun executed => ?_
    cases executed with
    | error e => exact twins.recover p _ e
    | ok found => exact .bind (twins.publish p pending _) fun _ => .pure _

end Optimizer.Twins
end EagerLoad
