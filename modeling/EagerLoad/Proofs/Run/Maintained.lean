import EagerLoad.Proofs.Run.Fetch

/-! # What an execution leaves intact

An execution fetches statements and gives notices, and does nothing else to the state. Whatever both leave
intact holds after it if it held before. The fallback also follows the drafts that it writes. -/
namespace EagerLoad

/-- Whether a run leaves an invariant of the state intact. -/
def Maintains (invariant : State ε σ → Prop) (x : Run ε σ α) : Prop :=
  ∀ s, invariant s → invariant (x s).2

namespace Maintains

variable {invariant : State ε σ → Prop}

theorem pure (a : α) : Maintains invariant (Pure.pure a : Run ε σ α) := fun _ held => held

theorem bind {x : Run ε σ α} {next : α → Run ε σ β} (first : Maintains invariant x)
    (rest : ∀ a, Maintains invariant (next a)) : Maintains invariant (x >>= next) :=
  fun s held => rest (x s).1 (x s).2 (first s held)

/-- An attempt leaves an invariant intact if every attempt that it consists of does. -/
theorem attempt {x : Attempt ε σ α} {next : α → Attempt ε σ β} (first : Maintains invariant x.run)
    (rest : ∀ a, Maintains invariant (next a).run) : Maintains invariant (x >>= next).run := by
  rw [attempt_bind]
  refine bind first fun a => ?_
  cases a with
  | ok a => exact rest a
  | error e => exact pure _

theorem lift {x : Run ε σ α} (h : Maintains invariant x) :
    Maintains invariant (ExceptT.lift x : Attempt ε σ α).run :=
  bind h fun _ => pure _

theorem foldlM {items : List α} {step : β → α → Attempt ε σ β}
    (each : ∀ b item, Maintains invariant (step b item).run) (b : β) :
    Maintains invariant (items.foldlM step b).run := by
  induction items generalizing b with
  | nil => exact pure _
  | cons item rest ih =>
    rw [List.foldlM_cons]
    exact attempt (each b item) ih

theorem get : Maintains invariant (MonadState.get : Run ε σ (State ε σ)) := fun _ held => held

theorem compileStep (x : Except CompileError α) :
    Maintains invariant (Fallback.compileStep x : Attempt ε σ α).run := by
  cases x <;> exact pure _

variable {o : Optimizer ε σ}

theorem contextNow (p : Plan) : Maintains invariant (Fallback.contextNow o p).run :=
  attempt (lift get) fun _ => pure _

/-- A fetch changes the executor's own state and invalidates tables. -/
theorem fetch (advance : ∀ s e, invariant s → invariant { s with executor := e })
    (invalidate : ∀ table, Maintains invariant (o.invalidate table)) (statement : Statement)
    (timeout : Option Duration) : Maintains invariant (o.fetch statement timeout) := by
  have all (tables : List String) : Maintains invariant (o.invalidateAll tables) := by
    induction tables with
    | nil => exact pure _
    | cons table rest ih => exact bind (invalidate table) fun _ => ih
  intro s held
  exact all _ _ (advance s _ held)

variable (fetched : ∀ statement timeout, Maintains invariant (o.fetch statement timeout))
  (noted : ∀ n, Maintains invariant (Run.note n : Run ε σ Unit))
include fetched noted

theorem fetchLogged (statement : Statement) (timeout : Option Duration) :
    Maintains invariant (o.fetchLogged statement timeout) := by
  refine bind ?_ fun _ => fetched statement timeout
  unfold Optimizer.logStatement
  split
  · exact noted _
  · exact pure _

theorem fetchPlain (p : Plan) (statement : Statement) :
    Maintains invariant (o.fetchPlain p statement) := by
  refine bind (fetchLogged fetched noted statement _) fun answer => ?_
  cases answer with
  | ok rows => exact pure _
  | error e => exact bind (noted _) fun _ => pure _

theorem executeSingle (statement : Statement) (timeout : Option Duration) :
    Maintains invariant (o.executeSingle statement timeout) := by
  refine bind (fetchLogged fetched noted statement timeout) fun answer => ?_
  cases answer <;> exact pure _

theorem executeBatches (primaryKey : String) (keys : List DbValue) (timeout : Option Duration)
    (followUps : List FollowUp) (rows : List Row) (report : Report) :
    Maintains invariant (o.executeBatches primaryKey keys timeout followUps rows report) := by
  induction followUps generalizing rows report with
  | nil => exact pure _
  | cons batch rest ih =>
    refine bind (fetchLogged fetched noted _ timeout) fun answer => ?_
    cases answer with
    | ok incoming => exact ih _ _
    | error e =>
      dsimp only
      split
      · exact pure _
      · exact bind (noted _) fun _ => ih _ _

theorem executeSplit (p : Plan) (split : Split) (timeout : Option Duration) :
    Maintains invariant (o.executeSplit p split timeout) := by
  refine bind (fetchLogged fetched noted split.base timeout) fun answer => ?_
  cases answer with
  | error e => exact pure _
  | ok rows =>
    refine bind (executeBatches fetched noted _ _ _ _ _ _) fun merged => ?_
    cases merged <;> exact pure _

theorem execute (p : Plan) (compiled : CompiledPlan) :
    Maintains invariant (o.execute p compiled) := by
  unfold Optimizer.execute
  split
  · exact executeSingle fetched noted _ _
  · exact executeSplit fetched noted _ _ _

section Fallback

open Fallback (attach groupRows relationValue)

variable (followed : ∀ draft, Maintains invariant (Run.follow draft : Run ε σ Unit))

section Fetching

omit noted
include followed

theorem fetchDraft (timeout : Option Duration) (draft : Sql.Draft) :
    Maintains invariant (Fallback.fetchDraft o timeout draft).run := by
  refine attempt (lift (followed draft)) fun _ => ?_
  refine attempt (compileStep _) fun statement => ?_
  refine attempt (lift (fetched statement timeout)) fun answer => ?_
  cases answer <;> exact pure _

theorem loadBase (p : Plan) (timeout : Option Duration) (keys : List String) :
    Maintains invariant (Fallback.loadBase o p timeout keys).run :=
  attempt (lift get) fun _ => fetchDraft fetched followed timeout _

theorem loadValues (p : Plan) (timeout : Option Duration) (relation label : String) (absent : Json)
    (draft : Context → List DbValue → Sql.Draft) (l : Loaded) :
    Maintains invariant (Fallback.loadValues o p timeout relation label absent draft l).run := by
  refine attempt (compileStep _) fun key => ?_
  dsimp only
  split
  · exact pure _
  · refine attempt (contextNow p) fun ctx => ?_
    exact attempt (fetchDraft fetched followed timeout _) fun rows => pure _

end Fetching

include followed

theorem loadRelation (p : Plan) (timeout : Option Duration) (l : Loaded) (r : RelationRequest) :
    Maintains invariant (Fallback.loadRelation o p timeout l r).run := by
  refine attempt (compileStep _) fun key => ?_
  refine attempt (compileStep _) fun shape => ?_
  dsimp only
  split
  · exact pure _
  · refine attempt (compileStep _) fun selection => ?_
    have rest : Maintains invariant (do
        let ctx ← Fallback.contextNow o p
        let related ← Fallback.fetchDraft o timeout
          (Keyed.relation ctx p.entity r selection.1 (Rows.collectKeys l.rows key))
        return (⟨attach key r.label (groupRows related) []
          (relationValue shape (Subquery.limitOf r.filter)) l.rows, l.statements + 1⟩ : Loaded) :
          Attempt ε σ Loaded).run := by
      refine attempt (contextNow p) fun ctx => ?_
      exact attempt (fetchDraft fetched followed timeout _) fun related => pure _
    split
    · exact attempt (lift (noted _)) fun _ => rest
    · exact rest

theorem load (p : Plan) (timeout : Option Duration) :
    Maintains invariant (Fallback.load o p timeout).run := by
  refine attempt (compileStep _) fun keys => ?_
  refine attempt (lift get) fun s => ?_
  refine attempt (loadBase fetched followed p timeout keys) fun base => ?_
  refine attempt (compileStep _) fun helpers => ?_
  refine attempt (foldlM (loadRelation fetched noted followed p timeout) _) fun loaded => ?_
  refine attempt (foldlM (fun l c => loadValues fetched followed p timeout _ _ _ _ l) _) fun counted => ?_
  refine attempt (foldlM (fun l a => loadValues fetched followed p timeout _ _ _ _ l) _) fun total => ?_
  exact attempt (lift (noted _)) fun _ => pure _

theorem recover (p : Plan) (layout : Layout) (e : ExecutionError) :
    Maintains invariant (o.recover p layout e) := by
  unfold Optimizer.recover
  split
  · refine bind (noted _) fun _ => bind (load fetched noted followed p _) fun loaded => ?_
    cases loaded <;> exact pure _
  · exact bind (noted _) fun _ => pure _

end Fallback
end Maintains
end EagerLoad
