import EagerLoad.Proofs.Plan.Recompiled
import EagerLoad.Proofs.Run.Caches

/-! # Runs that agree

With an executor that answers by a function, what a plan is executed to does not depend on the state:
neither on what was executed before nor on when, and on the memo only by what it finds. So does what
the fallback loads, and so do the errors of both. -/
namespace EagerLoad

open Sql.Draft

/-- Whether an executor answers every statement by a function, and reports no table as written to. -/
structure Executor.Computes (x : Executor ε)
    (answers : Statement → Except ExecutionError (List Row)) : Prop where
  answer : ∀ statement timeout e, (x.fetch statement timeout e).answer = answers statement
  reads : x.ReadsOnly

/-- Whether two runs give the same from all states whose memos find the right things, and leave such
states. -/
def Agree (finds : Memo → Prop) (x y : Run ε σ α) : Prop :=
  ∀ s t, finds s.memo → finds t.memo →
    (x s).1 = (y t).1 ∧ finds (x s).2.memo ∧ finds (y t).2.memo

namespace Agree

variable {finds : Memo → Prop}

theorem pure (a : α) : Agree finds (Pure.pure a : Run ε σ α) (Pure.pure a) :=
  fun _ _ found other => ⟨rfl, found, other⟩

theorem bind {x y : Run ε σ α} {next other : α → Run ε σ β} (first : Agree finds x y)
    (rest : ∀ a, Agree finds (next a) (other a)) : Agree finds (x >>= next) (y >>= other) := by
  intro s t found knows
  obtain ⟨same, found, knows⟩ := first s t found knows
  have later := rest (x s).1 (x s).2 (y t).2 found knows
  rw [same] at later
  rw [run_bind, run_bind, same]
  exact later

theorem note (n : Notice) : Agree finds (Run.note n : Run ε σ Unit) (Run.note n) :=
  fun _ _ found other => ⟨rfl, found, other⟩

theorem attempt {x y : Attempt ε σ α} {next other : α → Attempt ε σ β}
    (first : Agree finds x.run y.run) (rest : ∀ a, Agree finds (next a).run (other a).run) :
    Agree finds (x >>= next).run (y >>= other).run := by
  rw [attempt_bind, attempt_bind]
  refine bind first fun a => ?_
  cases a with
  | ok a => exact rest a
  | error e => exact pure _

theorem lift {x y : Run ε σ α} (h : Agree finds x y) :
    Agree finds (ExceptT.lift x : Attempt ε σ α).run (ExceptT.lift y : Attempt ε σ α).run :=
  bind h fun _ => pure _

theorem foldlM {items : List α} {step other : β → α → Attempt ε σ β}
    (each : ∀ b item, Agree finds (step b item).run (other b item).run) (b : β) :
    Agree finds (items.foldlM step b).run (items.foldlM other b).run := by
  induction items generalizing b with
  | nil => exact pure _
  | cons item rest ih =>
    rw [List.foldlM_cons, List.foldlM_cons]
    exact attempt (each b item) ih

/-- What is done with two states agrees if it does whenever their memos find the right things. -/
theorem attempt_get {next other : State ε σ → Attempt ε σ α}
    (h : ∀ s t, finds s.memo → finds t.memo → Agree finds (next s).run (other t).run) :
    Agree finds (MonadState.get >>= next).run (MonadState.get >>= other).run :=
  fun s t found knows => h s t found knows s t found knows

end Agree

/-- The optimizer with its caches turned on or off. -/
def Optimizer.withCaching (o : Optimizer ε σ) (enabled : Bool) : Optimizer ε σ :=
  { o with config := { o.config with cacheEnabled := enabled } }

namespace Optimizer

theorem compiler_alike (o : Optimizer ε σ) {base : Entity} {m memo : Memo}
    (found : Memo.Alike o.registry base m memo) : (o.compiler m).Alike base (o.compiler memo) :=
  ⟨rfl, rfl, rfl, rfl, found⟩

theorem withCaching_alike (o : Optimizer ε σ) (enabled : Bool) {base : Entity} {m memo : Memo}
    (found : Memo.Alike o.registry base m memo) :
    ((o.withCaching enabled).compiler m).Alike base (o.compiler memo) :=
  ⟨rfl, rfl, rfl, rfl, found⟩

variable {o : Optimizer ε σ} {answers : Statement → Except ExecutionError (List Row)}
  (computes : o.executor.Computes answers) {finds : Memo → Prop} (enabled : Bool)
include computes

theorem fetch_agree (statement : Statement) (timeout other : Option Duration) :
    Agree finds (o.fetch statement timeout) ((o.withCaching enabled).fetch statement other) := by
  intro s t found knows
  refine ⟨?_, ?_, ?_⟩
  · rw [fetch_answer, fetch_answer, computes.answer]
    exact (computes.answer statement other t.executor).symm
  · rw [fetch_memo]
    exact found
  · rw [fetch_memo]
    exact knows

theorem fetchLogged_agree (statement : Statement) (timeout other : Option Duration) :
    Agree finds (o.fetchLogged statement timeout)
      ((o.withCaching enabled).fetchLogged statement other) := by
  refine .bind ?_ fun _ => fetch_agree computes enabled statement timeout other
  unfold logStatement withCaching
  split
  · exact .note _
  · exact .pure _

theorem executeSingle_agree (statement : Statement) (timeout other : Option Duration) :
    Agree finds (o.executeSingle statement timeout)
      ((o.withCaching enabled).executeSingle statement other) := by
  refine .bind (fetchLogged_agree computes enabled statement timeout other) fun answer => ?_
  cases answer <;> exact .pure _

theorem executeBatches_agree (primaryKey : String) (keys : List DbValue)
    (timeout other : Option Duration) (followUps : List FollowUp) (rows : List Row)
    (report : Report) :
    Agree finds (o.executeBatches primaryKey keys timeout followUps rows report)
      ((o.withCaching enabled).executeBatches primaryKey keys other followUps rows report) := by
  induction followUps generalizing rows report with
  | nil => exact .pure _
  | cons batch rest ih =>
    refine .bind (fetchLogged_agree computes enabled _ timeout other) fun answer => ?_
    cases answer with
    | ok incoming => exact ih _ _
    | error e =>
      have setting : (o.withCaching enabled).config.splitFailure = o.config.splitFailure := rfl
      dsimp only
      rw [setting]
      split
      · exact .pure _
      · exact .bind (.note _) fun _ => ih _ _

/-- Plans that ask for the same columns and are compiled to the same are executed to the same. -/
theorem execute_agree {p q : Plan} (columns : p.columns = q.columns) (compiled : CompiledPlan) :
    Agree finds (o.execute p compiled) ((o.withCaching enabled).execute q compiled) := by
  have asks : asksFor p = asksFor q := by
    funext column
    rw [asksFor, asksFor, columns]
  unfold execute
  split
  · exact executeSingle_agree computes enabled _ _ _
  · rename_i split _
    unfold executeSplit
    refine .bind (fetchLogged_agree computes enabled split.base _ _) fun answer => ?_
    cases answer with
    | error e => exact .pure _
    | ok rows =>
      refine .bind (executeBatches_agree computes enabled _ _ _ _ _ _ _) fun merged => ?_
      rw [asks]
      cases merged <;> exact .pure _

end Optimizer

namespace Fallback

variable {o : Optimizer ε σ} {p : Plan} {memo : Memo}

/-- The memos that find what a given one finds. -/
abbrev Finds (o : Optimizer ε σ) (p : Plan) (memo m : Memo) : Prop :=
  Memo.Alike o.registry p.entity m memo

theorem compileStep_agree {finds : Memo → Prop} (x : Except CompileError α) :
    Agree finds (compileStep x : Attempt ε σ α).run (compileStep x : Attempt ε σ α).run := by
  cases x <;> exact .pure _

theorem helperColumns_alike {c other : Compiler} (alike : c.Alike p.entity other)
    (keys : List String) : helperColumns p c keys = helperColumns p other keys := by
  unfold helperColumns
  rw [Plan.localization?_alike alike]

theorem follow_agree {draft : Sql.Draft} (written : Written (p.finds (o.compiler memo)) draft) :
    Agree (Finds o p memo) (Run.follow draft : Run ε σ Unit) (Run.follow draft) :=
  fun _ _ found other =>
    ⟨rfl, Plan.alike_follow written found, Plan.alike_follow written other⟩

variable (enabled : Bool) (sound : o.registry.Sound)

include sound in
/-- The context of any moment finds the same. -/
theorem contextNow_agree {next other : Context → Attempt ε σ α}
    (same : ∀ ctx, ctx.Alike (p.context (o.compiler memo)) →
      next ctx = next (p.context (o.compiler memo)) ∧
        other ctx = other (p.context (o.compiler memo)))
    (h : Agree (Finds o p memo) (next (p.context (o.compiler memo))).run
      (other (p.context (o.compiler memo))).run) :
    Agree (Finds o p memo) (contextNow o p >>= next).run
      (contextNow (o.withCaching enabled) p >>= other).run := by
  have agree : Agree (Finds o p memo)
      (MonadState.get >>= fun s => next (p.context (o.compiler s.memo))).run
      (MonadState.get >>= fun s =>
        other (p.context ((o.withCaching enabled).compiler s.memo))).run := by
    refine .attempt_get fun s t found knows => ?_
    have here := Plan.contexts_alike (o.compiler_alike found) sound
    have there := Plan.contexts_alike (o.withCaching_alike enabled knows) sound
    rw [(same _ here).1, (same _ there).2]
    exact h
  exact agree

variable {answers : Statement → Except ExecutionError (List Row)}
  (computes : o.executor.Computes answers) (timeout : Option Duration)
include computes

theorem fetchDraft_agree {draft : Sql.Draft} (written : Written (p.finds (o.compiler memo)) draft) :
    Agree (Finds o p memo) (fetchDraft o timeout draft).run
      (fetchDraft (o.withCaching enabled) timeout draft).run := by
  refine .attempt (.lift (follow_agree written)) fun _ => ?_
  refine .attempt (compileStep_agree _) fun statement => ?_
  refine .attempt (.lift (Optimizer.fetch_agree computes enabled statement _ _)) fun answer => ?_
  cases answer <;> exact .pure _

include sound

theorem loadRelation_agree (l : Loaded) (r : RelationRequest) :
    Agree (Finds o p memo) (loadRelation o p timeout l r).run
      (loadRelation (o.withCaching enabled) p timeout l r).run := by
  refine .attempt (compileStep_agree _) fun key => ?_
  refine .attempt (compileStep_agree _) fun shape => ?_
  dsimp only
  split
  · exact .pure _
  · refine .attempt (compileStep_agree _) fun selection => ?_
    have rest (attached : List Row → Loaded) : Agree (Finds o p memo)
        (contextNow o p >>= fun ctx => fetchDraft o timeout
          (Keyed.relation ctx p.entity r selection.1 (Rows.collectKeys l.rows key)) >>=
            fun related => (pure (attached related) : Attempt ε σ Loaded)).run
        (contextNow (o.withCaching enabled) p >>= fun ctx =>
          fetchDraft (o.withCaching enabled) timeout
            (Keyed.relation ctx p.entity r selection.1 (Rows.collectKeys l.rows key)) >>=
              fun related => (pure (attached related) : Attempt ε σ Loaded)).run := by
      refine contextNow_agree enabled sound (fun ctx alike => ?_) ?_
      · rw [Keyed.relation_congr alike]
        exact ⟨rfl, rfl⟩
      · have looked := Plan.context_consults (p := p) (c := o.compiler memo) sound
        refine .attempt (fetchDraft_agree enabled computes timeout ?_) fun related => .pure _
        exact Keyed.relation_written _ looked r selection.1 fun _ _ => trivial
    split
    · exact .attempt (.lift (.note _)) fun _ => rest _
    · exact rest _

theorem loadValues_agree (relation label : String) (absent : Json)
    {draft : Context → List DbValue → Sql.Draft} (l : Loaded)
    (congr : ∀ ctx, ctx.Alike (p.context (o.compiler memo)) →
      draft ctx = draft (p.context (o.compiler memo)))
    (written : ∀ keys, Written (p.finds (o.compiler memo)) (draft (p.context (o.compiler memo)) keys)) :
    Agree (Finds o p memo) (loadValues o p timeout relation label absent draft l).run
      (loadValues (o.withCaching enabled) p timeout relation label absent draft l).run := by
  refine .attempt (compileStep_agree _) fun key => ?_
  dsimp only
  split
  · exact .pure _
  · refine contextNow_agree enabled sound (fun ctx alike => ?_) ?_
    · rw [congr ctx alike]
      exact ⟨rfl, rfl⟩
    · exact .attempt (fetchDraft_agree enabled computes timeout (written _)) fun rows => .pure _

theorem loadCount_agree (l : Loaded) (c : CountRequest) :
    Agree (Finds o p memo) (loadCount o p timeout l c).run
      (loadCount (o.withCaching enabled) p timeout l c).run := by
  have looked := Plan.context_consults (p := p) (c := o.compiler memo) sound
  refine loadValues_agree enabled sound computes timeout _ _ _ l (fun ctx alike => ?_) fun keys => ?_
  · exact funext fun keys => Keyed.count_congr alike p.entity keys c
  · exact Keyed.count_written keys looked c fun _ _ => trivial

theorem loadAggregate_agree (l : Loaded) (a : AggregateRequest) :
    Agree (Finds o p memo) (loadAggregate o p timeout l a).run
      (loadAggregate (o.withCaching enabled) p timeout l a).run := by
  have looked := Plan.context_consults (p := p) (c := o.compiler memo) sound
  refine loadValues_agree enabled sound computes timeout _ _ _ l (fun ctx alike => ?_) fun keys => ?_
  · exact funext fun keys => Keyed.aggregate_congr alike p.entity keys a
  · exact Keyed.aggregate_written keys looked a fun _ _ => trivial

theorem loadBase_agree (keys : List String) :
    Agree (Finds o p memo) (loadBase o p timeout keys).run
      (loadBase (o.withCaching enabled) p timeout keys).run := by
  have written : Written (p.finds (o.compiler memo)) (p.baseOnlyDraft (o.compiler memo) keys) :=
    Plan.draft_finds sound (List.nil_subset _)
  refine .attempt_get fun s t found other => ?_
  rw [Plan.baseOnlyDraft, Plan.draft_alike (o.compiler_alike found) sound, Plan.baseOnlyDraft,
    Plan.draft_alike (o.withCaching_alike enabled other) sound]
  exact fetchDraft_agree enabled computes timeout written

theorem load_agree :
    Agree (Finds o p memo) (load o p timeout).run (load (o.withCaching enabled) p timeout).run := by
  refine .attempt (compileStep_agree _) fun keys => ?_
  refine .attempt_get fun s t found other => ?_
  refine .attempt (loadBase_agree enabled sound computes timeout keys) fun base => ?_
  rw [helperColumns_alike (o.compiler_alike found),
    helperColumns_alike (o.withCaching_alike enabled other)]
  refine .attempt (compileStep_agree _) fun helpers => ?_
  refine .attempt (.foldlM (loadRelation_agree enabled sound computes timeout) _) fun loaded => ?_
  refine .attempt (.foldlM (loadCount_agree enabled sound computes timeout) _) fun counted => ?_
  refine .attempt (.foldlM (loadAggregate_agree enabled sound computes timeout) _) fun total => ?_
  exact .attempt (.lift (.note _)) fun _ => .pure _

end Fallback

/-- After a failed execution the same is loaded, or the same error is given, from any state. -/
theorem Optimizer.recover_agree {o : Optimizer ε σ} {p : Plan} {memo : Memo}
    (sound : o.registry.Sound) {answers : Statement → Except ExecutionError (List Row)}
    (computes : o.executor.Computes answers) (enabled : Bool) (layout : Layout)
    (e : ExecutionError) :
    Agree (Fallback.Finds o p memo) (o.recover p layout e)
      ((o.withCaching enabled).recover p layout e) := by
  have setting : (o.withCaching enabled).safeMode p = o.safeMode p := rfl
  unfold recover
  rw [setting]
  split
  · refine .bind (.note _) fun _ => ?_
    refine .bind (Fallback.load_agree enabled sound computes _) fun loaded => ?_
    cases loaded <;> exact .pure _
  · exact .bind (.note _) fun _ => .pure _

end EagerLoad
