import EagerLoad.Proofs.Plan.Batched
import EagerLoad.Proofs.Plan.Keys
import EagerLoad.Proofs.Plan.Recovered
import EagerLoad.Proofs.Relation.Declared
import EagerLoad.Proofs.Run.Agreement
import EagerLoad.Proofs.Run.Errors

/-! # What compiles can be loaded

What compilation has checked of a plan suffices for all statements of the fallback, whatever rows it gets on
the way. So loading fails only where the executor does, and so does a whole run of a plan that compiles. -/
namespace EagerLoad

open Sql.Draft

namespace Plan

variable {p : Plan} {c : Compiler} {compiled : CompiledPlan} (compiles : p.compile c = .ok compiled)
include compiles

/-- The base statement of a compiled plan selects its columns, counts and aggregates; all of its relations
are in some statement. -/
theorem writable_of_compile : p.Writable c := by
  obtain ⟨complete, -⟩ := (ofDraft_eq_ok_iff _ _ _).mp (compile_base compiles)
  exact {
    columns := (columns_of_part complete rfl).imp fun _ => And.left
    relations := fun _ known => relation_complete_of_compile compiles known
    counts := fun _ known => count_complete_of_part complete rfl known
    aggregates := fun _ known => aggregate_complete_of_part complete rfl known }

/-- The base rows of a compiled plan can be read alone, whether or not it is split. -/
theorem baseOnly_of_compile : (p.baseOnlyDraft c p.keys).failure? = none := by
  obtain ⟨complete, -⟩ := (ofDraft_eq_ok_iff _ _ _).mp (compile_base compiles)
  refine (writable_of_compile compiles).baseOnly complete rfl fun none => ?_
  obtain ⟨relations, -, -⟩ := eq_nil_of_unlabelled (unlabelled_of_keys_nil none)
  have single : ¬p.isSplit c.config = true := by simp [isSplit, relations]
  obtain ⟨-, unforced⟩ := carried_of_not_split single
  exact ⟨by simp [mainPart, relations], unforced⟩

end Plan

/-- Whether an attempt fails only with errors of the executor. In any case it leaves a memo of a kind, if it
begins with one. -/
def Executes (keeps : Memo → Prop) (x : Attempt ε σ α) : Prop :=
  ∀ s, keeps s.memo →
    keeps (x.run s).2.memo ∧ ∀ error, (x.run s).1 = .error error → ∃ e, error = .execution e

namespace Executes

variable {keeps : Memo → Prop}

theorem pure (a : α) : Executes keeps (Pure.pure a : Attempt ε σ α) := fun _ kept => ⟨kept, nofun⟩

theorem throw (e : ExecutionError) : Executes keeps (MonadExcept.throw (.execution e) : Attempt ε σ α) :=
  fun _ kept => ⟨kept, fun _ same => ⟨e, (Except.error.inj same).symm⟩⟩

theorem bind {x : Attempt ε σ β} {next : β → Attempt ε σ α} (first : Executes keeps x)
    (rest : ∀ b, Executes keeps (next b)) : Executes keeps (x >>= next) := by
  intro s begun
  obtain ⟨kept, fails⟩ := first s begun
  rw [attempt_bind, run_bind]
  cases result : (x.run s).1 with
  | error e => exact ⟨kept, fun error same => Except.error.inj same ▸ fails e result⟩
  | ok b => exact rest b (x.run s).2 kept

/-- What follows may depend on the state, which has a memo of the kind. -/
theorem bind_get {next : State ε σ → Attempt ε σ α} (rest : ∀ s, keeps s.memo → Executes keeps (next s)) :
    Executes keeps (MonadState.get >>= next) :=
  fun s kept => rest s kept s kept

theorem bind_compileStep {x : Except CompileError β} {b : β} (compiles : x = .ok b)
    {next : β → Attempt ε σ α} (rest : Executes keeps (next b)) :
    Executes keeps (Fallback.compileStep x >>= next) := by
  subst compiles
  exact rest

theorem lift {x : Run ε σ α} (kept : ∀ s, keeps s.memo → keeps (x s).2.memo) :
    Executes keeps (ExceptT.lift x) :=
  fun s begun => ⟨kept s begun, nofun⟩

theorem foldlM {items : List β} {step : α → β → Attempt ε σ α}
    (each : ∀ item ∈ items, ∀ a, Executes keeps (step a item)) (a : α) :
    Executes keeps (items.foldlM step a) := by
  induction items generalizing a with
  | nil => exact pure a
  | cons item rest ih =>
    rw [List.foldlM_cons]
    exact bind (each item List.mem_cons_self a) fun b =>
      ih (fun other found => each other (List.mem_cons_of_mem item found)) b

end Executes

namespace Plan

variable {p : Plan} {c : Compiler} (named : c.registry.Named) (own : p.entity.Named)
  (remembered : c.memo.Named)
include own remembered

theorem context_named : (p.context c).memo.Named := by
  unfold context
  dsimp only
  split
  · exact remembered.consult own
  · exact remembered

include named

/-- A draft looks up valid names only. -/
theorem named_follow {draft : Sql.Draft} (written : Written (p.finds c) draft) {m : Memo} (begun : m.Named) :
    (draft.consulted.foldl (fun m found => m.remember found.1 found.2) m).Named := by
  refine List.foldlRecOn _ _ begun fun m kept entry consulted => ?_
  obtain ⟨e, knows, -, found⟩ := written.of_consulted consulted
  refine kept.remember fun l same => ?_
  have valid : e.Named := by
    obtain rfl | registered := knows
    · exact own
    · exact named e.type e registered
  exact (remembered.consult own).localization? valid (found ▸ same)

end Plan

namespace Fallback

/-- Whether memos of a kind find what a first one does, and go on to when a draft is followed. -/
structure Preserves (o : Optimizer ε σ) (p : Plan) (memo : Memo) (keeps : Memo → Prop) : Prop where
  alike : ∀ m, keeps m → Finds o p memo m
  follow : ∀ {draft}, Written (p.finds (o.compiler memo)) draft → ∀ m, keeps m →
    keeps (draft.consulted.foldl (fun m found => m.remember found.1 found.2) m)

variable {o : Optimizer ε σ} {p : Plan} {timeout : Option Duration} {memo : Memo} {keeps : Memo → Prop}

/-- The fallback never fails to write a draft that is complete. -/
theorem fetchDraft_executes (kept : Preserves o p memo keeps) {draft : Sql.Draft}
    (complete : draft.failure? = none) (written : Written (p.finds (o.compiler memo)) draft) :
    Executes keeps (fetchDraft o timeout draft) := by
  have finished : Statement.ofDraft o.executor.dialect draft =
      .ok (Statement.ofFragment o.executor.dialect (draft.fragment o.executor.dialect)) :=
    (ofDraft_eq_ok_iff _ _ _).mpr ⟨complete, rfl⟩
  unfold fetchDraft
  refine .bind (.lift fun s => kept.follow written s.memo) fun _ => ?_
  refine .bind_compileStep finished (.bind (.lift fun s begun => ?_) fun answer => ?_)
  · rw [o.fetch_memo]
    exact begun
  · cases answer with
    | ok rows => exact .pure rows
    | error e => exact .throw e

section Compiled

variable {compiled : CompiledPlan} (kept : Preserves o p memo keeps) (sound : o.registry.Sound)
  (compiles : p.compile (o.compiler memo) = .ok compiled)
include kept sound

/-- A draft that is complete in the first context is complete in that of any moment. -/
theorem fetchNow_executes {draft : Context → Sql.Draft}
    (congr : ∀ ctx, ctx.Alike (p.context (o.compiler memo)) →
      draft ctx = draft (p.context (o.compiler memo)))
    (complete : (draft (p.context (o.compiler memo))).failure? = none)
    (written : Written (p.finds (o.compiler memo)) (draft (p.context (o.compiler memo))))
    (attached : List Row → α) :
    Executes keeps (contextNow o p >>= fun ctx => fetchDraft o timeout (draft ctx) >>=
      fun rows => pure (attached rows)) := by
  have now : Executes keeps (MonadState.get >>= fun s : State ε σ =>
      fetchDraft o timeout (draft (p.context (o.compiler s.memo))) >>= fun rows =>
        pure (attached rows)) := by
    refine .bind_get fun s begun => ?_
    have alike := kept.alike s.memo begun
    rw [congr _ (Plan.contexts_alike (o.compiler_alike alike) sound)]
    exact .bind (fetchDraft_executes kept complete written) fun rows => .pure _
  exact now

include compiles

theorem loadValues_executes {name label : String} {absent : Json}
    (draft : Context → List DbValue → Sql.Draft) (known : name ∈ relationNames p)
    (congr : ∀ ctx, ctx.Alike (p.context (o.compiler memo)) →
      draft ctx = draft (p.context (o.compiler memo)))
    (complete : ∀ keys, (draft (p.context (o.compiler memo)) keys).failure? = none)
    (written : ∀ keys, Written (p.finds (o.compiler memo)) (draft (p.context (o.compiler memo)) keys))
    (l : Loaded) : Executes keeps (loadValues o p timeout name label absent draft l) := by
  unfold loadValues
  refine .bind_compileStep ((Plan.writable_of_compile compiles).baseKey known).1 ?_
  dsimp only
  split
  · exact .pure _
  · exact fetchNow_executes kept sound (fun ctx alike => congrFun (congr ctx alike) _) (complete _)
      (written _) _

theorem loadCount_executes {count : CountRequest} (known : count ∈ p.counts) (l : Loaded) :
    Executes keeps (loadCount o p timeout l count) := by
  have looked := Plan.context_consults (p := p) (c := o.compiler memo) sound
  refine loadValues_executes kept sound compiles _ (Plan.count_named known).1 (fun ctx alike => ?_)
    (fun keys => ?_) (fun keys => ?_) l
  · exact funext fun keys => Keyed.count_congr alike p.entity keys count
  · exact Keyed.count_complete keys ((Plan.writable_of_compile compiles).counts count known)
  · exact Keyed.count_written keys looked count fun _ _ => trivial

theorem loadAggregate_executes {a : AggregateRequest} (known : a ∈ p.aggregates) (l : Loaded) :
    Executes keeps (loadAggregate o p timeout l a) := by
  have looked := Plan.context_consults (p := p) (c := o.compiler memo) sound
  refine loadValues_executes kept sound compiles _ (Plan.aggregate_named known).1 (fun ctx alike => ?_)
    (fun keys => ?_) (fun keys => ?_) l
  · exact funext fun keys => Keyed.aggregate_congr alike p.entity keys a
  · exact Keyed.aggregate_complete keys ((Plan.writable_of_compile compiles).aggregates a known)
  · exact Keyed.aggregate_written keys looked a fun _ _ => trivial

theorem loadBase_executes : Executes keeps (loadBase o p timeout p.keys) := by
  have written : Written (p.finds (o.compiler memo)) (p.baseOnlyDraft (o.compiler memo) p.keys) :=
    Plan.draft_finds sound (List.nil_subset _)
  refine .bind_get fun s begun => ?_
  rw [Plan.baseOnlyDraft, Plan.draft_alike (o.compiler_alike (kept.alike s.memo begun)) sound]
  exact fetchDraft_executes kept (Plan.baseOnly_of_compile compiles) written

variable (named : o.registry.Named) (own : p.entity.Named) (remembered : memo.Named)
include named own remembered

/-- A relation can be loaded with the columns that the related entity declares. -/
theorem loadRelation_executes {r : RelationRequest} (known : r ∈ p.relations) (l : Loaded) :
    Executes keeps (loadRelation o p timeout l r) := by
  have writable := Plan.writable_of_compile compiles
  have subquery := writable.relations r known
  obtain ⟨-, -, shape, -, -, shaped, -⟩ := Subquery.relation_parts subquery
  obtain ⟨⟨columns, dropped⟩, declared, complete⟩ := declaredSelection_complete subquery named
    (Plan.context_named own remembered)
  have looked := Plan.context_consults (p := p) (c := o.compiler memo) sound
  have fetched (keys : List DbValue) (attached : List Row → Loaded) : Executes keeps
      (contextNow o p >>= fun ctx => fetchDraft o timeout (Keyed.relation ctx p.entity r columns keys) >>=
        fun rows => pure (attached rows)) :=
    fetchNow_executes kept sound (fun ctx alike => Keyed.relation_congr alike p.entity keys r columns)
      (complete keys) (Keyed.relation_written keys looked r columns fun _ _ => trivial) attached
  unfold loadRelation
  refine .bind_compileStep (writable.baseKey (Plan.relation_named known).1).1 ?_
  refine .bind_compileStep shaped ?_
  dsimp only
  split
  · exact .pure _
  · refine .bind_compileStep declared ?_
    dsimp only
    split
    · exact .bind (.lift fun _ begun => begun) fun _ => fetched _ _
    · exact fetched _ _

/-- The fallback loads a plan that compiles, unless the executor fails. -/
theorem load_executes : Executes keeps (load o p timeout) := by
  have writable := Plan.writable_of_compile compiles
  obtain ⟨columns, selects⟩ := writable.columns
  unfold load
  refine .bind_compileStep writable.baseKeys (.bind_get fun s begun => ?_)
  refine .bind (loadBase_executes kept sound compiles) fun base => ?_
  have helpers : helperColumns p (o.compiler s.memo) p.keys =
      .ok (p.keys.filter fun key => !columns.names.contains key) := by
    rw [helperColumns_alike (o.compiler_alike (kept.alike s.memo begun))]
    exact map_eq_ok_iff.mpr ⟨columns, selects, rfl⟩
  refine .bind_compileStep helpers ?_
  refine .bind (.foldlM (fun r known l => ?_) _) fun loaded => ?_
  · exact loadRelation_executes kept sound compiles named own remembered known l
  refine .bind (.foldlM (fun count known l => ?_) _) fun loaded => ?_
  · exact loadCount_executes kept sound compiles known l
  refine .bind (.foldlM (fun a known l => ?_) _) fun loaded => ?_
  · exact loadAggregate_executes kept sound compiles known l
  exact .bind (.lift fun _ begun => begun) fun _ => .pure _

end Compiled

/-- Following a draft changes nothing of what is found. -/
theorem preserves_alike : Preserves o p memo (Finds o p memo) where
  alike _ found := found
  follow written _ found := Plan.alike_follow written found

/-- It brings valid names only into the memo. -/
theorem preserves_named (named : o.registry.Named) (own : p.entity.Named) (remembered : memo.Named) :
    Preserves o p memo fun m => Finds o p memo m ∧ m.Named where
  alike _ kept := kept.1
  follow written _ kept := ⟨Plan.alike_follow written kept.1,
    Plan.named_follow (c := o.compiler memo) named own remembered written kept.2⟩

end Fallback

namespace Optimizer

variable (o : Optimizer ε σ) (p : Plan) (s : State ε σ)

/-- An execution looks nothing up. -/
theorem execute_memo (compiled : CompiledPlan) : (o.execute p compiled s).2.memo = s.memo := by
  have unchanged : Maintains (fun t : State ε σ => t.memo = s.memo) (o.execute p compiled) :=
    .execute (fun statement timeout t same => (o.fetch_memo statement timeout t).trans same)
      (fun _ _ same => same) p compiled
  exact unchanged s rfl

/-- In safe mode a failed execution is answered with the rows that are loaded instead, or with why not. -/
theorem recover_executes {keeps : Memo → Prop} (loads : Executes keeps (Fallback.load o p (o.timeout p)))
    (layout : Layout) (e : ExecutionError) (begun : keeps s.memo) :
    keeps (o.recover p layout e s).2.memo ∧
      ∀ error, (o.recover p layout e s).1 = .error error → ∃ e, error = .execution e := by
  cases mode : o.safeMode p with
  | false =>
    rw [recover_exposed mode]
    exact ⟨begun, fun error same => ⟨e, (Except.error.inj same).symm⟩⟩
  | true =>
    obtain ⟨kept, fails⟩ := loads (Run.note .fallingBack s).2 begun
    rw [recover_safe mode]
    generalize (Fallback.load o p (o.timeout p)).run (Run.note .fallingBack s).2 = answer at kept fails
    obtain ⟨_ | _, _⟩ := answer
    · exact ⟨kept, fun error same => Except.error.inj same ▸ fails _ rfl⟩
    · exact ⟨kept, nofun⟩

/-- A run of a plan that compiles fails only where the executor does. -/
theorem run_executes {keeps : Memo → Prop} (kept : Fallback.Preserves o p s.memo keeps) (begun : keeps s.memo)
    (sound : o.registry.Sound)
    (loads : (∃ c, p.compile (o.compiler s.memo) = .ok c) → Executes keeps (Fallback.load o p (o.timeout p))) :
    keeps (o.run p s).2.memo ∧ ((∃ c, p.compile (o.compiler s.memo) = .ok c) →
      ∀ error, (o.run p s).1 = .error error → ∃ e, error = .execution e) := by
  have followed : keeps (o.begin p s).2.memo := by
    rw [begin_memo]
    exact kept.follow (Plan.trail_finds (c := o.compiler s.memo) sound) s.memo begun
  rcases o.begin_fst p s with
    ⟨e, uncompiled, start⟩ | ⟨c, compiles, ⟨-, start⟩ | ⟨-, tier, rows, start⟩⟩
  · rw [run_of_failed start]
    refine ⟨followed, fun ⟨c, compiles⟩ => ?_⟩
    cases compiles.symm.trans uncompiled
  · have executed := (o.execute_memo p (o.begin p s).2 c).symm ▸ followed
    cases result : (o.execute p c (o.begin p s).2).1 with
    | ok found =>
      rw [run_of_executed start result]
      exact ⟨(publish_memo ..).symm ▸ executed, fun _ => nofun⟩
    | error e =>
      rw [run_of_unexecuted start result]
      have recovered := o.recover_executes p _ (loads ⟨c, compiles⟩) c.layout e executed
      exact ⟨recovered.1, fun _ => recovered.2⟩
  · rw [run_of_hit start]
    exact ⟨followed, fun _ => nofun⟩

variable (sound : o.registry.Sound) (named : o.registry.Named) (own : p.entity.Named)
  (remembered : s.memo.Named)
include sound named own remembered

/-- Whatever is run, the memo goes on to remember valid names only. -/
theorem run_named : (o.run p s).2.memo.Named := by
  have kept := Fallback.preserves_named (o := o) (p := p) named own remembered
  have ran := o.run_executes p s kept ⟨.refl _ _ _, remembered⟩ sound fun ⟨c, compiles⟩ =>
    Fallback.load_executes kept sound compiles named own remembered
  exact ran.1.2

/-- A plan that compiles fails only where the executor does: the fallback writes all of its statements, at
whatever rows it gets and though it may ask for more columns than the plan, and so a run has no error but the
executor's. -/
theorem compiled_executes {compiled : CompiledPlan}
    (compiles : p.compile (o.compiler s.memo) = .ok compiled) :
    (∀ timeout t error, Memo.Alike o.registry p.entity t.memo s.memo →
      ((Fallback.load o p timeout).run t).1 = .error error → ∃ e, error = .execution e) ∧
    ∀ error, (o.run p s).1 = .error error → ∃ e, error = .execution e := by
  have loads (timeout : Option Duration) : Executes (Fallback.Finds o p s.memo) (Fallback.load o p timeout) :=
    Fallback.load_executes Fallback.preserves_alike sound compiles named own remembered
  refine ⟨fun timeout t error found failed => (loads timeout t found).2 error failed, ?_⟩
  have ran := o.run_executes p s Fallback.preserves_alike (.refl _ _ _) sound fun _ => loads _
  exact ran.2 ⟨compiled, compiles⟩

end Optimizer

namespace Depot

def crate : Entity :=
  { type := "Crate", table := "crates", columns := ["weight"], localized := some (.ofFields ["label"]) }

/-- The crates of trains, asked for by a column that they do not have. -/
def trains : Plan :=
  { entity :=
      { type := "Train", table := "trains", columns := ["number"]
        relations := [("crates", .hasMany "Crate" "train_id" "id")] }
    columns := .columns ["number"]
    relations := [{ name := "crates", kind := .collection, columns := .columns ["colour"] }]
    counts := [{ relation := "crates" }]
    locale := some "en" }

/-- The statement for everything and the one for the count are refused. -/
def answer (statement : Statement) : Except ExecutionError (List Row) :=
  match statement.bindings with
  | [] => .ok [[("number", .int 4), ("id", .int 7)]]
  | [_] => .error (.timeout "5s")
  | _ => .ok [[("__owner_key", .int 7), ("id", .int 1), ("weight", .int 20), ("label", .str "glass")]]

def optimizer : Optimizer Unit Unit :=
  { config := {}
    registry := Registry.register [] crate
    executor := ⟨.sqlite, fun statement _ _ => { answer := answer statement, next := () }⟩
    store := none }

def start : State Unit Unit := { executor := (), store := () }

theorem named : optimizer.registry.Named :=
  Registry.named_nil.register (by decide)

theorem compiles : ∃ compiled, trains.compile (optimizer.compiler start.memo) = .ok compiled :=
  ⟨_, rfl⟩

theorem stops : ((Fallback.load optimizer trains none).run start).1 = .error (.execution (.timeout "5s")) := by
  rfl

theorem fails : (optimizer.run trains start).1 = .error (.execution (.timeout "5s")) := by
  rfl

end Depot

open Depot in
/-- The crates of the train are loaded with all of their columns before its count is refused. -/
theorem Optimizer.compiled_executes_depot :
    (∃ error, ((Fallback.load optimizer trains none).run start).1 = .error error ∧
      ∃ e, error = .execution e) ∧
    ∃ error, (optimizer.run trains start).1 = .error error ∧ ∃ e, error = .execution e := by
  obtain ⟨compiled, compiles⟩ := compiles
  have executes := optimizer.compiled_executes trains start (Registry.sound_nil.register crate) named
    (by decide) Memo.named_nil compiles
  exact ⟨⟨_, stops, executes.1 none start _ (.refl _ _ _) stops⟩, _, fails, executes.2 _ fails⟩

end EagerLoad
