import EagerLoad.Proofs.Plan.Paged
import EagerLoad.Proofs.Row.Merge
import EagerLoad.Proofs.Run.Agreement
import EagerLoad.Proofs.Run.Attempt
import EagerLoad.Proofs.Run.Cached
import EagerLoad.Query.Terminal

/-! # Running the pages of a plan

An executor answers the statement of a page by a slice of a list of rows. Whatever the caches hold of
other plans, running the page gives the rows of that slice: decoded, and completed by their follow-ups
if the plan is split. The pages that are still to be asked for are not disturbed. -/
namespace EagerLoad

theorem Plan.layout_labels {p : Plan} {layout : Layout} (shaped : p.layout = .ok layout) :
    layout.map Slot.label = p.relations.map RelationRequest.label := by
  rw [Plan.layout, mapM_eq_ok_iff] at shaped
  generalize p.relations = relations at shaped
  induction shaped with
  | nil => rfl
  | cons here _ ih =>
    obtain ⟨shape, -, rfl⟩ := map_eq_ok_iff.mp here
    rw [List.map_cons, List.map_cons, ih]

namespace Optimizer

/-- The columns of a split plan's rows that do not come from its base rows. -/
def foreignColumns (p : Plan) : List String :=
  p.relations.map RelationRequest.label ++
    if asksFor p p.entity.primaryKey then [] else [p.entity.primaryKey]

/-- Whether a plan can be executed to a row where its base statement is answered another one. -/
structure Carries (o : Optimizer ε σ) (p : Plan) (row executed : Row) : Prop where
  whole : p.isSplit o.config = false → executed = row
  columns : Row.SameBut (foreignColumns p) row executed

/-- Whether a plan can give a row where its base statement is answered another one. -/
structure Presents (o : Optimizer ε σ) (p : Plan) (layout : Layout) (row shown : Row) : Prop where
  whole : p.isSplit o.config = false → shown = (Decode.row layout row).1
  columns : Row.SameBut (foreignColumns p) row shown

variable {o : Optimizer ε σ} {p : Plan}

theorem Carries.decoded {layout : Layout} {row executed : Row} (h : o.Carries p row executed)
    (shaped : p.layout = .ok layout) : o.Presents p layout row (Decode.row layout executed).1 where
  whole single := by rw [h.whole single]
  columns := by
    refine h.columns.trans ((Decode.row_sameBut layout executed).mono ?_)
    rw [Plan.layout_labels shaped]
    exact List.subset_append_left _ _

section Batches

variable (answered : ∀ statement timeout e, ∃ found,
  (o.executor.fetch statement timeout e).answer = .ok found)
include answered

/-- Answered follow-ups change the columns of their relations only. -/
theorem executeBatches_sameBut (key : String) (keys : List DbValue) (timeout : Option Duration)
    {columns : List String} (followUps : List FollowUp)
    (listed : ∀ f ∈ followUps, f.relations ⊆ columns) (rows : List Row) (report : Report)
    (s : State ε σ) : ∃ merged report',
      (o.executeBatches key keys timeout followUps rows report s).1 = .ok (merged, report') ∧
        List.Forall₂ (Row.SameBut columns) rows merged := by
  induction followUps generalizing rows report s with
  | nil => exact ⟨rows, report, rfl, Row.forall₂_sameBut_refl rows⟩
  | cons f rest ih =>
    obtain ⟨found, answer⟩ := answered (f.bind o.executor.dialect keys) timeout s.executor
    rw [executeBatches, run_bind, fetchLogged_answer, answer]
    obtain ⟨merged, report', ran, same⟩ := ih (fun g known => listed g (by simp [known]))
      (Rows.merge rows found key f.relations) { report with statements := report.statements + 1 }
      (o.fetchLogged (f.bind o.executor.dialect keys) timeout s).2
    have here : List.Forall₂ (Row.SameBut columns) rows (Rows.merge rows found key f.relations) :=
      (Rows.merge_sameBut rows found).imp fun _ _ h => h.mono (listed f (by simp))
    exact ⟨merged, report', ran, Row.forall₂_sameBut_trans here same⟩

theorem executeSplit_sameBut {c : Compiler} {split : Split} (written : p.split c = .ok split)
    (timeout : Option Duration) {rows : List Row} (s : State ε σ)
    (base : (o.executor.fetch split.base timeout s.executor).answer = .ok rows) :
    ∃ executed report, (o.executeSplit p split timeout s).1 = .ok (executed, report) ∧
      List.Forall₂ (Row.SameBut (foreignColumns p)) rows executed := by
  obtain ⟨-, -, key⟩ := Plan.split_eq_ok_iff.mp written
  have sent := Plan.sent_relations written (Rows.collectKeys rows split.primaryKey).isEmpty
  rw [executeSplit, run_bind, fetchLogged_answer, base]
  dsimp only
  rw [run_bind]
  obtain ⟨merged, report, ran, same⟩ := executeBatches_sameBut answered split.primaryKey
    (Rows.collectKeys rows split.primaryKey) timeout _ sent rows
    { statements := 1, splitBatches := split.followUps.length } (o.fetchLogged split.base timeout s).2
  rw [ran, key]
  refine ⟨_, _, rfl, ?_⟩
  by_cases asked : asksFor p p.entity.primaryKey = true
  · rw [if_pos asked]
    exact same.imp fun _ _ h => h.mono (List.subset_append_left _ _)
  · rw [if_neg asked, List.forall₂_map_right_iff]
    refine same.imp fun row other h x foreign => ?_
    rw [foreignColumns, if_neg asked, List.mem_append, not_or, List.mem_singleton] at foreign
    rw [Row.get?_remove, if_neg foreign.2]
    exact h x foreign.1

end Batches

/-- A compiled plan is executed to the rows that its base statement is answered. -/
theorem execute_carries {c : Compiler} (config : c.config = o.config) {compiled : CompiledPlan}
    (written : p.compile c = .ok compiled)
    (followUps : p.isSplit o.config = true → ∀ statement timeout e, ∃ found,
      (o.executor.fetch statement timeout e).answer = .ok found)
    {rows : List Row} (s : State ε σ)
    (base : (o.executor.fetch compiled.query.base (o.timeout p) s.executor).answer = .ok rows) :
    ∃ executed report, (o.execute p compiled s).1 = .ok (executed, report) ∧
      List.Forall₂ (o.Carries p) rows executed := by
  obtain ⟨-, -, query⟩ := Plan.compile_eq_ok_iff.mp written
  rw [config] at query
  by_cases cut : p.isSplit o.config = true
  · rw [if_pos cut] at query
    obtain ⟨split, made, shape⟩ := query
    rw [shape] at base
    rw [execute, shape]
    obtain ⟨executed, report, ran, same⟩ :=
      executeSplit_sameBut (followUps cut) made (o.timeout p) s base
    refine ⟨executed, report, ran, same.imp fun _ _ h => ⟨fun single => ?_, h⟩⟩
    exact absurd (single.symm.trans cut) Bool.false_ne_true
  · rw [if_neg cut] at query
    obtain ⟨statement, -, shape⟩ := query
    rw [shape] at base
    rw [execute, shape]
    refine ⟨rows, _, o.executeSingle_of_answer base, List.forall₂_same.mpr fun row _ => ?_⟩
    exact ⟨fun _ => rfl, .refl row⟩

end Optimizer

/-- Rows that a plan is asked for page by page, by an optimizer that remembers some localizations. -/
structure Paging (ε : Type) where
  optimizer : Optimizer ε MemoryStore
  plan : Plan
  size : Nat
  rows : List Row
  memo : Memo

namespace Paging

variable (g : Paging ε)

/-- The plan of a page; pages are counted from zero. -/
def page (i : Nat) : Plan := g.plan.page g.size (i * g.size)

/-- How many rows a page has at most. -/
def reach : Nat := g.optimizer.config.reach g.size

/-- The rows that the statement of a page is answered. -/
def slice (i : Nat) : List Row := (g.rows.drop (i * g.size)).take g.reach

def Compiles (i : Nat) (compiled : CompiledPlan) : Prop :=
  (g.page i).compile (g.optimizer.compiler g.memo) = .ok compiled

/-- Whether cached rows are those of a page, if they have its key and it is still to be asked for. -/
def Serves (ahead : Nat → Prop) (key : String) (cached : List Row) : Prop :=
  ∀ i, ahead i → ∀ compiled, g.Compiles i compiled →
    g.optimizer.keyOf (g.page i) compiled = key →
      List.Forall₂ (g.optimizer.Carries g.plan) (g.slice i) cached

/-- Whether a text is read as such rows, if it is read at all. -/
def Stores (ahead : Nat → Prop) (_ key text : String) : Prop :=
  ∀ cached, Rows.parse? text = some cached → g.Serves ahead key cached

/-- Whether the pages ahead can be asked for: localizations are found as in the beginning, and the
caches hold nothing else under the keys of these pages. -/
structure Ready (ahead : Nat → Prop) (s : State ε MemoryStore) : Prop where
  finds : Fallback.Finds g.optimizer g.plan g.memo s.memo
  kept : Cached (g.Serves ahead) (g.Stores ahead) s

/-- A page is asked for if it begins among the rows or right after them. -/
def Asked (i : Nat) : Prop := i * g.size ≤ g.rows.length

/-- Whether a plan can be paged. It compiles, the executor answers any statement with a limit and an
offset by a slice of the rows, and the follow-ups of a split plan by some rows. With caching, equal keys
of pages stand for the same text that was hashed. -/
structure Fits (compiled : CompiledPlan) : Prop where
  sound : g.optimizer.registry.Sound
  inMemory : g.optimizer.InMemory
  compiled : g.plan.compile (g.optimizer.compiler g.memo) = .ok compiled
  page : ∀ front bindings limit offset timeout e,
    (g.optimizer.executor.fetch ⟨front ++ Sql.pageEnd limit offset, bindings⟩ timeout e).answer =
      .ok ((g.rows.drop offset).take limit)
  followUp : g.plan.isSplit g.optimizer.config = true → ∀ statement timeout e, ∃ found,
    (g.optimizer.executor.fetch statement timeout e).answer = .ok found
  apart : (g.optimizer.cacheTtl g.plan).isSome → ∀ i j, g.Asked i → g.Asked j → ∀ a b,
    g.Compiles i a → g.Compiles j b →
      g.optimizer.keyOf (g.page i) a = g.optimizer.keyOf (g.page j) b →
        (CacheKey.material (g.page i) a.query.base).text =
          (CacheKey.material (g.page j) b.query.base).text

variable {g} {ahead : Nat → Prop} {s : State ε MemoryStore}

theorem Ready.mono {fewer : Nat → Prop} (ready : g.Ready ahead s) (h : ∀ i, fewer i → ahead i) :
    g.Ready fewer s :=
  ⟨ready.finds, ready.kept.mono (fun _ _ served i listed => served i (h i listed))
    fun _ _ _ stored cached parsed i listed => stored cached parsed i (h i listed)⟩

/-- Statements leave the pages ahead undisturbed, whatever tables they invalidate. -/
theorem Ready.fetch (inMemory : g.optimizer.InMemory) (statement : Statement)
    (timeout : Option Duration) : Maintains (g.Ready ahead) (g.optimizer.fetch statement timeout) := by
  refine .fetch (fun s e ready => ⟨ready.finds, ready.kept.of_same rfl rfl⟩) (fun table s ready => ?_)
    statement timeout
  refine ⟨?_, ?_⟩
  · rw [Optimizer.invalidate_memo]
    exact ready.finds
  · exact (ready.kept.invalidate inMemory table).mono (fun _ _ never => never.elim)
      fun _ _ _ both => both.2

theorem Ready.note (n : Notice) :
    Maintains (g.Ready ahead) (Run.note n : Run ε MemoryStore Unit) :=
  fun _ ready => ⟨ready.finds, ready.kept.of_keeps (.note n)⟩

theorem Ready.noteAll (ns : List Notice) :
    Maintains (g.Ready ahead) (Run.noteAll ns : Run ε MemoryStore Unit) :=
  fun _ ready => ⟨ready.finds, ready.kept.of_keeps (.noteAll ns)⟩

variable {compiled : CompiledPlan} (fits : g.Fits compiled)
include fits

/-- Pages that share a key are the same page. -/
theorem Fits.page_inj (size : 0 < g.size) (caching : (g.optimizer.cacheTtl g.plan).isSome)
    {i j : Nat} (asked : g.Asked i) (other : g.Asked j) {a b : CompiledPlan} (made : g.Compiles i a)
    (again : g.Compiles j b)
    (same : g.optimizer.keyOf (g.page i) a = g.optimizer.keyOf (g.page j) b) : i = j := by
  have offsets := CacheKey.offset_inj (fits.apart caching i j asked other a b made again same)
  exact Nat.eq_of_mul_eq_mul_right size offsets

/-- The rows of a page can be kept, since no page ahead has its key. -/
theorem Ready.publish (size : 0 < g.size) (asked : ∀ j, ahead j → g.Asked j)
    {i : Nat} (here : g.Asked i) {pending : Pending} (made : g.Compiles i pending.compiled)
    (cacheAs : pending.cacheAs = (g.optimizer.cacheTtl g.plan).map fun ttl =>
      (g.optimizer.keyOf (g.page i) pending.compiled, ttl)) (rows : List Row) :
    Maintains (g.Ready fun j => ahead j ∧ j ≠ i)
      (g.optimizer.publish (g.page i) pending rows) := by
  intro s ready
  have served {key : String} {ttl : Duration} (published : pending.cacheAs = some (key, ttl))
      (cached : List Row) : g.Serves (fun j => ahead j ∧ j ≠ i) key cached := by
    rw [cacheAs, Option.map_eq_some_iff] at published
    obtain ⟨ttl', caching, same⟩ := published
    intro j listed b again shared
    have keys := (Prod.mk.inj same).1.trans shared.symm
    have equal := fits.page_inj size (Option.isSome_iff_exists.mpr ⟨ttl', caching⟩) here
      (asked j listed.1) made again keys
    exact absurd equal.symm listed.2
  refine ⟨?_, ?_⟩
  · rw [Optimizer.publish_memo]
    exact ready.finds
  · obtain ⟨tag, tagged⟩ := Optimizer.exists_mem_cacheTags (g.page i)
    exact ready.kept.publish fits.inMemory tagged (fun _ _ published _ => served published rows)
      fun _ _ published cached _ => served published cached

/-- What was looked up in the meantime is found as before, so a page is compiled to the same. -/
theorem Ready.compile_eq (ready : g.Ready ahead s) (i : Nat) :
    (g.page i).compile (g.optimizer.compiler s.memo) =
      (g.page i).compile (g.optimizer.compiler g.memo) :=
  Plan.compile_alike (g.optimizer.compiler_alike ready.finds) fits.sound

/-- Looking for a page in the caches leaves the pages ahead ready. -/
theorem Ready.begin (ready : g.Ready ahead s) (i : Nat) :
    g.Ready ahead (g.optimizer.begin (g.page i) s).2 := by
  obtain ⟨kept, -⟩ := ready.kept.begin fits.inMemory
    (fun _ _ _ _ rows stored parsed => stored rows parsed) (g.page i)
  have followed := Plan.alike_follow (c := g.optimizer.compiler s.memo) (p := g.page i)
    (Plan.trail_finds fits.sound) (Memo.Alike.refl g.optimizer.registry g.plan.entity s.memo)
  refine ⟨?_, kept⟩
  rw [Optimizer.begin_memo]
  exact followed.trans ready.finds

/-- The statement of a page is answered the rows of its slice. -/
theorem Fits.base {i : Nat} {made : CompiledPlan} (compiles : g.Compiles i made)
    (timeout : Option Duration) (e : ε) :
    (g.optimizer.executor.fetch made.query.base timeout e).answer = .ok (g.slice i) := by
  obtain ⟨front, ends⟩ := Plan.base_page compiles
  have statement : (⟨front ++ Sql.pageEnd g.reach (i * g.size), made.query.base.bindings⟩ :
      Statement) = made.query.base := congrArg (Statement.mk · _) ends.symm
  have answered := fits.page front made.query.base.bindings g.reach (i * g.size) timeout e
  rw [statement] at answered
  exact answered

/-- Running a page gives the rows of its slice, from a cache or from its statement, and the pages ahead
can still be asked for. -/
theorem Ready.run (size : 0 < g.size) (ready : g.Ready ahead s) (asked : ∀ j, ahead j → g.Asked j)
    {i : Nat} (here : ahead i) : ∃ x s', g.optimizer.run (g.page i) s = (.ok x, s') ∧
      x.layout = compiled.layout ∧
      List.Forall₂ (g.optimizer.Carries g.plan) (g.slice i) x.rows ∧
      g.Ready (fun j => ahead j ∧ j ≠ i) s' := by
  obtain ⟨paged, made, layout⟩ := Plan.compile_page fits.compiled g.size (i * g.size)
  have compiles := ready.compile_eq fits i
  obtain ⟨-, -, result⟩ := ready.kept.begin fits.inMemory
    (fun _ _ _ _ rows stored parsed => stored rows parsed) (g.page i)
  have begun : g.Ready (fun j => ahead j ∧ j ≠ i) (g.optimizer.begin (g.page i) s).2 :=
    (ready.begin fits i).mono fun _ both => both.1
  cases begins : (g.optimizer.begin (g.page i) s).1 with
  | failed e =>
    rw [begins] at result
    exact nomatch (result.symm.trans (compiles.trans made))
  | hit x =>
    rw [begins] at result
    obtain ⟨c, compiled, -, shaped, served⟩ := result
    rw [compiles] at compiled
    obtain rfl := Except.ok.inj (compiled.symm.trans made)
    exact ⟨x, _, Optimizer.run_of_hit begins, shaped.trans layout, served i here c made rfl, begun⟩
  | miss pending =>
    rw [begins] at result
    obtain ⟨compiled, cacheAs, -⟩ := result
    rw [compiles] at compiled
    obtain rfl := Except.ok.inj (compiled.symm.trans made)
    obtain ⟨executed, report, ran, carries⟩ := Optimizer.execute_carries
      (p := g.page i) (c := g.optimizer.compiler g.memo) rfl made fits.followUp
      (g.optimizer.begin (g.page i) s).2 (fits.base made _ _)
    have after := Maintains.execute (Ready.fetch fits.inMemory) Ready.note (g.page i) pending.compiled
      _ begun
    refine ⟨_, _, Optimizer.run_of_executed begins ran, layout, carries.imp fun _ _ h => ?_,
      Ready.publish fits size asked (asked i here) made cacheAs executed _ after⟩
    exact ⟨h.whole, h.columns⟩

/-- Asking for a page gives the rows of its slice. -/
theorem Ready.rows (size : 0 < g.size) (ready : g.Ready ahead s) (asked : ∀ j, ahead j → g.Asked j)
    {i : Nat} (here : ahead i) :
    Returns (g.optimizer.rows (g.page i)) s fun shown s' =>
      List.Forall₂ (g.optimizer.Presents g.plan compiled.layout) (g.slice i) shown ∧
        g.Ready (fun j => ahead j ∧ j ≠ i) s' := by
  obtain ⟨x, s', ran, layout, carries, after⟩ := ready.run fits size asked here
  obtain ⟨shaped, -⟩ := Plan.compile_eq_ok_iff.mp fits.compiled
  have decoded : List.Forall₂ (g.optimizer.Presents g.plan compiled.layout) (g.slice i)
      (Decode.rows x.layout x.rows).1 := by
    rw [Decode.rows_fst, List.forall₂_map_right_iff, layout]
    exact carries.imp fun _ _ h => h.decoded shaped
  have report : Returns (g.optimizer.getWithReport (g.page i)) s fun shown s' =>
      List.Forall₂ (g.optimizer.Presents g.plan compiled.layout) (g.slice i) shown.1 ∧
        g.Ready (fun j => ahead j ∧ j ≠ i) s' := by
    have given : Returns (Optimizer.attempt (g.optimizer.run (g.page i))) s
        fun y t => y = x ∧ t = s' := ⟨x, s', ran, rfl, rfl⟩
    refine Returns.bind given fun y t both => ?_
    obtain ⟨rfl, rfl⟩ := both
    refine Returns.bind (Returns.lift (q := fun shown t =>
      List.Forall₂ (g.optimizer.Presents g.plan compiled.layout) (g.slice i) shown ∧
        g.Ready (fun j => ahead j ∧ j ≠ i) t) ⟨decoded, Ready.noteAll _ _ after⟩) fun shown t both => ?_
    exact Returns.pure both
  exact Returns.bind report fun shown t both => Returns.pure both

end Paging
end EagerLoad
