import EagerLoad.Proofs.Plan.Keys
import EagerLoad.Proofs.Run.Errors
import EagerLoad.Proofs.Run.Paged

/-! # Where the rows of a run come from

Every row that a run gives stems from a row that the executor answered to a statement for the base rows:
batches are merged into such rows, the fallback attaches columns to them, and decoding replaces columns of
relations. The columns that the plan selects for itself stay as they were answered. -/
namespace EagerLoad

theorem attempt_bind_eq_ok_iff {x : Attempt ε σ β} {next : β → Attempt ε σ α} {s : State ε σ} {a : α} :
    ((x >>= next).run s).1 = .ok a ↔
      ∃ b, (x.run s).1 = .ok b ∧ ((next b).run (x.run s).2).1 = .ok a := by
  rw [attempt_bind, run_bind]
  cases (x.run s).1 with
  | error e => exact ⟨nofun, fun ⟨_, same, _⟩ => nomatch same⟩
  | ok b => exact ⟨fun same => ⟨b, rfl, same⟩, fun ⟨_, found, same⟩ => Except.ok.inj found ▸ same⟩

/-- Whether everything that a run succeeds with has a property. -/
def Gives (x : Run ε σ (Except τ α)) (post : α → Prop) : Prop := ∀ s a, (x s).1 = .ok a → post a

namespace Gives

variable {x : Attempt ε σ β} {next : β → Attempt ε σ α} {post : α → Prop}

theorem pure {a : α} (h : post a) : Gives (Pure.pure a : Attempt ε σ α).run post := by
  intro s b same
  obtain rfl : a = b := Except.ok.inj same
  exact h

theorem bind {mid : β → Prop} (first : Gives x.run mid) (rest : ∀ b, mid b → Gives (next b).run post) :
    Gives (x >>= next).run post := by
  intro s a same
  obtain ⟨b, found, later⟩ := attempt_bind_eq_ok_iff.mp same
  exact rest b (first s b found) _ a later

theorem bind_any (rest : ∀ b, Gives (next b).run post) : Gives (x >>= next).run post := by
  have first : Gives x.run fun _ => True := fun _ _ _ => trivial
  exact bind first fun b _ => rest b

theorem bind_compileStep {step : Except CompileError β}
    (rest : ∀ b, step = .ok b → Gives (next b).run post) :
    Gives (Fallback.compileStep step >>= next).run post := by
  cases step with
  | error e => exact fun _ _ same => nomatch same
  | ok b => exact rest b rfl

/-- What every step of a loop keeps true is true after the loop. -/
theorem foldlM {items : List β} {step : α → β → Attempt ε σ α} {invariant : α → Prop}
    (each : ∀ item ∈ items, ∀ a, invariant a → Gives (step a item).run invariant) {a : α}
    (h : invariant a) : Gives (items.foldlM step a).run invariant := by
  induction items generalizing a with
  | nil => exact pure h
  | cons item rest ih =>
    rw [List.foldlM_cons]
    exact bind (each item List.mem_cons_self a h) fun b held =>
      ih (fun other found => each other (List.mem_cons_of_mem item found)) held

end Gives

namespace Plan

/-- Whether a plan selects a column of its own table that no subquery stands for. -/
structure SelectsPlainly (p : Plan) (x : String) : Prop where
  selected : match p.columns with
    | .all => x ∈ p.entity.allColumns
    | .columns names => x ∈ names
  plain : x ∉ p.entity.localizedFields
  unlabelled : x ∉ p.labels

/-- Whether a row has kept the columns of an answered row that a plan selects plainly. -/
def Retains (p : Plan) (answered row : Row) : Prop :=
  ∀ x, p.SelectsPlainly x → answered.get? x = row.get? x

/-- Whether each of the rows stems from an answered row of a kind. -/
def StemFrom (p : Plan) (good : Row → Prop) (rows : List Row) : Prop :=
  ∀ row ∈ rows, ∃ answered, good answered ∧ p.Retains answered row

variable {p : Plan} {good : Row → Prop} {rows others : List Row}

theorem SelectsPlainly.asksFor {x : String} (h : p.SelectsPlainly x) : Optimizer.asksFor p x = true := by
  have selected := h.selected
  unfold Optimizer.asksFor
  cases columns : p.columns with
  | all => rfl
  | columns names =>
    rw [columns] at selected
    exact List.contains_iff_mem.mpr selected

/-- A column that is selected plainly is among the columns of the base rows. -/
theorem SelectsPlainly.mem_own {c : Compiler} {own : Columns} {x : String} (h : p.SelectsPlainly x)
    (resolved : Columns.resolve p.entity p.columns (p.localization? c) = .ok own) : x ∈ own.names := by
  refine (Columns.mem_names_resolve resolved x).mpr ⟨?_, fun localized => absurd localized h.plain⟩
  have selected := h.selected
  unfold Columns.requested
  cases columns : p.columns with
  | columns names =>
    rw [columns] at selected
    exact selected
  | all =>
    rw [columns] at selected
    cases p.localization? c with
    | none => exact selected
    | some l => exact (mem_foldl_addNew _ _ _).mpr (.inl selected)

theorem Retains.of_sameBut {columns : List String} {answered row : Row}
    (same : Row.SameBut columns answered row) (labels : columns ⊆ p.labels) : p.Retains answered row :=
  fun x plain => same x fun listed => plain.unlabelled (labels listed)

theorem retains_set {label : String} (labelled : label ∈ p.labels) (row : Row) (value : Json) :
    p.Retains row (row.set label value) := by
  intro x plain
  rw [Row.get?_set, if_neg]
  rintro rfl
  exact plain.unlabelled labelled

theorem retains_removed {helpers : List String} (own : ∀ x ∈ helpers, ¬p.SelectsPlainly x) (row : Row) :
    p.Retains row (helpers.foldl Row.remove row) := by
  intro x plain
  rw [Row.get?_foldl_remove, if_neg fun listed => own x listed plain]

namespace StemFrom

theorem of_answered (all : ∀ row ∈ rows, good row) : p.StemFrom good rows :=
  fun row known => ⟨row, all row known, fun _ _ => rfl⟩

theorem of_forall₂ (stem : p.StemFrom good rows) (kept : List.Forall₂ p.Retains rows others) :
    p.StemFrom good others := by
  intro row known
  obtain ⟨before, earlier, retains⟩ := exists_of_forall₂ kept.flip known
  obtain ⟨answered, holds, since⟩ := stem before earlier
  exact ⟨answered, holds, fun x plain => (since x plain).trans (retains x plain)⟩

theorem map (stem : p.StemFrom good rows) {change : Row → Row}
    (retains : ∀ row, p.Retains row (change row)) : p.StemFrom good (rows.map change) :=
  stem.of_forall₂ (List.forall₂_map_right_iff.mpr (List.forall₂_same.mpr fun row _ => retains row))

/-- Merging a batch replaces columns of relations only. -/
theorem merge (stem : p.StemFrom good rows) {columns : List String} (labels : columns ⊆ p.labels)
    (batch : List Row) (key : String) : p.StemFrom good (Rows.merge rows batch key columns) :=
  stem.of_forall₂ ((Rows.merge_sameBut rows batch).imp fun _ _ same => .of_sameBut same labels)

theorem attach (stem : p.StemFrom good rows) {label : String} (labelled : label ∈ p.labels)
    (key : String) (groups : List (String × α)) (absent : α) (value : α → Json) :
    p.StemFrom good (Fallback.attach key label groups absent value rows) :=
  stem.map fun row => p.retains_set labelled row _

end StemFrom

end Plan

namespace Optimizer

/-- Whether a statement is one that asks for the base rows of a plan, with its relations or alone. -/
def AsksBase (o : Optimizer ε σ) (p : Plan) (statement : Statement) : Prop :=
  ∃ memo, (∃ c, p.compile (o.compiler memo) = .ok c ∧ c.query.base = statement) ∨
    ∃ keys, p.baseOnly (o.compiler memo) keys = .ok statement

/-- Whether the executor answers the statements for the base rows of a plan by rows of a kind only. -/
def AnswersOnly (o : Optimizer ε σ) (p : Plan) (good : Row → Prop) : Prop :=
  ∀ statement, o.AsksBase p statement → ∀ timeout e rows,
    (o.executor.fetch statement timeout e).answer = .ok rows → ∀ row ∈ rows, good row

variable {o : Optimizer ε σ} {p : Plan} {good : Row → Prop}

theorem executeBatches_gives (key : String) (keys : List DbValue) (timeout : Option Duration)
    {followUps : List FollowUp} (labels : ∀ f ∈ followUps, f.relations ⊆ p.labels) {rows : List Row}
    (stem : p.StemFrom good rows) (report : Report) :
    Gives (o.executeBatches key keys timeout followUps rows report) fun done =>
      p.StemFrom good done.1 := by
  induction followUps generalizing rows report with
  | nil =>
    intro s done same
    obtain rfl := Except.ok.inj same
    exact stem
  | cons batch rest ih =>
    have later (rows : List Row) := @ih (fun f known => labels f (List.mem_cons_of_mem batch known)) rows
    intro s done same
    rw [executeBatches, run_bind, fetchLogged_answer] at same
    cases answer : (o.executor.fetch (batch.bind o.executor.dialect keys) timeout s.executor).answer with
    | ok incoming =>
      rw [answer] at same
      exact later _ (stem.merge (labels batch List.mem_cons_self) incoming key) _ _ done same
    | error e =>
      rw [answer] at same
      cases policy : o.config.splitFailure with
      | fail =>
        simp only [policy] at same
        cases same
      | skip =>
        simp only [policy] at same
        exact later rows stem _ _ done same

theorem executeSplit_gives {c : Compiler} {split : Split} (written : p.split c = .ok split)
    (base : ∀ timeout e rows, (o.executor.fetch split.base timeout e).answer = .ok rows →
      ∀ row ∈ rows, good row) (timeout : Option Duration) :
    Gives (o.executeSplit p split timeout) fun done => p.StemFrom good done.1 := by
  intro s done same
  rw [executeSplit, run_bind, fetchLogged_answer] at same
  cases answer : (o.executor.fetch split.base timeout s.executor).answer with
  | error e =>
    rw [answer] at same
    cases same
  | ok rows =>
    rw [answer] at same
    dsimp only at same
    rw [run_bind] at same
    have sent : ∀ f ∈ (if (Rows.collectKeys rows split.primaryKey).isEmpty then [] else split.followUps),
        f.relations ⊆ p.labels := fun f known =>
      List.Subset.trans (Plan.sent_relations written _ f known) p.relations_subset_labels
    have merges := executeBatches_gives (o := o) split.primaryKey
      (Rows.collectKeys rows split.primaryKey) timeout sent
      (.of_answered (base timeout s.executor rows answer))
      { statements := 1, splitBatches := split.followUps.length }
    generalize o.executeBatches _ _ _ _ _ _ = batches at same merges
    cases ran : (batches (o.fetchLogged split.base timeout s).2).1 with
    | error e =>
      rw [ran] at same
      cases same
    | ok merged =>
      have stem := merges _ merged ran
      rw [ran] at same
      obtain rfl := Except.ok.inj same
      dsimp only
      split
      · exact stem
      · rename_i hidden
        have own : ∀ x ∈ [split.primaryKey], ¬p.SelectsPlainly x := by
          intro x listed plain
          rw [List.mem_singleton.mp listed] at plain
          exact hidden plain.asksFor
        exact stem.map (p.retains_removed own)

/-- Executing a compiled plan gives rows that stem from the answer to its base statement. -/
theorem execute_gives (answers : o.AnswersOnly p good) {memo : Memo} {c : CompiledPlan}
    (compiles : p.compile (o.compiler memo) = .ok c) :
    Gives (o.execute p c) fun done => p.StemFrom good done.1 := by
  have base := answers c.query.base ⟨memo, .inl ⟨c, compiles, rfl⟩⟩
  obtain ⟨-, -, query⟩ := Plan.compile_eq_ok_iff.mp compiles
  unfold execute
  split at query
  · obtain ⟨split, written, same⟩ := query
    rw [same] at base ⊢
    exact executeSplit_gives written base (o.timeout p)
  · obtain ⟨statement, -, same⟩ := query
    rw [same] at base ⊢
    dsimp only [CompiledQuery.base] at base ⊢
    intro s done executed
    cases answer : (o.executor.fetch statement (o.timeout p) s.executor).answer with
    | ok rows =>
      rw [o.executeSingle_of_answer answer] at executed
      obtain rfl := Except.ok.inj executed
      exact .of_answered (base _ _ rows answer)
    | error e =>
      rw [executeSingle, run_bind, fetchLogged_answer, answer] at executed
      cases executed

end Optimizer

namespace Fallback

variable {o : Optimizer ε σ} {p : Plan} {good : Row → Prop}

theorem fetchDraft_gives (timeout : Option Duration) (draft : Sql.Draft) :
    Gives (fetchDraft o timeout draft).run fun rows =>
      ∃ statement e, Statement.ofDraft o.executor.dialect draft = .ok statement ∧
        (o.executor.fetch statement timeout e).answer = .ok rows := by
  refine .bind_any fun _ => .bind_compileStep fun statement written => ?_
  have fetched : Gives (ExceptT.lift (o.fetch statement timeout) : Attempt ε σ _).run
      fun answer => ∃ e, (o.executor.fetch statement timeout e).answer = answer := by
    intro s answer same
    obtain rfl := Except.ok.inj same
    exact ⟨s.executor, rfl⟩
  refine .bind fetched fun answer ⟨e, replied⟩ => ?_
  cases answer with
  | ok rows => exact .pure ⟨statement, e, written, replied⟩
  | error e => exact fun _ _ same => nomatch same

theorem loadBase_gives (answers : o.AnswersOnly p good) (timeout : Option Duration) (keys : List String) :
    Gives (loadBase o p timeout keys).run fun rows => p.StemFrom good rows := by
  intro s rows same
  obtain ⟨statement, e, written, answered⟩ := fetchDraft_gives timeout _ s rows same
  exact .of_answered (answers statement ⟨s.memo, .inr ⟨keys, written⟩⟩ timeout e rows answered)

theorem loadRelation_gives (timeout : Option Duration) {r : RelationRequest} (known : r ∈ p.relations)
    {l : Loaded} (stem : p.StemFrom good l.rows) :
    Gives (loadRelation o p timeout l r).run fun loaded => p.StemFrom good loaded.rows := by
  have labelled : r.label ∈ p.labels := Plan.mem_labels.mpr (Plan.relation_named known).2
  refine .bind_compileStep fun key _ => .bind_compileStep fun shape _ => ?_
  dsimp only
  split
  · exact .pure (stem.attach labelled _ _ _ _)
  · refine .bind_compileStep fun selection _ => ?_
    have attached : Gives (do
        let ctx ← contextNow o p
        let related ← fetchDraft o timeout (Keyed.relation ctx p.entity r selection.1
          (Rows.collectKeys l.rows key))
        return ⟨attach key r.label (groupRows related) []
          (relationValue shape (Subquery.limitOf r.filter)) l.rows, l.statements + 1⟩ :
          Attempt ε σ Loaded).run fun loaded => p.StemFrom good loaded.rows :=
      .bind_any fun _ => .bind_any fun _ => .pure (stem.attach labelled _ _ _ _)
    split
    · exact .bind_any fun _ => attached
    · exact attached

theorem loadValues_gives (timeout : Option Duration) (relation : String) {label : String}
    (labelled : label ∈ p.labels) (absent : Json) (draft : Context → List DbValue → Sql.Draft)
    {l : Loaded} (stem : p.StemFrom good l.rows) :
    Gives (loadValues o p timeout relation label absent draft l).run fun loaded =>
      p.StemFrom good loaded.rows := by
  refine .bind_compileStep fun key _ => ?_
  dsimp only
  split
  · exact .pure (stem.attach labelled _ _ _ _)
  · exact .bind_any fun _ => .bind_any fun _ => .pure (stem.attach labelled _ _ _ _)

/-- The fallback attaches columns of subqueries to the base rows and removes columns that the plan does not
select. -/
theorem load_gives (answers : o.AnswersOnly p good) (timeout : Option Duration) :
    Gives (load o p timeout).run fun loaded => p.StemFrom good loaded.rows := by
  unfold load
  refine .bind_compileStep fun keys _ => .bind_any fun before => ?_
  refine .bind (loadBase_gives answers timeout keys) fun base stem => ?_
  refine .bind_compileStep fun helpers removed => ?_
  obtain ⟨own, resolved, rfl⟩ := map_eq_ok_iff.mp removed
  refine .bind (.foldlM (fun r known l => loadRelation_gives timeout known) stem) fun l stem => ?_
  refine .bind (.foldlM (fun count known l => loadValues_gives timeout _
    (Plan.mem_labels.mpr (Plan.count_named known).2) _ _) stem) fun l stem => ?_
  refine .bind (.foldlM (fun a known l => loadValues_gives timeout _
    (Plan.mem_labels.mpr (Plan.aggregate_named known).2) _ _) stem) fun l stem => ?_
  refine .bind_any fun _ => .pure (stem.map fun row => p.retains_removed ?_ row)
  intro x listed plain
  rw [List.mem_filter] at listed
  exact absurd (plain.mem_own resolved) (by simpa using listed.2)

end Fallback

namespace Optimizer

variable {o : Optimizer ε σ} {p : Plan} {good : Row → Prop}

theorem recover_gives (answers : o.AnswersOnly p good) (layout : Layout) (e : ExecutionError) :
    Gives (o.recover p layout e) fun x => p.StemFrom good x.rows ∧ x.layout = layout := by
  intro s x same
  cases mode : o.safeMode p with
  | false =>
    rw [recover_exposed mode] at same
    exact nomatch same
  | true =>
    rw [recover_safe mode] at same
    obtain ⟨loaded, ran, rfl⟩ := map_eq_ok_iff.mp same
    exact ⟨Fallback.load_gives answers _ _ loaded ran, rfl⟩

/-- Whether the caches hold only rows of a kind for a plan, with the changes that a run makes. -/
def Recalls (o : Optimizer ε σ) (p : Plan) (good : Row → Prop) (s : State ε σ) : Prop :=
  ∀ x, (o.begin p s).1 = .hit x → p.StemFrom good x.rows

theorem recalls_of_misses {s : State ε σ} (misses : ∀ c, o.Misses p c s) : o.Recalls p good s := by
  intro x hit
  rcases o.begin_fst p s with ⟨e, -, start⟩ | ⟨c, -, ⟨-, start⟩ | ⟨found, -⟩⟩
  · exact nomatch start.symm.trans hit
  · exact nomatch start.symm.trans hit
  · exact absurd (misses c) found

/-- Whether its rows are found, executed or loaded one by one, every row of a run stems from a row that was
answered to a statement for the base rows. -/
theorem run_stems (answers : o.AnswersOnly p good) {s : State ε σ} (recalls : o.Recalls p good s)
    {x : Execution} (ran : (o.run p s).1 = .ok x) :
    p.StemFrom good x.rows ∧ p.layout = .ok x.layout := by
  rcases o.begin_fst p s with ⟨e, -, start⟩ | ⟨c, compiles, ⟨-, start⟩ | ⟨-, tier, rows, start⟩⟩
  · rw [run_of_failed start] at ran
    exact nomatch ran
  · have layout := (Plan.compile_eq_ok_iff.mp compiles).1
    cases executed : (o.execute p c (o.begin p s).2).1 with
    | ok done =>
      rw [run_of_executed start executed] at ran
      obtain rfl := Except.ok.inj ran
      exact ⟨execute_gives answers compiles _ _ executed, layout⟩
    | error e =>
      rw [run_of_unexecuted start executed] at ran
      obtain ⟨stem, same⟩ := recover_gives answers c.layout e _ x ran
      exact ⟨stem, same ▸ layout⟩
  · rw [run_of_hit start] at ran
    obtain rfl := Except.ok.inj ran
    exact ⟨recalls _ start, (Plan.compile_eq_ok_iff.mp compiles).1⟩

/-- Decoding replaces columns of relations only. -/
theorem rows_stem (answers : o.AnswersOnly p good) {s : State ε σ} (recalls : o.Recalls p good s)
    {rows : List Row} (ran : ((o.rows p).run s).1 = .ok rows) : p.StemFrom good rows := by
  obtain ⟨shown, reported, same⟩ := attempt_bind_eq_ok_iff.mp ran
  obtain rfl := Except.ok.inj same
  obtain ⟨x, executed, decoded⟩ := attempt_bind_eq_ok_iff.mp reported
  obtain rfl := Except.ok.inj decoded
  obtain ⟨stem, layout⟩ := run_stems answers recalls executed
  have labels : x.layout.map Slot.label ⊆ p.labels := by
    rw [Plan.layout_labels layout]
    exact p.relations_subset_labels
  have columns : (Decode.rows x.layout x.rows).1 = x.rows.map fun row => (Decode.row x.layout row).1 :=
    Decode.rows_fst x.layout x.rows
  change p.StemFrom good (Decode.rows x.layout x.rows).1
  rw [columns]
  exact stem.map fun row => .of_sameBut (Decode.row_sameBut x.layout row) labels

end Optimizer
end EagerLoad
