import EagerLoad.Proofs.Plan.Outputs
import EagerLoad.Proofs.Row.Merge
import EagerLoad.Proofs.Run.Fetch

/-! # Splitting keeps the records

A database holds base rows with distinct keys, and a value for every key and relation. Whether its
answers come from one statement or from a base statement and its follow-ups, the decoded records are
the same. -/
namespace EagerLoad

/-- The base rows of a database with all their columns, and the value of every relation by the text
of a key. -/
structure Holdings where
  rows : List Row
  related : String → String → Json

namespace Holdings

/-- Whether a row shows the listed relations and columns of a base row, and nothing else. -/
def Shows (h : Holdings) (key : String) (relations columns : List String) (row shown : Row) : Prop :=
  ∀ x, shown.get? x =
    if x ∈ relations then (row.key? key).map fun text => h.related text x
    else if x ∈ columns then row.get? x
    else none

/-- Whether an answer shows the base rows in their order. -/
def ShowsAll (h : Holdings) (key : String) (relations columns : List String) (shown : List Row) :
    Prop :=
  List.Forall₂ (h.Shows key relations columns) h.rows shown

/-- Whether an answer, in any order, has a row for every base row, and shows the listed relations
wherever it has the key of one. -/
def Covers (h : Holdings) (key : String) (relations : List String) (answer : List Row) : Prop :=
  ∀ row ∈ h.rows, (∃ incoming ∈ answer, incoming.key? key = row.key? key) ∧
    ∀ incoming ∈ answer, incoming.key? key = row.key? key →
      ∀ label ∈ relations, incoming.get? label = (row.key? key).map fun text => h.related text label

/-- Whether an executor answers the statements of a plan from what is held, whatever its state. -/
structure AnsweredBy (h : Holdings) (o : Optimizer ε σ) (timeout : Option Duration) (p : Plan)
    (c : Compiler) (split : Split) : Prop where
  keyed : ∀ row ∈ h.rows, (row.key? p.entity.primaryKey).isSome = true
  distinct : (h.rows.map (·.key? p.entity.primaryKey)).Nodup
  unsplit : ∀ statement, p.unsplit c = .ok statement → ∀ e, ∃ rows,
    (o.executor.fetch statement timeout e).answer = .ok rows ∧
      h.ShowsAll p.entity.primaryKey (p.relations.map RelationRequest.label)
        (p.outputs c p.wholePart) rows
  base : ∀ e, ∃ rows, (o.executor.fetch split.base timeout e).answer = .ok rows ∧
    h.ShowsAll p.entity.primaryKey ((p.firstBatch c.config).map RelationRequest.label)
      (p.outputs c (p.firstPart (p.firstBatch c.config))) rows
  followUps : ∀ f ∈ split.followUps, ∀ e, ∃ rows,
    (o.executor.fetch (f.bind o.executor.dialect (Rows.collectKeys h.rows p.entity.primaryKey))
      timeout e).answer = .ok rows ∧ h.Covers p.entity.primaryKey f.relations rows

theorem shows_iff (h : Holdings) (key : String) (relations columns : List String)
    (row shown : Row) :
    h.Shows key relations columns row shown ↔ ∀ x ∈ relations ++ columns ++ shown.map (·.1),
      shown.get? x =
        if x ∈ relations then (row.key? key).map fun text => h.related text x
        else if x ∈ columns then row.get? x
        else none := by
  refine ⟨fun shows x _ => shows x, fun shows x => ?_⟩
  by_cases found : x ∈ relations ++ columns ++ shown.map (·.1)
  · exact shows x found
  · simp only [List.mem_append, not_or] at found
    rw [Row.get?_eq_none shown found.2, if_neg found.1.1, if_neg found.1.2]

instance (h : Holdings) (key : String) (relations columns : List String) :
    DecidableRel (h.Shows key relations columns) := fun row shown =>
  decidable_of_iff _ (h.shows_iff key relations columns row shown).symm

instance (h : Holdings) (key : String) (relations columns : List String) (shown : List Row) :
    Decidable (h.ShowsAll key relations columns shown) :=
  inferInstanceAs (Decidable (List.Forall₂ _ _ _))

instance (h : Holdings) (key : String) (relations : List String) (answer : List Row) :
    Decidable (h.Covers key relations answer) :=
  inferInstanceAs (Decidable (∀ row ∈ h.rows,
    (∃ incoming ∈ answer, incoming.key? key = row.key? key) ∧
      ∀ incoming ∈ answer, incoming.key? key = row.key? key → ∀ label ∈ relations,
        incoming.get? label = (row.key? key).map fun text => h.related text label))

variable {h : Holdings} {key : String} {relations columns : List String}

theorem Shows.get?_key {row shown : Row} (shows : h.Shows key relations columns row shown)
    (apart : key ∉ relations) (selected : key ∈ columns) : shown.get? key = row.get? key := by
  rw [shows key, if_neg apart, if_pos selected]

theorem ShowsAll.get?_key {shown : List Row} (shows : h.ShowsAll key relations columns shown)
    (apart : key ∉ relations) (selected : key ∈ columns) :
    List.Forall₂ (fun row shown => shown.get? key = row.get? key) h.rows shown :=
  shows.imp fun _ _ each => each.get?_key apart selected

private theorem map_key? {rows shown : List Row}
    (same : List.Forall₂ (fun row shown => Row.get? shown key = row.get? key) rows shown) :
    shown.map (·.key? key) = rows.map (·.key? key) := by
  induction same with
  | nil => rfl
  | cons here _ ih => rw [List.map_cons, List.map_cons, ih, Row.key?, Row.key?, here]

private theorem Shows.receive {row shown : Row} {answer : List Row} {more : List String}
    (shows : h.Shows key relations columns row shown) (same : shown.key? key = row.key? key)
    (apart : key ∉ more) (keyed : (row.key? key).isSome = true)
    (partner : ∃ incoming ∈ answer, incoming.key? key = row.key? key)
    (carries : ∀ incoming ∈ answer, incoming.key? key = row.key? key →
      ∀ label ∈ more, incoming.get? label = (row.key? key).map fun text => h.related text label) :
    h.Shows key (relations ++ more) columns row (Rows.receive key more answer shown) := by
  intro x
  by_cases later : x ∈ more
  · obtain ⟨text, found⟩ := Option.isSome_iff_exists.mp keyed
    rw [found] at same partner carries
    rw [Rows.get?_receive apart later (h.related text x)]
    · simp [later, found]
    · rw [same]
      exact fun incoming known shared => by simpa using carries incoming known shared x later
    · rw [same]
      exact partner
  · rw [Rows.get?_receive_of_notMem _ _ later, shows x]
    simp [later]

/-- Merging an answer that covers the base rows adds its relations to what is shown. -/
theorem ShowsAll.merge {shown answer : List Row} {more : List String}
    (shows : h.ShowsAll key relations columns shown) (covers : h.Covers key more answer)
    (keyed : ∀ row ∈ h.rows, (row.key? key).isSome = true)
    (distinct : (h.rows.map (·.key? key)).Nodup) (selected : key ∈ columns)
    (apart : key ∉ relations) (apartMore : key ∉ more) :
    h.ShowsAll key (relations ++ more) columns (Rows.merge shown answer key more) := by
  have same := map_key? (shows.get?_key apart selected)
  have keyedShown : ∀ row ∈ shown, (row.key? key).isSome = true := by
    intro row found
    have text : row.key? key ∈ h.rows.map (·.key? key) := by
      rw [← same]
      exact List.mem_map_of_mem found
    obtain ⟨base, known, equal⟩ := List.mem_map.mp text
    rw [← equal]
    exact keyed base known
  have distinctShown : (shown.map (·.key? key)).Nodup := by
    rw [same]
    exact distinct
  rw [Rows.merge_eq_map apartMore shown answer keyedShown distinctShown, ShowsAll,
    List.forall₂_map_right_iff]
  have known : ∀ row ∈ h.rows, row ∈ h.rows := fun _ found => found
  refine ((List.forall₂_and_left _ _).mpr ⟨known, shows⟩).imp fun row shown both => ?_
  obtain ⟨known, each⟩ := both
  obtain ⟨partner, carries⟩ := covers row known
  have key : shown.key? key = row.key? key := by
    rw [Row.key?, Row.key?, each.get?_key apart selected]
  exact each.receive key apartMore (keyed row known) partner carries

end Holdings

namespace Optimizer

variable (o : Optimizer ε σ) (timeout : Option Duration) {h : Holdings} {key : String}

/-- Follow-ups whose answers cover the base rows add all their relations to what is shown. -/
theorem executeBatches_showsAll {columns : List String}
    (keyed : ∀ row ∈ h.rows, (row.key? key).isSome = true)
    (distinct : (h.rows.map (·.key? key)).Nodup) (selected : key ∈ columns) (keys : List DbValue)
    (followUps : List FollowUp) (apartBatches : ∀ f ∈ followUps, key ∉ f.relations)
    (answered : ∀ f ∈ followUps, ∀ e, ∃ rows,
      (o.executor.fetch (f.bind o.executor.dialect keys) timeout e).answer = .ok rows ∧
        h.Covers key f.relations rows)
    {relations : List String} {shown : List Row} (shows : h.ShowsAll key relations columns shown)
    (apart : key ∉ relations) (report : Report) (s : State ε σ) :
    ∃ merged report', (o.executeBatches key keys timeout followUps shown report s).1 =
        .ok (merged, report') ∧
      h.ShowsAll key (relations ++ followUps.flatMap FollowUp.relations) columns merged := by
  induction followUps generalizing relations shown report s with
  | nil => exact ⟨shown, report, rfl, by simpa using shows⟩
  | cons f rest ih =>
    obtain ⟨rows, answer, covers⟩ := answered f (by simp) s.executor
    have apartHere := apartBatches f (by simp)
    have merged := shows.merge covers keyed distinct selected apart apartHere
    have apartNext : key ∉ relations ++ f.relations := by simp [apart, apartHere]
    rw [List.flatMap_cons, ← List.append_assoc, executeBatches, run_bind, fetchLogged_answer, answer]
    exact ih (fun g found => apartBatches g (by simp [found]))
      (fun g found => answered g (by simp [found])) merged apartNext _ _

/-- Without base rows no follow-up is sent, and their relations are shown all the same. -/
theorem executeSent_showsAll {columns : List String}
    (keyed : ∀ row ∈ h.rows, (row.key? key).isSome = true)
    (distinct : (h.rows.map (·.key? key)).Nodup) (selected : key ∈ columns)
    (followUps : List FollowUp) (apartBatches : ∀ f ∈ followUps, key ∉ f.relations)
    (answered : ∀ f ∈ followUps, ∀ e, ∃ rows,
      (o.executor.fetch (f.bind o.executor.dialect (Rows.collectKeys h.rows key)) timeout e).answer =
        .ok rows ∧ h.Covers key f.relations rows)
    {relations : List String} {shown : List Row} (shows : h.ShowsAll key relations columns shown)
    (apart : key ∉ relations) (report : Report) (s : State ε σ) :
    ∃ merged report', (o.executeBatches key (Rows.collectKeys h.rows key) timeout
        (if (Rows.collectKeys h.rows key).isEmpty then [] else followUps) shown report s).1 =
          .ok (merged, report') ∧
      h.ShowsAll key (relations ++ followUps.flatMap FollowUp.relations) columns merged := by
  cases held : h.rows with
  | nil =>
    rw [Holdings.ShowsAll, held, List.forall₂_nil_left_iff] at shows
    refine ⟨shown, report, rfl, ?_⟩
    rw [Holdings.ShowsAll, held, shows]
    exact .nil
  | cons row rest =>
    have some : (Rows.collectKeys (row :: rest) key).isEmpty = false :=
      Rows.collectKeys_ne_nil (keyed row (by simp [held]))
    rw [some, if_neg Bool.false_ne_true, ← held]
    exact o.executeBatches_showsAll timeout keyed distinct selected _ followUps apartBatches answered
      shows apart report s

end Optimizer

/-- A row of the plan's own statement and a merged row hold the same, once a key that is not asked for
is removed. -/
private theorem same_of_shows {p : Plan} {c : Compiler} {h : Holdings} {own : Columns}
    {row whole parts : Row}
    (resolved : Columns.resolve p.entity p.columns (p.localization? c) = .ok own)
    (selected : ∃ label, p.isSubqueryLabel label = true)
    (labels : p.isSubqueryLabel p.entity.primaryKey = false)
    (plain : p.entity.primaryKey ∉ p.entity.localizedFields)
    (left : h.Shows p.entity.primaryKey (p.relations.map RelationRequest.label)
      (p.outputs c p.wholePart) row whole)
    (right : h.Shows p.entity.primaryKey (p.relations.map RelationRequest.label)
      (p.outputs c (p.firstPart (p.firstBatch c.config))) row parts) :
    Row.Same whole (if Optimizer.asksFor p p.entity.primaryKey then parts
      else parts.remove p.entity.primaryKey) := by
  have apart : p.entity.primaryKey ∉ p.relations.map RelationRequest.label := fun found =>
    Bool.false_ne_true (labels.symm.trans (Plan.isSubqueryLabel_iff.mpr (.inl found)))
  have keyShown := Plan.primaryKey_mem_outputs_wholePart resolved selected labels plain
  intro x
  by_cases key : x = p.entity.primaryKey
  · -- The first part selects the key in any case, so that the batches can be merged by it.
    subst key
    have forced : p.entity.primaryKey ∈ p.outputs c (p.firstPart (p.firstBatch c.config)) :=
      (Plan.mem_outputs_firstPart resolved _ _).mpr (.inl (.inr rfl))
    by_cases asked : Optimizer.asksFor p p.entity.primaryKey = true
    · rw [if_pos asked, left.get?_key apart (keyShown.mpr asked), right.get?_key apart forced]
    · rw [if_neg asked, Row.get?_remove, if_pos rfl, left p.entity.primaryKey, if_neg apart,
        if_neg fun shown => asked (keyShown.mp shown)]
  · have kept : (if Optimizer.asksFor p p.entity.primaryKey then parts
        else parts.remove p.entity.primaryKey).get? x = parts.get? x := by
      split
      · rfl
      · rw [Row.get?_remove, if_neg key]
    rw [kept, left x, right x]
    by_cases related : x ∈ p.relations.map RelationRequest.label
    · rw [if_pos related, if_pos related]
    · have outputs := Plan.mem_outputs_firstPart_iff_wholePart resolved selected
        (p.firstBatch_subset c.config) related key
      simp only [if_neg related, outputs]

/-- Executing a split plan merges the answers to all its statements. -/
private theorem executeSplit_showsAll {o : Optimizer ε σ} {p : Plan} {c : Compiler}
    {timeout : Option Duration} {h : Holdings} {split : Split} {own : Columns}
    (written : p.split c = .ok split)
    (resolved : Columns.resolve p.entity p.columns (p.localization? c) = .ok own)
    (labels : p.entity.primaryKey ∉ p.relations.map RelationRequest.label)
    (answered : h.AnsweredBy o timeout p c split) (s : State ε σ) :
    ∃ merged report, (o.executeSplit p split timeout s).1 =
        .ok (if Optimizer.asksFor p p.entity.primaryKey then merged
          else merged.map fun row => row.remove p.entity.primaryKey, report) ∧
      h.ShowsAll p.entity.primaryKey (p.relations.map RelationRequest.label)
        (p.outputs c (p.firstPart (p.firstBatch c.config))) merged := by
  obtain ⟨-, -, key⟩ := Plan.split_eq_ok_iff.mp written
  have relations := Plan.labels_of_split written
  obtain ⟨rows, answer, shows⟩ := answered.base s.executor
  have selected : p.entity.primaryKey ∈ p.outputs c (p.firstPart (p.firstBatch c.config)) :=
    (Plan.mem_outputs_firstPart resolved _ _).mpr (.inl (.inr rfl))
  have apart : p.entity.primaryKey ∉ (p.firstBatch c.config).map RelationRequest.label := by
    intro found
    exact labels (relations ▸ List.mem_append_left _ found)
  have apartBatches : ∀ f ∈ split.followUps, p.entity.primaryKey ∉ f.relations := by
    intro f listed found
    exact labels (relations ▸ List.mem_append_right _ (List.mem_flatMap.mpr ⟨f, listed, found⟩))
  have keys : Rows.collectKeys rows p.entity.primaryKey =
      Rows.collectKeys h.rows p.entity.primaryKey :=
    (Rows.collectKeys_congr ((shows.get?_key apart selected).imp fun _ _ => Eq.symm)).symm
  rw [Optimizer.executeSplit, run_bind, Optimizer.fetchLogged_answer, answer, key]
  dsimp only
  rw [keys, run_bind]
  obtain ⟨merged, report, done, all⟩ := o.executeSent_showsAll timeout answered.keyed
    answered.distinct selected split.followUps apartBatches answered.followUps shows apart _ _
  rw [done]
  exact ⟨merged, report, rfl, relations ▸ all⟩

/-- A split plan gives the same records as the plan's own statement, row by row. -/
theorem split_same_records (o : Optimizer ε σ) (p : Plan) (memo : Memo) (timeout : Option Duration)
    (h : Holdings) {split : Split} {layout : Layout} {subqueries : Nat}
    (compiled : p.compile (o.compiler memo) = .ok ⟨.split split, layout, subqueries⟩)
    (labels : p.isSubqueryLabel p.entity.primaryKey = false)
    (plain : p.entity.primaryKey ∉ p.entity.localizedFields)
    (order : ∀ term ∈ p.order, ∀ r ∈ p.relations, r.label ≠ term.column)
    (answered : h.AnsweredBy o timeout p (o.compiler memo) split) :
    ∃ statement, p.unsplit (o.compiler memo) = .ok statement ∧ ∀ s s' : State ε σ,
      ∃ whole parts report report',
        (o.executeSingle statement timeout s).1 = .ok (whole, report) ∧
        (o.executeSplit p split timeout s').1 = .ok (parts, report') ∧
        List.Forall₂ Row.Same (Decode.rows layout whole).1 (Decode.rows layout parts).1 := by
  obtain ⟨-, -, query⟩ := Plan.compile_eq_ok_iff.mp compiled
  split at query
  · rename_i isSplit
    obtain ⟨found, written, same⟩ := query
    obtain rfl := CompiledQuery.split.inj same
    have selected : p.relations ≠ [] := by
      rintro none
      simp [Plan.isSplit, none] at isSplit
    obtain ⟨r, known⟩ := List.exists_mem_of_ne_nil _ selected
    have label : p.isSubqueryLabel r.label = true :=
      Plan.isSubqueryLabel_iff.mpr (.inl (List.mem_map_of_mem known))
    obtain ⟨statement, unsplit⟩ := Plan.unsplit_of_split written selected order
    refine ⟨statement, unsplit, fun s s' => ?_⟩
    obtain ⟨own, resolved⟩ := Plan.resolve_of_split written
    have apart : p.entity.primaryKey ∉ p.relations.map RelationRequest.label := by
      intro found
      obtain ⟨r, known, named⟩ := List.mem_map.mp found
      simp only [Plan.isSubqueryLabel, Bool.or_eq_false_iff, List.any_eq_false, beq_iff_eq] at labels
      exact labels.1.1 r known named
    obtain ⟨whole, answer, shows⟩ := answered.unsplit statement unsplit s.executor
    obtain ⟨merged, report, done, all⟩ := executeSplit_showsAll written resolved apart answered s'
    refine ⟨whole, _, _, report, o.executeSingle_of_answer answer, done, ?_⟩
    have hidden : (if Optimizer.asksFor p p.entity.primaryKey then merged
          else merged.map fun row => row.remove p.entity.primaryKey) =
        merged.map fun row => if Optimizer.asksFor p p.entity.primaryKey then row
          else row.remove p.entity.primaryKey := by
      split <;> simp
    rw [hidden, Decode.rows_fst, Decode.rows_fst, List.map_map, List.forall₂_map_left_iff,
      List.forall₂_map_right_iff]
    refine (forall₂_of_common shows all).imp fun left right shown => ?_
    obtain ⟨row, leftShows, rightShows⟩ := shown
    exact Decode.same_of_agree layout _ _ fun x =>
      .inl (same_of_shows resolved ⟨_, label⟩ labels plain leftShows rightShows x)
  · obtain ⟨_, -, same⟩ := query
    exact absurd same (by simp)

namespace Bookshelf

def books : RelationRequest := { name := "books", kind := .collection }

def awards : RelationRequest :=
  { name := "awards", kind := .collection
    filter := some (({} : Filter).and (.compare "year" .equal (.int32 1999))) }

/-- The names of authors with their books and the awards of a year. -/
def authors : Plan :=
  { entity :=
      { type := "Author", table := "authors"
        relations :=
          [("books", .hasMany "Book" "author" "id"), ("awards", .hasMany "Award" "author" "id")] }
    columns := .columns ["name"]
    relations := [books, awards] }

def held : Holdings :=
  { rows := [[("id", .int 1), ("name", .str "Ann")], [("id", .int 2), ("name", .str "Bo")]]
    related := fun text label => .arr [.str text, .str label] }

def wholeRows : List Row :=
  [[("name", .str "Ann"), ("books", .arr [.str "1", .str "books"]),
      ("awards", .arr [.str "1", .str "awards"])],
    [("name", .str "Bo"), ("books", .arr [.str "2", .str "books"]),
      ("awards", .arr [.str "2", .str "awards"])]]

def baseRows : List Row :=
  [[("name", .str "Ann"), ("id", .int 1), ("books", .arr [.str "1", .str "books"])],
    [("name", .str "Bo"), ("id", .int 2), ("books", .arr [.str "2", .str "books"])]]

def laterRows : List Row :=
  [[("id", .int 2), ("awards", .arr [.str "2", .str "awards"])],
    [("id", .int 1), ("awards", .arr [.str "1", .str "awards"])]]

/-- The base statement binds nothing and the follow-up binds the year and two keys. -/
def answer (statement : Statement) : List Row :=
  match statement.bindings with
  | [] => baseRows
  | [_] => wholeRows
  | _ => laterRows

def optimizer : Optimizer Unit Unit :=
  { config := { maxRelations := 1 }
    registry :=
      [("Book", { type := "Book", table := "books" }),
        ("Award", { type := "Award", table := "awards" })]
    executor := ⟨.sqlite, fun statement _ _ => { answer := .ok (answer statement), next := () }⟩
    store := none }

def compiler : Compiler := optimizer.compiler []

def split : Split :=
  { base := .ofFragment .sqlite ((authors.draft compiler (authors.firstPart [books])).fragment .sqlite)
    followUps := [⟨["awards"], (authors.draft compiler (authors.laterPart [awards])).fragment .sqlite⟩]
    primaryKey := "id" }

theorem batches : authors.batches compiler.config = [[books], [awards]] := by
  simp [Plan.batches, Plan.relationLimit, authors, compiler, optimizer, Optimizer.compiler, chunksOf]

theorem split_written : authors.split compiler = .ok split := by
  have first : (authors.draft compiler (authors.firstPart [books])).failure? = none := by decide
  have later : (authors.draft compiler (authors.laterPart [awards])).failure? = none := by decide
  refine Plan.split_eq_ok_iff.mpr ⟨?_, ?_, rfl⟩
  · rw [Plan.firstDraft, batches]
    exact (Sql.Draft.ofDraft_eq_ok_iff _ _ _).mpr ⟨first, rfl⟩
  · rw [Plan.laterBatches, batches]
    exact .cons (Plan.followUp_eq_ok_iff.mpr ⟨later, rfl⟩) .nil

theorem compiled :
    authors.compile compiler = .ok ⟨.split split, [⟨"books", .many⟩, ⟨"awards", .many⟩], 2⟩ :=
  Plan.compile_eq_ok_iff.mpr ⟨rfl, rfl, ⟨split, split_written, rfl⟩⟩

theorem answered : held.AnsweredBy optimizer none authors compiler split where
  keyed := by decide
  distinct := by decide
  unsplit statement written _ := by
    obtain ⟨-, rfl⟩ := (Sql.Draft.ofDraft_eq_ok_iff _ _ _).mp written
    exact ⟨wholeRows, rfl, by decide⟩
  base _ := by
    rw [Plan.firstBatch, batches]
    exact ⟨baseRows, rfl, by decide⟩
  followUps f listed _ := by
    obtain rfl := List.mem_singleton.mp listed
    exact ⟨laterRows, rfl, by decide⟩

end Bookshelf

open Bookshelf in
theorem split_same_records_shelf :
    authors.compile compiler = .ok ⟨.split split, [⟨"books", .many⟩, ⟨"awards", .many⟩], 2⟩ ∧
      authors.isSubqueryLabel authors.entity.primaryKey = false ∧
      authors.entity.primaryKey ∉ authors.entity.localizedFields ∧
      (∀ term ∈ authors.order, ∀ r ∈ authors.relations, r.label ≠ term.column) ∧
      held.AnsweredBy optimizer none authors compiler split ∧
      ∃ statement, authors.unsplit compiler = .ok statement ∧ ∀ s s' : State Unit Unit,
        ∃ whole parts report report',
          (optimizer.executeSingle statement none s).1 = .ok (whole, report) ∧
          (optimizer.executeSplit authors split none s').1 = .ok (parts, report') ∧
          List.Forall₂ Row.Same (Decode.rows [⟨"books", .many⟩, ⟨"awards", .many⟩] whole).1
            (Decode.rows [⟨"books", .many⟩, ⟨"awards", .many⟩] parts).1 :=
  ⟨compiled, by decide, by decide, by decide, answered,
    split_same_records optimizer authors [] none held compiled (by decide) (by decide) (by decide)
      answered⟩

end EagerLoad
