import EagerLoad.Proofs.Plan.Qualified
import EagerLoad.Proofs.Relation.Filled
import EagerLoad.Query.Call

/-! # Parentheses of statements

If the filters of a plan are built by calls and have no raw texts, something stands in all parentheses of its
statements. A follow-up leaves open those of its keys, and has to be bound to some. -/
namespace EagerLoad

open Sql Sql.Draft

namespace Plan

/-- Whether all filters of a plan are of a kind: its own, its tests on groups, and those of what is requested. -/
structure EveryFilter (holds : Filter → Prop) (p : Plan) : Prop where
  filter : holds p.filter
  having : holds p.having
  relations : ∀ r ∈ p.relations, ∀ f, r.filter = some f → holds f
  counts : ∀ n ∈ p.counts, ∀ f, n.filter = some f → holds f
  aggregates : ∀ a ∈ p.aggregates, ∀ f, a.filter = some f → holds f

namespace EveryFilter

variable {holds : Filter → Prop} {p : Plan}

theorem mono {weaker : Filter → Prop} (every : p.EveryFilter holds) (imp : ∀ f, holds f → weaker f) :
    p.EveryFilter weaker where
  filter := imp _ every.filter
  having := imp _ every.having
  relations r known f here := imp f (every.relations r known f here)
  counts n known f here := imp f (every.counts n known f here)
  aggregates a known f here := imp f (every.aggregates a known f here)

theorem counted (every : p.EveryFilter holds) : p.counted.EveryFilter holds := by
  unfold Plan.counted
  dsimp only
  split
  · exact { every with
      relations := List.forall_mem_nil _, counts := List.forall_mem_nil _, aggregates := List.forall_mem_nil _ }
  · exact { every with relations := List.forall_mem_nil _ }

theorem probed (every : p.EveryFilter holds) : p.probed.EveryFilter holds :=
  { every with
    relations := List.forall_mem_nil _, counts := List.forall_mem_nil _, aggregates := List.forall_mem_nil _ }

/-- Filters that are built by calls have no empty groups. -/
theorem sound (built : p.EveryFilter Filter.Built) (rawless : p.raws = []) :
    p.EveryFilter fun f => f.Grouped ∧ f.raws = [] := by
  simp only [raws, List.append_eq_nil_iff, List.flatMap_eq_nil_iff] at rawless
  obtain ⟨⟨⟨⟨filter, having⟩, relations⟩, counts⟩, aggregates⟩ := rawless
  have own {f : Filter} {filter : Option Filter} (none : rawsOf filter = []) (here : filter = some f) :
      f.raws = [] := by
    subst here
    exact none
  exact
    { filter := ⟨built.filter.grouped, filter⟩
      having := ⟨built.having.grouped, having⟩
      relations := fun r known f here => ⟨(built.relations r known f here).grouped, own (relations r known) here⟩
      counts := fun n known f here => ⟨(built.counts n known f here).grouped, own (counts n known) here⟩
      aggregates := fun a known f here =>
        ⟨(built.aggregates a known f here).grouped, own (aggregates a known) here⟩ }

end EveryFilter
end Plan

/-- Whether the filters that a call is given are built by calls. -/
def QueryCall.Builds : QueryCall → Prop
  | .relation call => ∀ f, call.filter = some f → f.Built
  | .count request => ∀ f, request.filter = some f → f.Built
  | .aggregate request => ∀ f, request.filter = some f → f.Built
  | .filter call => call.Builds
  | .having calls => callsBuild calls
  | _ => True

theorem QueryCall.built_apply {p : Plan} (built : p.EveryFilter Filter.Built) (call : QueryCall)
    (builds : call.Builds) : (call.apply p).EveryFilter Filter.Built := by
  cases call with
  | relation call =>
    refine { built with relations := fun r listed => ?_ }
    obtain rfl | earlier := mem_putBy listed
    · exact builds
    · exact built.relations r earlier
  | count request =>
    refine { built with counts := fun n listed => ?_ }
    obtain rfl | earlier := mem_putBy listed
    · exact builds
    · exact built.counts n earlier
  | aggregate request =>
    refine { built with aggregates := fun a listed => ?_ }
    obtain rfl | earlier := mem_putBy listed
    · exact builds
    · exact built.aggregates a earlier
  | filter call => exact { built with filter := call.built_apply built.filter builds }
  | having calls => exact { built with having := built_applyCalls built.having calls builds }
  | _ => exact { built with }

/-- The filters of a plan are built by calls if it is itself. -/
theorem QueryCall.built_build (e : Entity) {calls : List QueryCall} (builds : ∀ call ∈ calls, call.Builds) :
    (build e calls).EveryFilter Filter.Built := by
  unfold build
  refine List.foldlRecOn (motive := fun p : Plan => p.EveryFilter Filter.Built) calls apply ?_ ?_
  · exact ⟨.empty, .empty, List.forall_mem_nil _, List.forall_mem_nil _, List.forall_mem_nil _⟩
  · exact fun p built call listed => call.built_apply built (builds call listed)

namespace Plan

/-- A search that has columns has terms, and looks for some columns in every relation that it names. -/
theorem groupSearch_some (e : Entity) {columns : List String} (some : columns ≠ []) :
    ((groupSearch e columns).1 ≠ [] ∨ (groupSearch e columns).2 ≠ []) ∧
      ∀ group ∈ (groupSearch e columns).2, group.2 ≠ [] := by
  constructor
  · obtain rfl | ⟨earlier, last, rfl⟩ := List.eq_nil_or_concat columns
    · exact absurd rfl some
    · rw [groupSearch, List.concat_eq_append, List.foldl_append, List.foldl_cons, List.foldl_nil]
      generalize List.foldl _ _ earlier = before
      obtain ⟨own, related⟩ := before
      dsimp only
      split
      · split
        · exact .inr (upsert_ne_nil _ _ _)
        · exact .inl (List.append_ne_nil_of_right_ne_nil _ (List.cons_ne_nil _ _))
      · exact .inl (List.append_ne_nil_of_right_ne_nil _ (List.cons_ne_nil _ _))
  · unfold groupSearch
    apply List.foldlRecOn (motive := fun (grouped : List String × List (String × List String)) =>
      ∀ group ∈ grouped.2, group.2 ≠ [])
    · exact List.forall_mem_nil _
    rintro ⟨own, related⟩ before column - group found
    dsimp only at before found
    split at found
    · split at found
      · obtain rfl | earlier := mem_upsert found
        · exact List.append_ne_nil_of_right_ne_nil _ (List.cons_ne_nil _ _)
        · exact before group earlier
      · exact before group found
    · exact before group found

section Clauses

variable {d : Dialect} (p : Plan) (c : Compiler) (part : Part)

theorem joinDraft_enclosing (table : String) (j : Join) : Enclosing d (joinDraft table j) := by
  have kind : '(' ∉ j.kind.sql.toList := by cases j.kind <;> decide
  refine Enclosing.append (Enclosing.append (Enclosing.append ?_ (.column _ _)) ?_) (.column _ _)
  · exact .plain (by decide) (.plain kind (.plain (by decide) (.name _ (.plain (by decide) .nil))))
  · exact .plain (by decide) (.word j.operator.sql_enclosed (.plain (by decide) .nil))

theorem satelliteJoin_enclosing : Enclosing d (p.satelliteJoin c) := by
  unfold satelliteJoin
  split
  · exact Localization.join_enclosing _ _ _ _ _
  · exact .nil

theorem searchDraft_enclosing {s : Search} (active : s.isActive = true) :
    Enclosing d (p.searchDraft c s) := by
  have columns : s.columns ≠ [] := by
    rintro none
    simp [Search.isActive, none] at active
  obtain ⟨some, fields⟩ := groupSearch_some p.entity columns
  unfold searchDraft
  generalize groupSearch p.entity s.columns = grouped at some fields
  obtain ⟨own, related⟩ := grouped
  refine Subquery.terms_enclosing (by decide +kernel) (.of_notMem (by decide)) ?_ fun draft found => ?_
  · intro none
    obtain ⟨noOwn, noRelated⟩ := List.append_eq_nil_iff.mp none
    obtain some | some := some
    · exact some (List.map_eq_nil_iff.mp (List.map_eq_nil_iff.mp noOwn))
    · exact some (List.map_eq_nil_iff.mp noRelated)
  · obtain found | found := List.mem_append.mp found
    · refine Subquery.searchTerms_enclosing _ _ (fun column known => ?_) draft found
      obtain ⟨name, -, rfl⟩ := List.mem_map.mp known
      exact ⟨.column _ _, .column _ _⟩
    · obtain ⟨group, known, rfl⟩ := List.mem_map.mp found
      exact ⟨Subquery.search_enclosing _ _ _ _ (fields group known) _, Subquery.search_inks _ _ _ _ _ _⟩

theorem clause_enclosing {keyword separator : String} {items : List Draft} (opening : '(' ∉ keyword.toList)
    (between : '(' ∉ separator.toList) (each : ∀ item ∈ items, Enclosing d item) :
    Enclosing d (clause keyword separator items) := by
  unfold clause
  split
  · exact .nil
  · exact .plain opening (.separated (.of_notMem between) each)

theorem orderTail_enclosing {separator : String} (plain : '(' ∉ separator.toList) (terms : List OrderTerm) :
    Enclosing d (p.orderTail c part separator terms) := by
  induction terms generalizing separator with
  | nil => exact .nil
  | cons term rest ih =>
    have next : Enclosing d (p.orderTail c part ", " rest) := ih (by decide)
    unfold orderTail
    split
    · exact Enclosing.append (.plain plain (term.draft_enclosing _)) next
    · split
      · exact Enclosing.append (.plain plain (term.draft_enclosing _)) next
      · exact Enclosing.append (.quiet (List.forall_mem_singleton.mpr rfl)) (ih plain)

end Clauses

section Sound

variable {d : Dialect} {p : Plan} (sound : p.EveryFilter fun f => f.Grouped ∧ f.raws = []) (c : Compiler)
include sound

theorem tests_enclosing : ∀ test ∈ p.tests c, Enclosing d test := by
  intro test found
  unfold tests at found
  obtain found | found := List.mem_append.mp found
  · obtain found | found := List.mem_append.mp found
    · split at found
      · obtain rfl := List.mem_singleton.mp found
        exact Enclosing.append (.qualified _ _) (.plain (by decide) .nil)
      · exact absurd found List.not_mem_nil
    · split at found
      case isTrue some =>
        obtain rfl := List.mem_singleton.mp found
        exact p.filter.conditions_enclosing _ (by decide +kernel) sound.filter.1 sound.filter.2 some
      case isFalse => exact absurd found List.not_mem_nil
  · split at found
    · split at found
      case isTrue active =>
        obtain rfl := List.mem_singleton.mp found
        exact p.searchDraft_enclosing c active
      case isFalse => exact absurd found List.not_mem_nil
    · exact absurd found List.not_mem_nil

theorem clauses_enclosing (part : Part) : Enclosing d (p.clauses c part) := by
  refine ((((Enclosing.append (.flatMap fun j _ => joinDraft_enclosing _ j) ?_).append ?_).append ?_).append
    (p.orderTail_enclosing c part (by decide) _)).append (.limit _ _ _ .nil)
  · exact clause_enclosing (by decide) (by decide) (tests_enclosing sound c)
  · refine clause_enclosing (by decide) (by decide) fun item found => ?_
    obtain ⟨column, -, rfl⟩ := List.mem_map.mp found
    exact .column _ _
  · split
    · exact .plain (by decide) (clausesDraft_enclosing _ _ sound.having.1 sound.having.2)
    · exact .nil

theorem selectItems_enclosing {part : Part} (known : part.relations ⊆ p.relations) (columns : Columns) :
    ∀ item ∈ p.selectItems c part columns, Enclosing d item := by
  intro item found
  rw [selectItems_eq] at found
  split at found
  · obtain rfl := List.mem_singleton.mp found
    exact .qualified _ _
  · obtain found | found | ⟨-, found | found⟩ := (p.mem_askedItems c part columns item).mp found
    · exact columns.items_enclosing _ _ item found
    · obtain ⟨r, listed, rfl⟩ := List.mem_map.mp found
      exact Subquery.relation_enclosing _ _ _ (sound.relations r (known listed))
    · obtain ⟨n, listed, rfl⟩ := List.mem_map.mp found
      exact Subquery.count_enclosing _ _ _ (sound.counts n listed)
    · obtain ⟨a, listed, rfl⟩ := List.mem_map.mp found
      exact Subquery.aggregate_enclosing _ _ _ (sound.aggregates a listed)

/-- A draft encloses what it is continued by if its clauses, or its open list of keys, do. -/
theorem draft_enclosing {part : Part} (known : part.relations ⊆ p.relations) {rest : Draft}
    (ending : Enclosing d
      ((if part.byKeys then p.openKeys else p.satelliteJoin c ++ p.clauses c part) ++ rest)) :
    Enclosing d (p.draft c part ++ rest) := by
  have looked : Enclosing d (if p.locale.isSome then [.consult p.entity.type (p.localization? c)] else []) :=
    .quiet (by split <;> simp [Step.sql])
  rw [draft, List.append_assoc]
  refine looked.append ?_
  cases p.partColumns c part with
  | error e => exact fun complete => absurd complete (by simp [andThen, Step.failure?])
  | ok columns =>
    have selected : Enclosing d (.text "SELECT " :: separated ", " (p.selectItems c part columns)) :=
      .plain (by decide) (.separated (.of_notMem (by decide)) (selectItems_enclosing sound c known columns))
    have table : Enclosing d [.text " FROM ", .name p.table] := .plain (by decide) (.name _ .nil)
    rw [andThen, List.append_assoc]
    exact (selected.append table).append ending

theorem whole_enclosing {part : Part} (whole : part.byKeys = false) (known : part.relations ⊆ p.relations) :
    Enclosing d (p.draft c part) := by
  have ending : Enclosing d (p.satelliteJoin c ++ p.clauses c part) :=
    (p.satelliteJoin_enclosing c).append (clauses_enclosing sound c part)
  rw [← List.append_nil (p.draft c part)]
  refine draft_enclosing sound c known ?_
  rw [whole, if_neg Bool.false_ne_true, List.append_nil]
  exact ending

/-- The list of keys of a later batch is closed by some keys. -/
theorem later_enclosing {batch : List RelationRequest} (known : batch ⊆ p.relations) {keys : List DbValue}
    (some : keys ≠ []) :
    Enclosing d (p.draft c (p.laterPart batch) ++ (bindList keys ++ [.text ")"])) := by
  have owner : Enclosing d (.text " WHERE " :: qualified p.table p.entity.primaryKey) :=
    .plain (by decide) (.qualified _ _)
  have listed : Enclosing d (.text " IN (" :: (bindList keys ++ [.text ")"])) :=
    .bindList (by decide +kernel) some
  have keyed : (p.laterPart batch).byKeys = true := rfl
  refine draft_enclosing sound c known ?_
  rw [if_pos keyed, openKeys, List.append_assoc]
  exact owner.append listed

end Sound

theorem draft_inks {d : Dialect} (p : Plan) (c : Compiler) (part : Part) : Inks d (p.draft c part) := by
  have selects : Inks d (andThen (p.partColumns c part) fun columns =>
      .text "SELECT " :: separated ", " (p.selectItems c part columns) ++ [.text " FROM ", .name p.table] ++
        if part.byKeys then p.openKeys else p.satelliteJoin c ++ p.clauses c part) :=
    .andThen fun columns _ => Inks.append (Inks.append (.word (by decide) _) _) _
  unfold draft
  split
  · exact .silent rfl selects
  · exact selects

section Statements

variable {p : Plan} (sound : p.EveryFilter fun f => f.Grouped ∧ f.raws = []) {c : Compiler} {s : Statement}
include sound

theorem filled_of_written {part : Part} (whole : part.byKeys = false) (known : part.relations ⊆ p.relations)
    (written : Statement.ofDraft c.dialect (p.draft c part) = .ok s) : Filled s.sql.toList :=
  (whole_enclosing sound c whole known).filled_of_ofDraft written

theorem filled_bind {batch : List RelationRequest} (known : batch ⊆ p.relations) {f : FollowUp}
    (written : p.followUp c batch = .ok f) {keys : List DbValue} (some : keys ≠ []) :
    Filled (f.bind c.dialect keys).sql.toList := by
  obtain ⟨complete, same⟩ := followUp_eq_ok_iff.mp written
  have template : (p.draft c (p.laterPart batch)).text c.dialect = f.template.sql.toList := by
    rw [same]
    rfl
  have listed := failure?_bindList keys
  refine (later_enclosing (d := c.dialect) sound c known some).filled_of_numbered ?_ ?_
  · simp [complete, listed, Step.failure?]
  · have closing : Draft.text c.dialect [.text ")"] = [')'] := by simp [Step.sql]
    rw [text_append, text_append, closing, template]
    exact f.numbered_bind c.dialect keys

/-- The rows that are counted are written into the parentheses of a derived table. -/
theorem filled_count (written : p.count c = .ok s) : Filled s.sql.toList := by
  obtain ⟨inner, done, rfl⟩ := map_eq_ok_iff.mp written
  obtain ⟨complete, -⟩ := (ofDraft_eq_ok_iff _ _ _).mp done
  have rows : Enclosing c.dialect (p.countDraft c) := by
    unfold countDraft
    exact whole_enclosing sound.counted c rfl (List.nil_subset _)
  have table : Enclosing c.dialect [.text ") AS ", .name "aggregate_table"] :=
    .plain (by decide) (.name _ .nil)
  have derived : Enclosing c.dialect
      (.text " FROM (" :: (p.countDraft c ++ [.text ") AS ", .name "aggregate_table"])) :=
    .opened (by decide +kernel) (Inks.append (draft_inks _ _ _) _) (rows.append table)
  have whole : Enclosing c.dialect (.text "SELECT COUNT(*) AS " :: .name "aggregate" :: .text " FROM (" ::
      (p.countDraft c ++ [.text ") AS ", .name "aggregate_table"])) :=
    .word (by decide +kernel) (.name _ derived)
  have valid : Identifier.fault? "aggregate" = none ∧ Identifier.fault? "aggregate_table" = none := by decide
  refine whole.filled_of_numbered ?_ ?_
  · simp [complete, valid, Step.failure?]
  · have opening := Numbered.refl ("SELECT COUNT(*) AS " ++ c.dialect.quote "aggregate" ++ " FROM (").toList
    have closing := Numbered.refl (") AS " ++ c.dialect.quote "aggregate_table").toList
    simpa [Step.sql] using opening.append ((Numbered.of_ofDraft done).append closing)

theorem filled_existence (written : p.existence c = .ok s) : Filled s.sql.toList := by
  unfold existence existsDraft baseOnlyDraft at written
  exact filled_of_written sound.probed rfl (List.nil_subset _) written

end Statements
end Plan
end EagerLoad
