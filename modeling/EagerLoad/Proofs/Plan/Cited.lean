import EagerLoad.Proofs.Plan.Split
import EagerLoad.Proofs.Plan.Values
import EagerLoad.Proofs.Relation.Cited

/-! # Where localized columns are read

In a locale a statement joins the satellite of a localized base entity. It selects the localized columns from
there, and its filter, its search and its order look for them there. Its groups and its joins do not: they
name the columns of the base table, whether localized or not. Nor do counts, aggregates and searches of
relations. -/
namespace EagerLoad

open Sql Sql.Draft

namespace Plan

variable (p : Plan) (c : Compiler) (part : Part) (columns : Columns)

def askedReferences : List Reference :=
  columns.references p.table p.satelliteAlias ++
    part.relations.map (fun r => .inner (Subquery.relation (p.context c) p.entity p.table r)) ++
    if part.scalars then
      p.counts.map (fun n => .inner (Subquery.count (p.context c) p.entity p.table n)) ++
        p.aggregates.map fun a => .inner (Subquery.aggregate (p.context c) p.entity p.table a)
    else []

def selectReferences : List Reference :=
  if (p.askedReferences c part columns).isEmpty then [.at p.table p.entity.primaryKey]
  else p.askedReferences c part columns

def satelliteReferences : List Reference :=
  match p.localization? c, p.locale with
  | some l, some _ => l.references p.table p.entity.primaryKey p.satelliteAlias
  | _, _ => []

/-- Both sides of a join, each in its own table. -/
def joinReferences (table : String) (j : Join) : List Reference :=
  [.through (.ofTable table) j.first, .through (.ofTable j.table) j.second]

def searchReferences (s : Search) : List Reference :=
  let (own, related) := groupSearch p.entity s.columns
  own.map (.through (p.qualifier c)) ++
    related.map fun (relation, columns) =>
      .inner (Subquery.search (p.context c) p.entity p.table relation columns s.pattern)

/-- The columns of every test that a base row passes. -/
def testReferences : List (List Reference) :=
  (if p.entity.softDeletes && !p.withTrashed then [[.at p.table "deleted_at"]] else []) ++
    (if p.filter.hasConditions then [p.filter.mentions.map (.through (p.qualifier c))] else []) ++
    (match p.search with
      | some s => if s.isActive then [p.searchReferences c s] else []
      | none => [])

/-- The columns of order terms. A term that names a subquery refers to its label. -/
def tailReferences : List OrderTerm → List Reference
  | [] => []
  | term :: rest =>
    if !p.isSubqueryLabel term.column then
      .through (p.qualifier c) term.column :: tailReferences rest
    else if p.emits part term.column then .through {} term.column :: tailReferences rest
    else tailReferences rest

def groupReferences : List Reference := p.groupBy.map (.through (.ofTable p.table))

def clauseReferences : List Reference :=
  p.joins.flatMap (joinReferences p.table) ++ (p.testReferences c).flatten ++ p.groupReferences ++
    p.having.mentions.map (.through {}) ++ p.tailReferences c part p.order

/-- All columns that the draft of a part refers to, in their order, with the subqueries in their places. -/
def references : List Reference :=
  p.selectReferences c part columns ++
    if part.byKeys then [.at p.table p.entity.primaryKey]
    else p.satelliteReferences c ++ p.clauseReferences c part

section Walk

theorem askedItems_cite : List.Forall₂ (fun r draft => Cites [r] draft)
    (p.askedReferences c part columns) (p.askedItems c part columns) := by
  have inner {α : Type} (items : List α) (written : α → Draft) :
      List.Forall₂ (fun r draft => Cites [r] draft) (items.map fun item => .inner (written item))
        (items.map written) := Cites.each fun item _ => .one (.inner (written item))
  unfold askedReferences askedItems
  refine List.rel_append (List.rel_append (columns.items_cite _ _) (inner _ _)) ?_
  split
  · exact List.rel_append (inner _ _) (inner _ _)
  · exact .nil

theorem selectItems_cites : Cites (p.selectReferences c part columns)
    (separated ", " (p.selectItems c part columns)) := by
  have asked := p.askedItems_cite c part columns
  rw [selectItems_eq, selectReferences]
  cases refs : p.askedReferences c part columns with
  | nil =>
    rw [refs, List.forall₂_nil_left_iff] at asked
    rw [asked]
    exact qualified_cites _ _
  | cons ref rest =>
    have some : p.askedItems c part columns ≠ [] := by
      intro none
      rw [refs, none] at asked
      exact nomatch asked
    rw [if_neg (by simp), if_neg (by simpa using some), ← refs]
    exact .listed _ (by decide) asked

theorem satelliteJoin_cites : Cites (p.satelliteReferences c) (p.satelliteJoin c) := by
  unfold satelliteReferences satelliteJoin
  cases p.localization? c with
  | none => exact .nil
  | some l =>
    cases p.locale with
    | none => exact .nil
    | some locale => exact l.join_cites _ _ _ _

theorem joinDraft_cites (table : String) (j : Join) :
    Cites (joinReferences table j) (joinDraft table j) := by
  have kind : Step.text j.kind.sql ≠ .text "." := by
    cases j.kind <;> simp [JoinKind.sql]
  have opening : Cites [] [.text " ", .text j.kind.sql, .text " ", .name j.table, .text " ON "] :=
    .step (by simp) (.step kind (.plain (by simp)))
  have between : Cites [] [.text " ", .text j.operator.sql, .text " "] :=
    .step (by simp) (.step j.operator.sql_apart (.plain (by simp)))
  have first := opening.append (Cites.one (.through (.ofTable table) j.first))
  exact (first.append between).append (Cites.one (.through (.ofTable j.table) j.second))

theorem searchDraft_cites (s : Search) : Cites (p.searchReferences c s) (p.searchDraft c s) := by
  unfold searchReferences searchDraft
  generalize groupSearch p.entity s.columns = grouped
  obtain ⟨own, related⟩ := grouped
  have columns : List.Forall₂ (fun r draft => Cites [r] draft)
      (own.map (.through (p.qualifier c))) (own.map (p.qualifier c).column) :=
    Cites.each fun x _ => .one (.through (p.qualifier c) x)
  have groups : List.Forall₂ (fun r draft => Cites [r] draft)
      (related.map fun (relation, columns) =>
        .inner (Subquery.search (p.context c) p.entity p.table relation columns s.pattern))
      (related.map fun (relation, columns) =>
        Subquery.search (p.context c) p.entity p.table relation columns s.pattern) :=
    Cites.each fun group _ => .one (.inner (Subquery.search _ _ _ group.1 group.2 _))
  have terms := Subquery.searchTerms_cite c.dialect s.pattern columns
  have all := Cites.listed " OR " (by decide) (List.rel_append terms groups)
  exact .step (by simp) (all.followed (by simp))

theorem tests_cite : List.Forall₂ Cites (p.testReferences c) (p.tests c) := by
  unfold testReferences tests
  refine List.rel_append (List.rel_append ?_ ?_) ?_
  · split
    · exact .cons ((qualified_cites _ _).followed (by simp)) .nil
    · exact .nil
  · split
    · refine .cons (.step (by simp) ?_) .nil
      exact (p.filter.conditions_cites (p.qualifier c)).followed (by simp)
    · exact .nil
  · cases p.search with
    | none => exact .nil
    | some s =>
      dsimp only
      split
      · exact .cons (p.searchDraft_cites c s) .nil
      · exact .nil

theorem clause_cites {keyword separator : String} (opening : keyword ≠ ".") {items : List Draft}
    {refs : List Reference} (cited : Cites refs (separated separator items)) :
    Cites refs (clause keyword separator items) := by
  unfold clause
  split
  · rename_i none
    rwa [List.isEmpty_iff.mp none] at cited
  · exact .step (fun same => opening (Step.text.inj same)) cited

theorem orderTail_cites (separator : String) (apart : separator ≠ ".") (terms : List OrderTerm) :
    Cites (p.tailReferences c part terms) (p.orderTail c part separator terms) := by
  have lead {separator : String} (apart : separator ≠ ".") :
      Step.text separator ≠ .text "." := fun same => apart (Step.text.inj same)
  induction terms generalizing separator with
  | nil => exact .nil
  | cons term rest ih =>
    have next := ih ", " (by decide)
    unfold tailReferences orderTail
    split
    · exact .step (lead apart) ((term.draft_cites _).append next)
    · split
      · exact .step (lead apart) ((term.draft_cites _).append next)
      · exact .step (by simp) (ih separator apart)

theorem clauses_cites : Cites (p.clauseReferences c part) (p.clauses c part) := by
  have joins : Cites (p.joins.flatMap (joinReferences p.table)) (p.joins.flatMap (joinDraft p.table)) :=
    Cites.flatMap fun j _ => joinDraft_cites p.table j
  have tests : Cites (p.testReferences c).flatten (clause " WHERE " " AND " (p.tests c)) :=
    clause_cites (by decide) (.separated _ (by decide) (p.tests_cite c))
  have groups : Cites p.groupReferences
      (clause " GROUP BY " ", " (p.groupBy.map (Draft.column (some p.table)))) :=
    clause_cites (by decide) (.listed _ (by decide)
      (Cites.each fun x _ => .one (.through (.ofTable p.table) x)))
  have having : Cites (p.having.mentions.map (.through {}))
      (if p.having.hasConditions then .text " HAVING " :: p.having.conditions {} else []) := by
    split
    · exact .step (by simp) (p.having.conditions_cites {})
    · rename_i none
      rw [Filter.mentions_eq_nil none]
      exact .nil
  have order := p.orderTail_cites c part " ORDER BY " (by decide) p.order
  have limit : ∀ step ∈ [Step.text (c.dialect.limitOffset (p.rowLimit c part) p.offset)],
      step ≠ .text "." := by
    simpa using c.dialect.limitOffset_apart _ _
  exact ((((joins.append tests).append groups).append having).append order).followed limit

theorem draft_cites (resolved : p.partColumns c part = .ok columns) :
    Cites (p.references c part columns) (p.draft c part) := by
  have consulted : ∀ step ∈ (if p.locale.isSome then
      [Step.consult p.entity.type (p.localization? c)] else []), step ≠ .text "." := by
    split <;> simp
  unfold references draft
  rw [resolved, andThen]
  refine (Cites.plain consulted).append (Cites.append ?_ ?_)
  · have selected : Cites _ (.text "SELECT " :: _) :=
      .step (by simp) (p.selectItems_cites c part columns)
    exact selected.followed (by simp)
  · split
    · have key : Cites _ (.text " WHERE " :: _) :=
        .step (by simp) (qualified_cites p.table p.entity.primaryKey)
      exact key.followed (by simp)
    · exact (p.satelliteJoin_cites c).append (p.clauses_cites c part)

end Walk

/-- The references of a part that no localization changes: those to the key, the mark and the forced columns of
the base table, those of joins, groups and tests on groups, and those to the labels of subqueries. -/
inductive Unlocalized (p : Plan) (part : Part) : Reference → Prop where
  | key : Unlocalized p part (.at p.table p.entity.primaryKey)
  | deleted : Unlocalized p part (.at p.table "deleted_at")
  | forced {x : String} (known : x ∈ part.forced) : Unlocalized p part (.at p.table x)
  | group {x : String} (known : x ∈ p.groupBy) : Unlocalized p part (.through (.ofTable p.table) x)
  | first {j : Join} (known : j ∈ p.joins) : Unlocalized p part (.through (.ofTable p.table) j.first)
  | second {j : Join} (known : j ∈ p.joins) : Unlocalized p part (.through (.ofTable j.table) j.second)
  | having {x : String} (known : x ∈ p.having.mentions) : Unlocalized p part (.through {} x)
  | label {term : OrderTerm} (known : term ∈ p.order)
      (names : p.isSubqueryLabel term.column = true) : Unlocalized p part (.through {} term.column)

/-- A reference that a localization does change reads the localized columns from the satellite. -/
def Reads (p : Plan) (part : Part) (l : Localization) (r : Reference) : Prop :=
  p.Unlocalized part r ∨ r.Localized l.fields [p.satelliteAlias]

section Localized

variable {p c part columns} {l : Localization}

theorem main_force {x : String} (forced : List String) (columns : Columns)
    (known : x ∈ (force columns forced).main) : x ∈ columns.main ∨ x ∈ forced := by
  induction forced generalizing columns with
  | nil => exact .inl known
  | cons column rest ih =>
    rw [force, List.foldl_cons, ← force] at known
    rcases ih _ known with main | later
    · split at main
      · exact .inl main
      · rcases List.mem_append.mp main with main | same
        · exact .inl main
        · exact .inr (List.mem_singleton.mp same ▸ List.mem_cons_self)
    · exact .inr (List.mem_cons_of_mem _ later)

/-- Of the localized columns a part selects only forced ones from the base table. -/
theorem main_of_partColumns (resolved : p.partColumns c part = .ok columns) :
    ∀ x ∈ columns.main, x ∈ p.entity.localizedFields → x ∈ part.forced := by
  intro x known field
  obtain ⟨own, selects, rfl⟩ := map_eq_ok_iff.mp resolved
  rcases main_force _ _ known with main | forced
  · split at selects
    · obtain rfl := Except.ok.inj selects
      exact absurd main List.not_mem_nil
    · exact absurd field (Columns.main_of_resolve selects x main)
  · exact forced

theorem through_localized (found : p.localization? c = some l) (column : String) :
    (Reference.through (p.qualifier c) column).Localized l.fields [p.satelliteAlias] := by
  intro x field same undotted
  obtain rfl := Option.some.inj same
  refine ⟨p.satelliteAlias, List.mem_singleton_self _, ?_⟩
  unfold qualifier
  rw [found]
  exact Qualifier.column_localized undotted field _ _

theorem inner_localized (draft : Draft) (fields aliases : List String) :
    (Reference.inner draft).Localized fields aliases := fun _ _ none => nomatch none

theorem forall_through (found : p.localization? c = some l) (columns : List String) :
    ∀ ref ∈ columns.map (.through (p.qualifier c)), p.Reads part l ref := by
  intro ref cited
  obtain ⟨column, -, rfl⟩ := List.mem_map.mp cited
  exact .inr (through_localized found column)

theorem forall_inner (items : List α) (written : α → Draft) :
    ∀ ref ∈ items.map (fun item => .inner (written item)), p.Reads part l ref := by
  intro ref cited
  obtain ⟨item, -, rfl⟩ := List.mem_map.mp cited
  exact .inr (inner_localized _ _ _)

theorem selectReferences_localized (declared : p.entity.localization? = some l)
    (resolved : p.partColumns c part = .ok columns) :
    ∀ ref ∈ p.selectReferences c part columns, p.Reads part l ref := by
  have own := main_of_partColumns resolved
  rw [← Entity.fields_of_localization? declared] at own
  have main : ∀ ref ∈ columns.main.map (.at p.table), p.Reads part l ref := by
    intro ref cited
    obtain ⟨column, known, rfl⟩ := List.mem_map.mp cited
    -- A localized column is selected from the base table only where the merge of batches forces it in.
    by_cases field : column ∈ l.fields
    · exact .inl (.forced (own column known field))
    · refine .inr fun x localized same => ?_
      exact absurd (Option.some.inj same ▸ localized) field
  have localized : ∀ ref ∈ columns.localized.map (.at p.satelliteAlias), p.Reads part l ref := by
    intro ref cited
    obtain ⟨column, -, rfl⟩ := List.mem_map.mp cited
    exact .inr fun _ _ _ => List.mem_singleton_self _
  unfold selectReferences
  split
  · exact List.forall_mem_singleton.mpr (.inl .key)
  · unfold askedReferences
    refine List.forall_mem_append.mpr ⟨List.forall_mem_append.mpr ⟨?_, forall_inner _ _⟩, ?_⟩
    · exact List.forall_mem_append.mpr ⟨main, localized⟩
    · split
      · exact List.forall_mem_append.mpr ⟨forall_inner _ _, forall_inner _ _⟩
      · exact List.forall_mem_nil _

theorem searchReferences_localized (found : p.localization? c = some l) (s : Search) :
    ∀ ref ∈ p.searchReferences c s, p.Reads part l ref :=
  List.forall_mem_append.mpr ⟨forall_through found _, forall_inner _ _⟩

theorem testReferences_localized (found : p.localization? c = some l) :
    ∀ ref ∈ (p.testReferences c).flatten, p.Reads part l ref := by
  have none : ∀ ref ∈ ([] : List (List Reference)).flatten, p.Reads part l ref :=
    List.forall_mem_nil _
  unfold testReferences
  rw [List.flatten_append, List.flatten_append]
  refine List.forall_mem_append.mpr ⟨List.forall_mem_append.mpr ⟨?_, ?_⟩, ?_⟩
  · split
    · exact List.forall_mem_singleton.mpr (.inl .deleted)
    · exact none
  · split
    · rw [List.flatten_singleton]
      exact forall_through found _
    · exact none
  · cases p.search with
    | none => exact none
    | some s =>
      dsimp only
      split
      · rw [List.flatten_singleton]
        exact searchReferences_localized found s
      · exact none

theorem tailReferences_localized (found : p.localization? c = some l) {terms : List OrderTerm}
    (known : terms ⊆ p.order) : ∀ ref ∈ p.tailReferences c part terms, p.Reads part l ref := by
  induction terms with
  | nil => exact List.forall_mem_nil _
  | cons term rest ih =>
    obtain ⟨here, later⟩ := List.cons_subset.mp known
    have next := ih later
    unfold tailReferences
    split
    · exact List.forall_mem_cons.mpr ⟨.inr (through_localized found term.column), next⟩
    · rename_i labelled
      split
      · refine List.forall_mem_cons.mpr ⟨.inl (.label here ?_), next⟩
        simpa using labelled
      · exact next

theorem clauseReferences_localized (found : p.localization? c = some l) :
    ∀ ref ∈ p.clauseReferences c part, p.Reads part l ref := by
  have joins : ∀ ref ∈ p.joins.flatMap (joinReferences p.table), p.Unlocalized part ref := by
    intro ref cited
    obtain ⟨j, known, side⟩ := List.mem_flatMap.mp cited
    rcases List.mem_pair.mp side with rfl | rfl
    · exact .first known
    · exact .second known
  have groups : ∀ ref ∈ p.groupReferences, p.Unlocalized part ref := by
    intro ref cited
    obtain ⟨x, known, rfl⟩ := List.mem_map.mp cited
    exact .group known
  have having : ∀ ref ∈ p.having.mentions.map (.through {}), p.Unlocalized part ref := by
    intro ref cited
    obtain ⟨x, known, rfl⟩ := List.mem_map.mp cited
    exact .having known
  unfold clauseReferences
  simp only [List.forall_mem_append]
  exact ⟨⟨⟨⟨fun ref cited => .inl (joins ref cited), testReferences_localized found⟩,
    fun ref cited => .inl (groups ref cited)⟩, fun ref cited => .inl (having ref cited)⟩,
    tailReferences_localized found (List.Subset.refl _)⟩

theorem references_localized (declared : p.entity.localization? = some l)
    (found : p.localization? c = some l) (resolved : p.partColumns c part = .ok columns) :
    ∀ ref ∈ p.references c part columns, p.Reads part l ref := by
  have satellite : ∀ ref ∈ p.satelliteReferences c, p.Reads part l ref := by
    have known := List.mem_singleton_self p.satelliteAlias
    unfold satelliteReferences
    split
    · refine List.forall_mem_cons.mpr ⟨.inl .key, List.forall_mem_cons.mpr ⟨?_, ?_⟩⟩
      · exact .inr fun _ _ _ => known
      · exact List.forall_mem_singleton.mpr (.inr fun _ _ _ => known)
    · exact List.forall_mem_nil _
  refine List.forall_mem_append.mpr ⟨selectReferences_localized declared resolved, ?_⟩
  split
  · exact List.forall_mem_singleton.mpr (.inl .key)
  · exact List.forall_mem_append.mpr ⟨satellite, clauseReferences_localized found⟩

end Localized

/-- Where the draft of a part reads localized columns in a locale. -/
structure Localized (p : Plan) (c : Compiler) (part : Part) (locale : String) (columns : Columns) :
    Prop where
  cites : Cites (p.references c part columns) (p.draft c part)
  base : ∀ l, p.entity.localization? = some l → p.localization? c = some l →
    (part.byKeys = false → l.join p.table p.entity.primaryKey p.satelliteAlias locale <:+:
      p.draft c part) ∧
    ∀ ref ∈ p.references c part columns, p.Reads part l ref
  groups : part.byKeys = false → ∀ x ∈ p.groupBy, Undotted x →
    .through (.ofTable p.table) x ∈ p.references c part columns ∧
      (Qualifier.ofTable p.table).column x = qualified p.table x
  relations : ∀ r ∈ part.relations,
    Subquery.RelationLocalized (p.context c) p.entity p.table locale r
  counts : part.scalars = true → ∀ n ∈ p.counts,
    Subquery.Unlocalized (p.context c) p.entity p.table n.relation
      (fun s => s.bodyReferences p.entity p.locale p.table n.filter)
      (Subquery.count (p.context c) p.entity p.table n)
  aggregates : part.scalars = true → ∀ a ∈ p.aggregates,
    Subquery.Unlocalized (p.context c) p.entity p.table a.relation
      (fun s => .at s.relatedAlias a.column :: s.bodyReferences p.entity p.locale p.table a.filter)
      (Subquery.aggregate (p.context c) p.entity p.table a)
  searches : part.byKeys = false → ∀ s, p.search = some s → s.isActive = true →
    ∀ group ∈ (groupSearch p.entity s.columns).2,
      Subquery.Unlocalized (p.context c) p.entity p.table group.1
        (fun source => source.bodyReferences p.entity p.locale p.table none ++
          group.2.map (.at source.relatedAlias))
        (Subquery.search (p.context c) p.entity p.table group.1 group.2 s.pattern)

section Statement

variable {p c part} {locale : String}

theorem join_within {l : Localization} (inLocale : p.locale = some locale)
    (found : p.localization? c = some l) (whole : part.byKeys = false)
    (resolved : p.partColumns c part = .ok columns) :
    l.join p.table p.entity.primaryKey p.satelliteAlias locale <:+: p.draft c part := by
  have joined : p.satelliteJoin c = l.join p.table p.entity.primaryKey p.satelliteAlias locale := by
    unfold satelliteJoin
    rw [found, inLocale]
  unfold draft
  rw [resolved, andThen, joined, whole, if_neg Bool.false_ne_true]
  exact ((List.prefix_append _ _).isInfix.trans (List.suffix_append _ _).isInfix).trans
    (List.suffix_append _ _).isInfix

theorem search_complete (complete : (p.clauses c part).failure? = none) {s : Search}
    (searched : p.search = some s) (active : s.isActive = true) :
    ∀ group ∈ (groupSearch p.entity s.columns).2,
      (Subquery.search (p.context c) p.entity p.table group.1 group.2 s.pattern).failure? = none := by
  simp only [clauses, failure?_append, failure?_clause] at complete
  have tested : p.searchDraft c s ∈ p.tests c := by
    unfold tests
    rw [searched]
    simp [active]
  have written := complete.1.1.1.1.2 _ tested
  unfold searchDraft at written
  intro group known
  simp only [failure?_append, failure?_cons, failure?_separated] at written
  exact written.1.2 _ (List.mem_append_right _ (List.mem_map.mpr ⟨group, known, rfl⟩))

/-- In a locale every statement of a plan reads the localized columns of its base entity and of its relations
from their satellites, which it joins, but not in its joins and groups. Its counts, aggregates and searches of
relations join no satellite and read all columns from the related table. -/
theorem draft_localized (inLocale : p.locale = some locale)
    (complete : (p.draft c part).failure? = none) :
    ∃ columns, p.partColumns c part = .ok columns ∧ p.Localized c part locale columns := by
  obtain ⟨columns, resolved, items, -, rest⟩ := (p.draft_complete_iff c part).mp complete
  have asked : ∀ item ∈ p.askedItems c part columns, item.failure? = none :=
    fun item known => items item (p.mem_selectItems_of_asked c part columns known)
  have scalars (some : part.scalars = true) : ∀ item ∈
      p.counts.map (Subquery.count (p.context c) p.entity p.table) ++
        p.aggregates.map (Subquery.aggregate (p.context c) p.entity p.table),
      item.failure? = none := by
    intro item known
    refine asked item ((p.mem_askedItems c part columns item).mpr (.inr (.inr ⟨some, ?_⟩)))
    exact List.mem_append.mp known
  refine ⟨columns, resolved,
    { cites := p.draft_cites c part columns resolved
      base := fun l declared found => ⟨fun whole => join_within columns inLocale found whole resolved,
        references_localized declared found resolved⟩
      groups := fun whole x known undotted => ⟨?_, Qualifier.column_ofTable undotted _⟩
      relations := fun r known => ?_
      counts := fun some n known => ?_
      aggregates := fun some a known => ?_
      searches := fun whole s searched active group known => ?_ }⟩
  · unfold references clauseReferences groupReferences
    rw [if_neg (by simp [whole])]
    simp [known]
  · have item : (Subquery.relation (p.context c) p.entity p.table r).failure? = none :=
      asked _ ((p.mem_askedItems c part columns _).mpr (.inr (.inl (List.mem_map_of_mem known))))
    exact Subquery.relation_localized inLocale item
  · exact Subquery.count_unlocalized
      (scalars some _ (List.mem_append_left _ (List.mem_map_of_mem known)))
  · exact Subquery.aggregate_unlocalized
      (scalars some _ (List.mem_append_right _ (List.mem_map_of_mem known)))
  · rw [if_neg (by simp [whole]), failure?_append] at rest
    exact Subquery.search_unlocalized (search_complete rest.2 searched active group known)

end Statement

/-- Whether every clause that mentions a localized column of the base entity reads it from the satellite. -/
def AlwaysLocalized : Prop :=
  ∀ (p : Plan) (c : Compiler) (part : Part) (columns : Columns) (l : Localization),
    p.locale.isSome = true → p.entity.localization? = some l → p.localization? c = some l →
    p.partColumns c part = .ok columns → (p.draft c part).failure? = none →
    ∀ (q : Qualifier) (x : String), .through q x ∈ p.references c part columns → x ∈ l.fields →
      Undotted x → q.column x = qualified p.satelliteAlias x

end Plan

namespace Translated

def article : Entity :=
  { type := "Article", table := "articles", columns := ["published"]
    relations := [("tags", .hasMany "Tag" "article_id" "id")]
    localized := some (.ofFields ["title"]) }

def tag : Entity :=
  { type := "Tag", table := "tags", columns := ["article_id"], localized := some (.ofFields ["label"]) }

def compiler : Compiler := ⟨.sqlite, [("Tag", tag)], [], {}⟩

def grouped : Plan :=
  { entity := article, columns := .columns ["title"], order := [⟨"title", .ascending⟩]
    groupBy := ["title"], locale := some "fr" }

def news : Filter := { clauses := [(.and, .compare "label" .equal (.text "news"))] }

/-- Asks for localized columns of the base entity and of a relation in all places that there are. -/
def tagged : Plan :=
  { grouped with
    relations := [{ name := "tags", kind := .collection, filter := some news }]
    counts := [{ relation := "tags", filter := some news }]
    aggregates := [{ relation := "tags", column := "label", function := .max }]
    search := some ⟨"a", ["title", "tags.label"]⟩ }

end Translated

open Translated

theorem draft_localized_articles :
    tagged.locale = some "fr" ∧ (tagged.draft compiler tagged.wholePart).failure? = none ∧
      ∃ columns, tagged.partColumns compiler tagged.wholePart = .ok columns ∧
        tagged.Localized compiler tagged.wholePart "fr" columns := by
  have complete : (tagged.draft compiler tagged.wholePart).failure? = none := by decide
  exact ⟨rfl, complete, Plan.draft_localized rfl complete⟩

/-- Articles are grouped by the title of their own table and ordered by the localized one. -/
theorem not_alwaysLocalized_articles :
    grouped.unsplit compiler = .ok
      ⟨"SELECT \"articles_trans\".\"title\" AS \"title\" FROM \"articles\" LEFT JOIN " ++
        "\"article_translations\" AS \"articles_trans\" ON \"articles\".\"id\" = " ++
        "\"articles_trans\".\"article_id\" AND \"articles_trans\".\"locale\" = ? " ++
        "GROUP BY \"articles\".\"title\" ORDER BY \"articles_trans\".\"title\" ASC",
        [.text "fr"]⟩ ∧
      ¬Plan.AlwaysLocalized := by
  refine ⟨by decide +kernel, fun always => ?_⟩
  have cited : Reference.through (.ofTable "articles") "title" ∈
      grouped.references compiler grouped.wholePart ⟨[], ["title"]⟩ := by
    refine List.mem_append_right _ (List.mem_append_right _ (List.mem_append_left _ ?_))
    exact List.mem_append_left _ (List.mem_append_right _ List.mem_cons_self)
  have satellite := always grouped compiler grouped.wholePart ⟨[], ["title"]⟩
    ⟨["title"], "article_translations", "article_id", "locale"⟩ rfl (by decide) (by decide)
    (by decide) (by decide) _ _ cited List.mem_cons_self (by decide)
  exact absurd satellite (by decide)

end EagerLoad
