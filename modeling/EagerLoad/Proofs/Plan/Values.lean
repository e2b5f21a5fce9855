import EagerLoad.Proofs.Plan.Parts
import EagerLoad.Proofs.Relation.Values

/-! # The values of statements

A statement binds the values of its subqueries in the order of the select list, then the locale of a
joined satellite table, the values of the filter, the patterns of the search and the values of the
tests on groups. -/
namespace EagerLoad

open Sql Sql.Draft

namespace Plan

/-- The values of a search: a pattern for every base column, then those of every relation. -/
def searchValues (p : Plan) (c : Compiler) (s : Search) : List DbValue :=
  let grouped := groupSearch p.entity s.columns
  grouped.1.map (fun _ => .text s.pattern) ++
    grouped.2.flatMap fun related =>
      Subquery.searchValues (p.context c) p.entity related.1 related.2 s.pattern

def subqueryValues (p : Plan) (c : Compiler) (part : Part) : List DbValue :=
  part.relations.flatMap (Subquery.relationValues (p.context c) p.entity) ++
    if part.scalars then
      p.counts.flatMap (Subquery.countValues (p.context c) p.entity) ++
        p.aggregates.flatMap (Subquery.aggregateValues (p.context c) p.entity)
    else []

def clauseValues (p : Plan) (c : Compiler) : List DbValue :=
  p.filter.values ++
    (match p.search with
      | some s => if s.isActive then p.searchValues c s else []
      | none => []) ++
    p.having.values

/-- The values that the statement of a part binds, without the keys that are left open. -/
def values (p : Plan) (c : Compiler) (part : Part) : List DbValue :=
  p.subqueryValues c part ++
    if part.byKeys then []
    else localeValues (p.localization? c) p.locale ++ p.clauseValues c

theorem values_items (p : Plan) (c : Compiler) (part : Part) (columns : Columns)
    (complete : ∀ item ∈ p.selectItems c part columns, item.failure? = none) :
    (separated ", " (p.selectItems c part columns)).values = p.subqueryValues c part := by
  have asked {item : Draft} (h : item ∈ p.askedItems c part columns) : item.failure? = none :=
    complete item (p.mem_selectItems_of_asked c part columns h)
  have relations := values_map (Subquery.relation (p.context c) p.entity p.table)
    (Subquery.relationValues (p.context c) p.entity) part.relations fun r found =>
      Subquery.values_relation _ _ _ r (asked ((p.mem_askedItems c part columns _).mpr
        (.inr (.inl (List.mem_map_of_mem found)))))
  have chosen : (p.selectItems c part columns).flatMap Sql.Draft.values =
      (p.askedItems c part columns).flatMap Sql.Draft.values := by
    rw [selectItems_eq]
    cases p.askedItems c part columns with
    | nil => simp
    | cons first rest => rfl
  rw [values_separated, chosen, askedItems, List.flatMap_append, List.flatMap_append,
    Columns.values_items, relations, List.nil_append, subqueryValues]
  congr 1
  split
  · rename_i scalars
    have counts := values_map (Subquery.count (p.context c) p.entity p.table)
      (Subquery.countValues (p.context c) p.entity) p.counts fun count found =>
        Subquery.values_count _ _ _ count (asked ((p.mem_askedItems c part columns _).mpr
          (.inr (.inr ⟨scalars, .inl (List.mem_map_of_mem found)⟩))))
    have aggregates := values_map (Subquery.aggregate (p.context c) p.entity p.table)
      (Subquery.aggregateValues (p.context c) p.entity) p.aggregates fun aggregate found =>
        Subquery.values_aggregate _ _ _ aggregate (asked ((p.mem_askedItems c part columns _).mpr
          (.inr (.inr ⟨scalars, .inr (List.mem_map_of_mem found)⟩))))
    rw [List.flatMap_append, counts, aggregates]
  · rfl

theorem values_satelliteJoin (p : Plan) (c : Compiler) :
    (p.satelliteJoin c).values = localeValues (p.localization? c) p.locale := by
  unfold satelliteJoin
  cases p.localization? c with
  | none => rfl
  | some l =>
    cases p.locale with
    | none => rfl
    | some locale => exact l.values_join _ _ _ _

theorem values_searchDraft (p : Plan) (c : Compiler) (s : Search)
    (complete : (p.searchDraft c s).failure? = none) :
    (p.searchDraft c s).values = p.searchValues c s := by
  unfold searchDraft at complete ⊢
  unfold searchValues
  generalize groupSearch p.entity s.columns = grouped at complete ⊢
  obtain ⟨own, related⟩ := grouped
  dsimp only at complete ⊢
  rw [failure?_append, failure?_cons, failure?_separated] at complete
  obtain ⟨⟨-, complete⟩, -⟩ := complete
  have columns : (Subquery.searchTerms c.dialect s.pattern
      (own.map (p.qualifier c).column)).flatMap Sql.Draft.values =
        own.map fun _ => .text s.pattern := by
    rw [Subquery.values_searchTerms _ _ _ (by simp), List.map_map]
    rfl
  have relations := values_map
    (fun group : String × List String =>
      Subquery.search (p.context c) p.entity p.table group.1 group.2 s.pattern)
    (fun group => Subquery.searchValues (p.context c) p.entity group.1 group.2 s.pattern) related
    fun group found => Subquery.values_search _ _ _ _ _ _
      (complete _ (List.mem_append_right _ (List.mem_map_of_mem found)))
  rw [values_append, values_cons, values_separated, List.flatMap_append, columns, relations]
  simp [Step.bindings]

theorem values_tests (p : Plan) (c : Compiler)
    (complete : ∀ test ∈ p.tests c, test.failure? = none) :
    (p.tests c).flatMap Sql.Draft.values = p.filter.values ++
      (match p.search with
        | some s => if s.isActive then p.searchValues c s else []
        | none => []) := by
  unfold tests at complete ⊢
  have filtered : (if p.filter.hasConditions then
      [Step.text "(" :: p.filter.conditions (p.qualifier c) ++ [.text ")"]]
      else ([] : List Draft)).flatMap Sql.Draft.values = p.filter.values := by
    by_cases h : p.filter.clauses = []
    · simp [Filter.hasConditions, Filter.values, h, clausesValues]
    · simp [Filter.hasConditions, h, Step.bindings]
  have present : (if p.entity.softDeletes && !p.withTrashed then
      [qualified p.table "deleted_at" ++ [.text " IS NULL"]]
      else ([] : List Draft)).flatMap Sql.Draft.values = [] := by
    split <;> simp [Step.bindings]
  rw [List.flatMap_append, List.flatMap_append, filtered, present, List.nil_append]
  congr 1
  cases search : p.search with
  | none => rfl
  | some s =>
    dsimp only
    split
    · rename_i active
      rw [List.flatMap_singleton]
      exact p.values_searchDraft c s (complete _ (by simp [search, active]))
    · rfl

theorem failure?_clause (keyword separator : String) (items : List Draft) :
    (clause keyword separator items).failure? = none ↔ ∀ item ∈ items, item.failure? = none := by
  unfold clause
  split
  · simp_all
  · simp [failure?_separated, Step.failure?]

theorem values_clause (keyword separator : String) (items : List Draft) :
    (clause keyword separator items).values = items.flatMap Sql.Draft.values := by
  unfold clause
  split
  · simp_all
  · simp [values_separated, Step.bindings]

theorem values_orderTail (p : Plan) (c : Compiler) (part : Part) (separator : String)
    (terms : List OrderTerm) : (p.orderTail c part separator terms).values = [] := by
  induction terms generalizing separator with
  | nil => rfl
  | cons term rest ih =>
    unfold orderTail
    split
    · simp [Step.bindings, OrderTerm.values_draft, ih]
    · split <;> simp [Step.bindings, OrderTerm.values_draft, ih]

theorem values_clauses (p : Plan) (c : Compiler) (part : Part)
    (complete : (p.clauses c part).failure? = none) :
    (p.clauses c part).values = p.clauseValues c := by
  unfold clauses at complete ⊢
  simp only [failure?_append] at complete
  have tests := p.values_tests c ((failure?_clause _ _ _).mp complete.1.1.1.1.2)
  have joins : Sql.Draft.values (p.joins.flatMap (joinDraft p.table)) = [] := by
    simp [values_flatMap, List.flatMap_eq_nil_iff, joinDraft, Step.bindings]
  have groups : (clause " GROUP BY " ", " (p.groupBy.map (Sql.Draft.column (some p.table)))).values =
      [] := by
    simp [values_clause, List.flatMap_eq_nil_iff]
  have having : Sql.Draft.values (if p.having.hasConditions then
      .text " HAVING " :: p.having.conditions {} else []) = p.having.values := by
    by_cases h : p.having.clauses = []
    · simp [Filter.hasConditions, Filter.values, h, clausesValues]
    · simp [Filter.hasConditions, h, Step.bindings]
  simp only [values_append, joins, values_clause " WHERE ", tests, groups, having, values_orderTail,
    values_cons, values_nil, Step.bindings, List.nil_append, List.append_nil]
  rfl

theorem values_draft (p : Plan) (c : Compiler) (part : Part)
    (complete : (p.draft c part).failure? = none) :
    (p.draft c part).values = p.values c part := by
  obtain ⟨columns, selected, chosen, -, rest⟩ := (p.draft_complete_iff c part).mp complete
  have consulted : Sql.Draft.values (if p.locale.isSome then
      [.consult p.entity.type (p.localization? c)] else []) = [] := by
    split <;> rfl
  have items := p.values_items c part columns chosen
  unfold draft
  rw [values_append, consulted, selected, andThen, values, ← items]
  cases keyed : part.byKeys with
  | true => simp [Step.bindings, openKeys]
  | false =>
    have completed : (p.satelliteJoin c).failure? = none ∧ (p.clauses c part).failure? = none := by
      simpa [keyed] using rest
    have clauses := p.values_clauses c part completed.2
    simp [Step.bindings, values_satelliteJoin, clauses]

end Plan
end EagerLoad
