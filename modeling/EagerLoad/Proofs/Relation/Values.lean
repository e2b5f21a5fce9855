import EagerLoad.Proofs.Filter.Values
import EagerLoad.Relation.Subquery

/-! # The values of subqueries

A subquery binds the locale if it reads a satellite table, the owner's class if the relation is
polymorphic, and the values of its filter. -/
namespace EagerLoad

open Sql Sql.Draft

/-- The locale of a joined satellite table. -/
def localeValues (localization : Option Localization) (locale : Option String) : List DbValue :=
  match localization, locale with
  | some _, some locale => [.text locale]
  | _, _ => []

namespace Source

/-- The owner's class that a polymorphic relation is searched for. -/
def classValues (s : Source) (base : Entity) : List DbValue :=
  match s.morphTest base with
  | some (_, _, ownerClass) => [.text ownerClass]
  | none => []

def values (s : Source) (locale : Option String) (base : Entity) (filter : Option Filter) :
    List DbValue :=
  localeValues s.localization locale ++ s.classValues base ++ (filter.map Filter.values).getD []

end Source

namespace Subquery

def values (ctx : Context) (base : Entity) (name : String) (localized : Bool)
    (filter : Option Filter) : List DbValue :=
  match Source.resolve ctx base name localized with
  | .ok s => s.values ctx.locale base filter
  | .error _ => []

def relationValues (ctx : Context) (base : Entity) (r : RelationRequest) : List DbValue :=
  values ctx base r.name true r.filter

def countValues (ctx : Context) (base : Entity) (c : CountRequest) : List DbValue :=
  values ctx base c.relation false c.filter

def aggregateValues (ctx : Context) (base : Entity) (a : AggregateRequest) : List DbValue :=
  values ctx base a.relation false a.filter

/-- The values of a search among related rows: a pattern for every column. -/
def searchValues (ctx : Context) (base : Entity) (relation : String) (columns : List String)
    (pattern : String) : List DbValue :=
  values ctx base relation false none ++ columns.map fun _ => .text pattern

end Subquery

theorem Localization.values_join (l : Localization)
    (ownerAlias ownerKey satelliteAlias locale : String) :
    (l.join ownerAlias ownerKey satelliteAlias locale).values = [.text locale] := by
  simp [join, Step.bindings]

namespace Source

variable (s : Source) (base : Entity)

theorem values_tables : s.tables.values = [] := by
  unfold tables
  split <;> simp [tableAs, Step.bindings]

theorem values_fromClause (locale : Option String) :
    (s.fromClause locale).values = localeValues s.localization locale := by
  unfold fromClause
  rw [values_append, values_tables, List.nil_append]
  cases s.localization with
  | none => rfl
  | some l =>
    cases locale with
    | none => rfl
    | some locale => exact l.values_join _ _ _ _

theorem values_scope (baseAlias : String) :
    (s.scope base (.correlated baseAlias)).values = s.classValues base := by
  rw [scope, link, owner, classValues]
  cases s.morphTest base with
  | none => cases h : s.related.softDeletes <;> simp [Step.bindings]
  | some test => cases h : s.related.softDeletes <;> simp [Step.bindings]

/-- The rows of a source bind its values in their order. -/
theorem values_body (locale : Option String) (filter : Option Filter) (baseAlias : String) :
    (s.body locale base filter (.correlated baseAlias)).values = s.values locale base filter := by
  unfold body
  simp only [values_append, values_cons, values_fromClause, values_scope, values, Step.bindings,
    List.nil_append, List.append_assoc]
  congr 2
  cases filter with
  | none => rfl
  | some f =>
    by_cases h : f.clauses = []
    · simp [Filter.hasConditions, Filter.values, h, clausesValues]
    · simp [Filter.hasConditions, h, Step.bindings]

theorem values_orderClause (terms : List OrderTerm) : (s.orderClause terms).values = [] := by
  unfold orderClause
  split <;> simp [Step.bindings]

end Source

namespace Columns

theorem values_pair (source column : String) : (pair source column).values = [] := rfl

theorem values_object (c : Columns) (d : Dialect) (mainAlias satelliteAlias : String) :
    (c.object d mainAlias satelliteAlias).values = [] := by
  simp [object, values_separated, Step.bindings, List.flatMap_eq_nil_iff, values_pair]

theorem values_flatObject (c : Columns) (d : Dialect) (source : String) :
    (c.flatObject d source).values = [] := by
  simp [flatObject, values_separated, Step.bindings, List.flatMap_eq_nil_iff, values_pair]

theorem values_items (c : Columns) (mainAlias satelliteAlias : String) :
    (c.items mainAlias satelliteAlias).flatMap Sql.Draft.values = [] := by
  simp [items, List.flatMap_eq_nil_iff, Step.bindings]

theorem values_selectList (c : Columns) (mainAlias satelliteAlias : String) :
    (c.selectList mainAlias satelliteAlias).values = [] := by
  rw [selectList, values_separated, values_items]

end Columns

namespace Subquery

theorem values_arrayOf (d : Dialect) (row order : Draft) (h : order.values = []) :
    (arrayOf d row order).values = row.values := by
  unfold arrayOf
  split <;> simp [Step.bindings, h]

section Rows

variable (ctx : Context) (base : Entity) (s : Source) (columns : Columns) (filter : Option Filter)
  (baseAlias : String)

theorem values_single :
    (single ctx base s columns filter (.correlated baseAlias)).values =
      s.values ctx.locale base filter := by
  simp [single, Step.bindings, Columns.values_object, Source.values_body, Source.values_orderClause]

theorem values_plainCollection :
    (plainCollection ctx base s columns filter (.correlated baseAlias)).values =
      s.values ctx.locale base filter := by
  simp [plainCollection, Step.bindings, values_arrayOf, Columns.values_object, Source.values_body]

theorem values_derivedCollection :
    (derivedCollection ctx base s columns filter (.correlated baseAlias)).values =
      s.values ctx.locale base filter := by
  unfold derivedCollection
  cases projectedOrder (orderOf filter) columns <;> cases limitOf filter <;>
    simp [Step.bindings, values_arrayOf, values_arrayOf _ _ [] rfl, Columns.values_flatObject,
      Columns.values_selectList, Source.values_body, Source.values_orderClause]

theorem values_collection :
    (collection ctx base s columns filter (.correlated baseAlias)).values =
      s.values ctx.locale base filter := by
  unfold collection
  split
  · exact values_plainCollection ctx base s columns filter baseAlias
  · exact values_derivedCollection ctx base s columns filter baseAlias

end Rows

variable (ctx : Context) (base : Entity) (baseAlias : String)

private theorem values_andThen {name : String} {localized : Bool} {next : Source → Draft}
    (filter : Option Filter)
    (complete : (Source.andThen ctx base name localized next).failure? = none)
    (each : ∀ s, (next s).failure? = none → (next s).values = s.values ctx.locale base filter) :
    (Source.andThen ctx base name localized next).values =
      values ctx base name localized filter := by
  rw [Source.andThen, failure?_andThen] at complete
  obtain ⟨s, found, complete⟩ := complete
  rw [failure?_append] at complete
  rw [values, Source.andThen, found, andThen, values_append, each s complete.2]
  split <;> rfl

/-- The subquery of a relation binds the values of its rows. -/
theorem values_relation (r : RelationRequest)
    (complete : (relation ctx base baseAlias r).failure? = none) :
    (relation ctx base baseAlias r).values = relationValues ctx base r := by
  unfold relation at complete ⊢
  obtain ⟨segments, valid, complete⟩ := failure?_andThen.mp complete
  rw [valid, andThen]
  refine values_andThen ctx base r.filter complete fun s complete => ?_
  unfold RelationRequest.withProjection at complete ⊢
  obtain ⟨-, complete⟩ := (failure?_append _ _).mp complete
  obtain ⟨columns, projected, complete⟩ := failure?_andThen.mp complete
  obtain ⟨shape, shaped, -⟩ := failure?_andThen.mp complete
  have silent : Sql.Draft.values (r.projectionNotices.map .notice) = [] := by
    simp [Sql.Draft.values, Step.bindings]
  rw [projected, andThen, shaped, andThen, values_append, silent]
  cases shape with
  | one => simp [Step.bindings, values_single]
  | many => simp [Step.bindings, values_collection]

theorem values_count (c : CountRequest)
    (complete : (count ctx base baseAlias c).failure? = none) :
    (count ctx base baseAlias c).values = countValues ctx base c := by
  refine values_andThen ctx base c.filter complete fun s _ => ?_
  simp [Step.bindings, Source.values_body]

theorem values_aggregate (a : AggregateRequest)
    (complete : (aggregate ctx base baseAlias a).failure? = none) :
    (aggregate ctx base baseAlias a).values = aggregateValues ctx base a := by
  unfold aggregate at complete ⊢
  split at complete
  · simp [Step.failure?] at complete
  · rename_i named
    rw [if_neg named]
    refine values_andThen ctx base a.filter complete fun s _ => ?_
    simp [Step.bindings, Source.values_body, aggregateCall]

theorem values_searchTerms (d : Dialect) (pattern : String) (columns : List Draft)
    (h : ∀ column ∈ columns, column.values = []) :
    (searchTerms d pattern columns).flatMap Sql.Draft.values =
      columns.map fun _ => .text pattern := by
  induction columns with
  | nil => rfl
  | cons column rest ih =>
    have here := h column (by simp)
    have there := ih fun other found => h other (by simp [found])
    simp only [searchTerms] at there
    simp [searchTerms, here, there, Step.bindings]

/-- A search binds the values of the related rows and a pattern for every column. -/
theorem values_search (name : String) (columns : List String) (pattern : String)
    (complete : (search ctx base baseAlias name columns pattern).failure? = none) :
    (search ctx base baseAlias name columns pattern).values =
      searchValues ctx base name columns pattern := by
  unfold search at complete ⊢
  rw [Source.andThen, failure?_andThen] at complete
  obtain ⟨s, found, -⟩ := complete
  have terms : (searchTerms ctx.dialect pattern (columns.map (qualified s.relatedAlias))).flatMap
      Sql.Draft.values = columns.map fun _ => .text pattern := by
    rw [values_searchTerms _ _ _ (by simp), List.map_map]
    rfl
  rw [searchValues, values, Source.andThen, found, andThen, values_append]
  simp [Step.bindings, Source.values_body, values_separated, terms]

end Subquery
end EagerLoad
