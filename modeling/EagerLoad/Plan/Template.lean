import EagerLoad.Config
import EagerLoad.Plan.Basic

/-! # The statement of a part of a plan

A part is what one statement carries of a plan: some of the relations, the counts and aggregates or
not, and either all clauses of the plan or an open list of keys. -/
namespace EagerLoad

structure Compiler where
  dialect : Dialect
  registry : Registry
  memo : Memo
  config : Config

/-- What one statement carries of a plan. -/
structure Part where
  relations : List RelationRequest
  scalars : Bool
  forced : List String
  /-- Whether the rows are those of keys to be bound, instead of those of the plan. -/
  byKeys : Bool
  bounded : Bool

namespace Plan

/-- In a locale the base entity's localization is looked up before all others. -/
def context (p : Plan) (c : Compiler) : Context :=
  { dialect := c.dialect
    registry := c.registry
    memo := if p.locale.isSome then c.memo.consult p.entity else c.memo
    locale := p.locale }

def table (p : Plan) : String := p.entity.table

def satelliteAlias (p : Plan) : String := p.table ++ "_trans"

/-- The localization of the base entity, wanted only in a locale. -/
def localization? (p : Plan) (c : Compiler) : Option Localization :=
  if p.locale.isSome then c.memo.localization? p.entity else none

def force (columns : Columns) (forced : List String) : Columns :=
  forced.foldl (fun columns column =>
    if columns.names.contains column then columns
    else { columns with main := columns.main ++ [column] }) columns

def partColumns (p : Plan) (c : Compiler) (part : Part) : Except CompileError Columns :=
  let own := if part.byKeys then .ok {} else Columns.resolve p.entity p.columns (p.localization? c)
  own.map fun columns => force columns part.forced

/-- Undotted columns belong to the base table, localized ones to its satellite. -/
def qualifier (p : Plan) (c : Compiler) : Qualifier :=
  let fields := ((p.localization? c).map (·.fields)).getD []
  (Qualifier.ofTable p.table).localize p.satelliteAlias fields

/-- The items of the select list. A part that selects nothing selects the primary key. -/
def selectItems (p : Plan) (c : Compiler) (part : Part) (columns : Columns) : List Sql.Draft :=
  let ctx := p.context c
  let items := columns.items p.table p.satelliteAlias ++
    part.relations.map (Subquery.relation ctx p.entity p.table) ++
    (if part.scalars then
      p.counts.map (Subquery.count ctx p.entity p.table) ++
        p.aggregates.map (Subquery.aggregate ctx p.entity p.table)
    else [])
  if items.isEmpty then [Sql.Draft.qualified p.table p.entity.primaryKey] else items

def satelliteJoin (p : Plan) (c : Compiler) : Sql.Draft :=
  match p.localization? c, p.locale with
  | some l, some locale => l.join p.table p.entity.primaryKey p.satelliteAlias locale
  | _, _ => []

def joinDraft (table : String) (j : Join) : Sql.Draft :=
  [.text " ", .text j.kind.sql, .text " ", .name j.table, .text " ON "] ++
    Sql.Draft.column (some table) j.first ++ [.text " ", .text j.operator.sql, .text " "] ++
    Sql.Draft.column (some j.table) j.second

/-- The columns of a search that belong to a declared relation, by relation in order of first
mention, and the others. -/
def groupSearch (e : Entity) (columns : List String) :
    List String × List (String × List String) :=
  columns.foldl (fun (own, related) column =>
    match Text.splitFirst? '.' column.toList with
    | some (relation, field) =>
      let relation := String.ofList relation
      if (e.relation? relation).isSome then
        (own, upsert relation ((related.lookup relation).getD [] ++ [String.ofList field]) related)
      else (own ++ [column], related)
    | none => (own ++ [column], related)) ([], [])

/-- A search: some base column or some related row matches the pattern. -/
def searchDraft (p : Plan) (c : Compiler) (s : Search) : Sql.Draft :=
  let (own, related) := groupSearch p.entity s.columns
  let ctx := p.context c
  let terms := Subquery.searchTerms c.dialect s.pattern (own.map (p.qualifier c).column) ++
    related.map fun (relation, columns) =>
      Subquery.search ctx p.entity p.table relation columns s.pattern
  .text "(" :: Sql.Draft.separated " OR " terms ++ [.text ")"]

/-- The tests that a base row passes: it is not deleted, it meets the filter, it is found by the
search. -/
def tests (p : Plan) (c : Compiler) : List Sql.Draft :=
  (if p.entity.softDeletes && !p.withTrashed then
    [Sql.Draft.qualified p.table "deleted_at" ++ [.text " IS NULL"]]
  else []) ++
  (if p.filter.hasConditions then
    [.text "(" :: p.filter.conditions (p.qualifier c) ++ [.text ")"]]
  else []) ++
  (match p.search with
    | some s => if s.isActive then [p.searchDraft c s] else []
    | none => [])

/-- A keyword and a list, nothing at all if the list is empty. -/
def clause (keyword separator : String) (items : List Sql.Draft) : Sql.Draft :=
  if items.isEmpty then [] else .text keyword :: Sql.Draft.separated separator items

def emits (p : Plan) (part : Part) (name : String) : Bool :=
  part.relations.any (fun r => r.label == name) ||
    (part.scalars &&
      (p.counts.any (fun c => c.label == name) || p.aggregates.any (fun a => a.label == name)))

/-- The order terms from one on. A term that names a subquery which is not selected is left out. -/
def orderTail (p : Plan) (c : Compiler) (part : Part) : String → List OrderTerm → Sql.Draft
  | _, [] => []
  | separator, term :: rest =>
    if !p.isSubqueryLabel term.column then
      .text separator :: term.draft (p.qualifier c) ++ orderTail p c part ", " rest
    else if p.emits part term.column then
      .text separator :: term.draft {} ++ orderTail p c part ", " rest
    else .notice .orderIgnored :: orderTail p c part separator rest

/-- The lesser of the plan's limit and the greatest limit of the configuration. -/
def rowLimit (p : Plan) (c : Compiler) (part : Part) : Option Nat :=
  match p.limit, (if part.bounded then c.config.maxLimit else none) with
  | some limit, some most => some (min limit most)
  | none, some most => some most
  | limit, none => limit

/-- All after the tables of the base: joins, tests, groups, order and limit. -/
def clauses (p : Plan) (c : Compiler) (part : Part) : Sql.Draft :=
  p.joins.flatMap (joinDraft p.table) ++
    clause " WHERE " " AND " (p.tests c) ++
    clause " GROUP BY " ", " (p.groupBy.map (Sql.Draft.column (some p.table))) ++
    (if p.having.hasConditions then .text " HAVING " :: p.having.conditions {} else []) ++
    p.orderTail c part " ORDER BY " p.order ++
    [.text (c.dialect.limitOffset (p.rowLimit c part) p.offset)]

def openKeys (p : Plan) : Sql.Draft :=
  .text " WHERE " :: Sql.Draft.qualified p.table p.entity.primaryKey ++ [.text " IN ("]

/-- The draft of a part: its select list, the base table, and either an open list of keys or the
plan's clauses. -/
def draft (p : Plan) (c : Compiler) (part : Part) : Sql.Draft :=
  (if p.locale.isSome then [.consult p.entity.type (p.localization? c)] else []) ++
    Sql.Draft.andThen (p.partColumns c part) fun columns =>
      .text "SELECT " :: Sql.Draft.separated ", " (p.selectItems c part columns) ++
        [.text " FROM ", .name p.table] ++
        if part.byKeys then p.openKeys else p.satelliteJoin c ++ p.clauses c part

end Plan
end EagerLoad
