import EagerLoad.Entity.Selection
import EagerLoad.Relation.Source

/-! # Subqueries of relations

Every requested relation, count and aggregate becomes a subquery in the select list. A relation to
many rows is aggregated into a JSON array, one to a single row is a JSON object. -/
namespace EagerLoad

/-- Whether a relation's column holds an object or an array. -/
inductive Shape where
  | one
  | many
deriving DecidableEq, Repr

def Shape.ofMany (many : Bool) : Shape := if many then .many else .one

namespace RelationRequest

/-- The shape goes by the kind asked for, and for a nested path by the declared relation. -/
def shape (r : RelationRequest) (base : Entity) : Except CompileError Shape :=
  match r.kind with
  | .nested => match base.relation? r.name with
    | some relation => .ok (Shape.ofMany relation.isMany)
    | none => .error (.unknownRelation base.type r.name)
  | kind => .ok (Shape.ofMany kind.isMany)

/-- A nested path selects the column of its second segment. -/
def selection (r : RelationRequest) : Except CompileError ColumnSelection :=
  if r.isNested then
    match r.segments with
    | .ok segments => .ok (.columns (segments.take 1))
    | .error e => .error e
  else .ok r.columns

def projection (r : RelationRequest) (s : Source) : Except CompileError Columns :=
  match r.selection with
  | .ok selection => Columns.resolve s.related selection s.localization
  | .error e => .error e

/-- Segments after the second have no effect. -/
def projectionNotices (r : RelationRequest) : List Notice :=
  match r.segments with
  | .ok segments => if 1 < segments.length then [.nestedTooDeep] else []
  | .error _ => []

def withProjection (r : RelationRequest) (s : Source) (next : Columns → Sql.Draft) : Sql.Draft :=
  r.projectionNotices.map .notice ++ Sql.Draft.andThen (r.projection s) next

end RelationRequest

namespace Subquery

/-- The aggregate of rows as JSON text, in an order where the dialect takes one. -/
def arrayOf (d : Dialect) (row order : Sql.Draft) : Sql.Draft :=
  [.text d.arrayAggregate.1] ++ row ++
    (if d.ordersAggregate && !order.isEmpty then .text " ORDER BY " :: order else []) ++
    [.text d.arrayAggregate.2, .text d.textCast]

/-- The order of the inner rows in terms of the columns that they are selected as; none unless every
term's column is selected. -/
def projectedOrder (order : List OrderTerm) (columns : Columns) : Option (List OrderTerm) :=
  if order.isEmpty then none
  else order.mapM fun term =>
    let column := String.ofList (((Text.splitAll '.' term.column.toList).getLast?).getD [])
    if columns.names.contains column then some ⟨column, term.direction⟩ else none

def orderOf (filter : Option Filter) : List OrderTerm := (filter.map (·.order)).getD []

def limitOf (filter : Option Filter) : Option Nat := filter.bind (·.limit)

def single (ctx : Context) (base : Entity) (s : Source) (columns : Columns) (filter : Option Filter)
    (link : Link) : Sql.Draft :=
  .text "SELECT " :: columns.object ctx.dialect s.relatedAlias s.satelliteAlias ++
    .text ctx.dialect.textCast :: s.body ctx.locale base filter link ++
    s.orderClause (orderOf filter) ++ [.text " LIMIT 1"]

/-- An array aggregated from the related rows themselves. -/
def plainCollection (ctx : Context) (base : Entity) (s : Source) (columns : Columns)
    (filter : Option Filter) (link : Link) : Sql.Draft :=
  .text "SELECT " ::
    arrayOf ctx.dialect (columns.object ctx.dialect s.relatedAlias s.satelliteAlias)
      (orderDraft s.qualifier (orderOf filter)) ++
    s.body ctx.locale base filter link

/-- An array aggregated from a derived table, to which order and limit apply. The order is stated
again where the aggregate takes one. -/
def derivedCollection (ctx : Context) (base : Entity) (s : Source) (columns : Columns)
    (filter : Option Filter) (link : Link) : Sql.Draft :=
  let outerOrder := match projectedOrder (orderOf filter) columns with
    | some terms => orderDraft (Qualifier.ofTable s.rowsAlias) terms
    | none => []
  .text "SELECT " ::
    arrayOf ctx.dialect (columns.flatObject ctx.dialect s.rowsAlias) outerOrder ++
    .text " FROM (SELECT " :: columns.selectList s.relatedAlias s.satelliteAlias ++
    s.body ctx.locale base filter link ++ s.orderClause (orderOf filter) ++
    (match limitOf filter with
      | some n => [.text (" LIMIT " ++ toString n)]
      | none => []) ++
    [.text ") AS ", .name s.rowsAlias]

/-- An array: a derived table is needed for a limit, and for an order that the aggregate does not
take. -/
def collection (ctx : Context) (base : Entity) (s : Source) (columns : Columns)
    (filter : Option Filter) (link : Link) : Sql.Draft :=
  if (limitOf filter).isNone && ((orderOf filter).isEmpty || ctx.dialect.ordersAggregate) then
    plainCollection ctx base s columns filter link
  else derivedCollection ctx base s columns filter link

def relation (ctx : Context) (base : Entity) (baseAlias : String) (r : RelationRequest) :
    Sql.Draft :=
  Sql.Draft.andThen r.segments fun _ =>
    Source.andThen ctx base r.name true fun s =>
      r.withProjection s fun columns =>
        Sql.Draft.andThen (r.shape base) fun shape =>
          let link := Link.correlated baseAlias
          let body := match shape with
            | .one => single ctx base s columns r.filter link
            | .many => collection ctx base s columns r.filter link
          .text "(" :: body ++ [.text ") AS ", .name r.label]

def count (ctx : Context) (base : Entity) (baseAlias : String) (c : CountRequest) : Sql.Draft :=
  Source.andThen ctx base c.relation false fun s =>
    .text "(SELECT COUNT(*)" :: s.body ctx.locale base c.filter (.correlated baseAlias) ++
      [.text ") AS ", .name c.label]

def aggregateCall (d : Dialect) (s : Source) (a : AggregateRequest) : Sql.Draft :=
  [.text a.function.sql, .text "("] ++ Sql.Draft.qualified s.relatedAlias a.column ++
    [.text ")", .text (if a.function.isNumeric then d.numericCast else "")]

def aggregate (ctx : Context) (base : Entity) (baseAlias : String) (a : AggregateRequest) :
    Sql.Draft :=
  if Text.isBlankText a.column then [.fail (.emptyAggregateColumn a.relation)]
  else
    Source.andThen ctx base a.relation false fun s =>
      .text "(SELECT " :: aggregateCall ctx.dialect s a ++
        s.body ctx.locale base a.filter (.correlated baseAlias) ++ [.text ") AS ", .name a.label]

def searchTerms (d : Dialect) (pattern : String) (columns : List Sql.Draft) : List Sql.Draft :=
  columns.map fun column =>
    column ++ [.text " ", .text d.likeOperator, .text " ", .bind (.text pattern)]

def search (ctx : Context) (base : Entity) (baseAlias relation : String) (columns : List String)
    (pattern : String) : Sql.Draft :=
  Source.andThen ctx base relation false fun s =>
    .text "EXISTS (SELECT 1" :: s.body ctx.locale base none (.correlated baseAlias) ++
      .text " AND (" ::
      Sql.Draft.separated " OR "
        (searchTerms ctx.dialect pattern (columns.map (Sql.Draft.qualified s.relatedAlias))) ++
      [.text "))"]

end Subquery
end EagerLoad
