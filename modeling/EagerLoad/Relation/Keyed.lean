import EagerLoad.Relation.Subquery

/-! # Relations loaded by owner keys

When relations are loaded one by one, each statement selects the related rows, or one value for
every owner, among the rows whose owner's key is one of those given. -/
namespace EagerLoad.Keyed

def ownerAlias : String := "__owner_key"

/-- The name of a grouped value, and of a count of rows. -/
def valueAlias : String := "aggregate"

def ownerItem (s : Source) : Sql.Draft := s.owner ++ [.text " AS ", .name ownerAlias]

/-- The related rows with their owners' keys. The columns given replace those of the request. -/
def relation (ctx : Context) (base : Entity) (r : RelationRequest) (columns : ColumnSelection)
    (keys : List DbValue) : Sql.Draft :=
  Source.andThen ctx base r.name true fun s =>
    RelationRequest.withProjection { r with columns := columns } s fun projected =>
      .text "SELECT " :: ownerItem s ++
        (if projected.isEmpty then []
        else .text ", " :: projected.selectList s.relatedAlias s.satelliteAlias) ++
        s.body ctx.locale base r.filter (.keys keys) ++ s.orderClause (Subquery.orderOf r.filter)

def grouped (ctx : Context) (base : Entity) (s : Source) (value : Sql.Draft)
    (filter : Option Filter) (keys : List DbValue) : Sql.Draft :=
  .text "SELECT " :: ownerItem s ++ .text ", " :: value ++ [.text " AS ", .name valueAlias] ++
    s.body ctx.locale base filter (.keys keys) ++ .text " GROUP BY " :: s.owner

def count (ctx : Context) (base : Entity) (c : CountRequest) (keys : List DbValue) : Sql.Draft :=
  Source.andThen ctx base c.relation false fun s =>
    grouped ctx base s [.text "COUNT(*)"] c.filter keys

/-- The names of the aggregate's call are checked before the owner's. -/
def aggregate (ctx : Context) (base : Entity) (a : AggregateRequest) (keys : List DbValue) :
    Sql.Draft :=
  Source.andThen ctx base a.relation false fun s =>
    [.require s.relatedAlias, .require a.column] ++
      grouped ctx base s (Subquery.aggregateCall ctx.dialect s a) a.filter keys

end EagerLoad.Keyed
