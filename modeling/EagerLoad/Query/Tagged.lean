import EagerLoad.Config
import EagerLoad.Entity.Tagged
import EagerLoad.Query.Call

/-! # Query calls in JSON

Every call is a list of its name and its arguments. Plans are written with the JSON forms of their
parts. -/
namespace EagerLoad

def RelationKind.ofJson? (j : Json) : Option RelationKind := j.unit?.bind ofTag?

/-- All columns for null, else those listed. -/
def ColumnSelection.ofJson? (j : Json) : Option ColumnSelection :=
  (j.nullable? Json.strings?).map fun
    | none => .all
    | some names => .ofList names

def RelationCall.ofJson? (j : Json) : Option RelationCall := do
  let path ← (j.get "path").string?
  let kind ← (j.get "kind").nullable? RelationKind.ofJson?
  let columns ← ColumnSelection.ofJson? (j.get "columns")
  let filter ← (j.get "filter").nullable? Filter.ofCalls?
  some { path, kind, columns, filter }

def CountRequest.ofJson? (j : Json) : Option CountRequest := do
  let relation ← (j.get "relation").string?
  let filter ← (j.get "filter").nullable? Filter.ofCalls?
  let name ← (j.get "alias").nullable? Json.string?
  some { relation, filter, name }

def AggregateRequest.ofJson? (j : Json) : Option AggregateRequest := do
  let relation ← (j.get "relation").string?
  let column ← (j.get "column").string?
  let function ← (j.get "function").unit?.bind AggregateFunction.ofTag?
  let filter ← (j.get "filter").nullable? Filter.ofCalls?
  some { relation, column, function, filter }

private def kindedCall? (kind : RelationKind) (path columns filter : Json) : Option QueryCall := do
  let columns := ColumnSelection.ofList (← columns.strings?)
  some (.relation
    { path := ← path.string?, kind := some kind, columns
      filter := ← filter.nullable? Filter.ofCalls? })

private def joinCall? (kind : JoinKind) : List Json → Option QueryCall
  | [table, first, operator, second] => do
    let operator ← Comparison.ofJson? operator
    some (.join { kind, table := ← table.string?, first := ← first.string?, operator
                  second := ← second.string? })
  | _ => none

private def aggregateCall? (function : AggregateFunction) : List Json → Option QueryCall
  | [relation, column] => do
    some (.aggregate { relation := ← relation.string?, column := ← column.string?, function })
  | _ => none

private def orderCall? (direction : Direction) : List Json → Option QueryCall
  | [column] => column.string?.map fun column => .order column direction
  | _ => none

/-- The calls that act on the base filter under their own names. -/
def FilterCall.queryNames : List String :=
  ["where_eq", "where_not", "where_op", "where_like", "where_in", "where_not_in", "where_null",
    "where_not_null", "where_between", "where_raw", "or_where_eq", "where_group"]

private def relationCalls? (name : String) (arguments : List Json) : Option (List QueryCall) :=
  match name, arguments with
  | "with", [path] => do some [.relation { path := ← path.string? }]
  | "with_many", [paths] => do
    some ((← paths.strings?).map fun path => .relation { path })
  | "with_when", [condition, path] => do
    let path ← path.string?
    some (if ← condition.bool? then [.relation { path }] else [])
  | "with_columns", [path, columns] => do
    let columns := ColumnSelection.ofList (← columns.strings?)
    some [.relation { path := ← path.string?, columns }]
  | "with_where", [path, calls] => do
    let filter := some (applyCalls {} (← FilterCall.listOfJson? calls))
    some [.relation { path := ← path.string?, filter }]
  | "with_relation", [spec] => do some [.relation (← RelationCall.ofJson? spec)]
  | "with_single", [path, columns] => do some [← kindedCall? .single path columns .null]
  | "with_polymorphic", [path, columns] => do some [← kindedCall? .polymorphic path columns .null]
  | "with_collection", [path, columns, filter] => do
    some [← kindedCall? .collection path columns filter]
  | "with_many_to_many", [path, columns, filter] => do
    some [← kindedCall? .manyToMany path columns filter]
  | "with_nested", [path] => do
    some [.relation { path := ← path.string?, kind := some .nested }]
  | _, _ => none

private def clauseCall? (name : String) (arguments : List Json) : Option QueryCall :=
  match name, arguments with
  | "with_count", [relation] => do some (.count { relation := ← relation.string? })
  | "with_count_where", [label, relation, calls] => do
    let filter := some (applyCalls {} (← FilterCall.listOfJson? calls))
    some (.count { relation := ← relation.string?, filter, name := some (← label.string?) })
  | "with_sum", arguments => aggregateCall? .sum arguments
  | "with_avg", arguments => aggregateCall? .avg arguments
  | "with_min", arguments => aggregateCall? .min arguments
  | "with_max", arguments => aggregateCall? .max arguments
  | "with_aggregate", [spec] => do some (.aggregate (← AggregateRequest.ofJson? spec))
  | "select", [columns] => do some (.select (← columns.strings?))
  | "filter", [filter] => do some (.filter (.mergeWith (← Filter.ofCalls? filter)))
  | "search", [term, columns] => do some (.search (← term.string?) (← columns.strings?))
  | "order_by", arguments => orderCall? .ascending arguments
  | "oldest", arguments => orderCall? .ascending arguments
  | "order_by_desc", arguments => orderCall? .descending arguments
  | "latest", arguments => orderCall? .descending arguments
  | "group_by", [column] => do some (.groupBy (← column.string?))
  | "having", [calls] => do some (.having (← FilterCall.listOfJson? calls))
  | "limit", [n] => do some (.limit (← n.word?))
  | "offset", [n] => do some (.offset (← n.word?))
  | "join", arguments => joinCall? .inner arguments
  | "left_join", arguments => joinCall? .left arguments
  | _, _ => none

private def settingCall? (name : String) (arguments : List Json) : Option QueryCall :=
  match name, arguments with
  | "as_array", [] => some (.format .array)
  | "as_objects", [] => some (.format .object)
  | "as_entities", [] => some (.format .entity)
  | "cache", [ms] => do some (.cache (Duration.ofMillis (← ms.word?)))
  | "cache_tags", [tags] => do some (.cacheTags (← tags.strings?))
  | "without_cache", [] => some .withoutCache
  | "locale", [locale] => do some (.locale (← locale.string?))
  | "safe_mode", [enabled] => do some (.safeMode (← enabled.bool?))
  | "max_relations_per_query", [n] => do some (.maxRelations (← n.word?))
  | "timeout", [ms] => do some (.timeout (Duration.ofMillis (← ms.word?)))
  | "with_trashed", [] => some .withTrashed
  | _, _ => none

/-- Reads one call, which may stand for several. -/
def QueryCall.ofJson? : Json → Option (List QueryCall)
  | .arr (.str name :: arguments) =>
    if FilterCall.queryNames.contains name then do
      let call := Json.arr (.str name :: arguments)
      some [.filter (← FilterCall.ofJson? (call.height + 1) call)]
    else
      (relationCalls? name arguments).orElse fun _ =>
        ((clauseCall? name arguments).orElse fun _ =>
          settingCall? name arguments).map fun call => [call]
  | _ => none

def QueryCall.listOfJson? (j : Json) : Option (List QueryCall) :=
  (j.listOrEmpty? QueryCall.ofJson?).map List.flatten

def Join.toJson (j : Join) : Json :=
  .obj [("join_type", .str j.kind.tag), ("table", .str j.table), ("first", .str j.first),
    ("operator", .str j.operator.tag), ("second", .str j.second)]

def CacheDirective.toJson (c : CacheDirective) : Json :=
  .obj [("enabled", .bool c.enabled), ("ttl", Json.ofOption Duration.toJson c.ttl),
    ("tags", .arr (c.tags.map .str))]

namespace Plan

def jsonFields (p : Plan) : List (String × Json) :=
  [("entity", .str p.entity.type), ("columns", p.columns.toJson),
    ("relations", .arr (p.relations.map RelationRequest.toJson)),
    ("counts", .arr (p.counts.map CountRequest.toJson)),
    ("aggregates", .arr (p.aggregates.map AggregateRequest.toJson)), ("filter", p.filter.toJson),
    ("search", Json.ofOption Search.toJson p.search), ("joins", .arr (p.joins.map Join.toJson)),
    ("order", .arr (p.order.map OrderTerm.toJson)), ("group_by", .arr (p.groupBy.map .str)),
    ("having", p.having.toJson), ("limit", Json.ofOption Json.ofNat p.limit),
    ("offset", Json.ofOption Json.ofNat p.offset),
    ("format", Json.ofOption (fun f => .str (OutputFormat.name f)) p.format),
    ("cache", p.cache.toJson), ("locale", Json.ofOption .str p.locale),
    ("safe_mode", Json.ofOption .bool p.safeMode),
    ("max_relations", Json.ofOption Json.ofNat p.maxRelations),
    ("timeout", Json.ofOption Duration.toJson p.timeout), ("with_trashed", .bool p.withTrashed)]

end Plan
end EagerLoad
