import EagerLoad.Filter.Call
import EagerLoad.Plan.Basic

/-! # Queries as lists of calls

A query is built by calls on the plan of an entity. A relation asked for without a kind gets the
kind of its declaration. -/
namespace EagerLoad

structure RelationCall where
  path : String
  kind : Option RelationKind := none
  columns : ColumnSelection := .all
  filter : Option Filter := none

namespace RelationCall

def request (c : RelationCall) (e : Entity) : RelationRequest :=
  { RelationRequest.ofPath c.path (c.kind.getD (e.classify c.path)) with
    columns := c.columns
    filter := c.filter }

/-- A name that has to be classified and is not declared is reported. -/
def notices (c : RelationCall) (e : Entity) : List Notice :=
  if c.kind.isNone && e.isUndeclared c.path then [.undeclaredRelation] else []

end RelationCall

inductive QueryCall where
  | select (columns : List String)
  | relation (call : RelationCall)
  | count (request : CountRequest)
  | aggregate (request : AggregateRequest)
  | filter (call : FilterCall)
  | search (term : String) (columns : List String)
  | order (column : String) (direction : Direction)
  | groupBy (column : String)
  | having (calls : List FilterCall)
  | limit (n : Nat)
  | offset (n : Nat)
  | join (clause : Join)
  | format (format : OutputFormat)
  | cache (ttl : Duration)
  | cacheTags (tags : List String)
  | withoutCache
  | locale (locale : String)
  | safeMode (enabled : Bool)
  | maxRelations (n : Nat)
  | timeout (limit : Duration)
  | withTrashed

namespace Plan

def orderBy (p : Plan) (column : String) (direction : Direction) : Plan :=
  { p with order := p.order ++ [⟨column, direction⟩] }

def withLimit (p : Plan) (n : Nat) : Plan := { p with limit := some n }

def withOffset (p : Plan) (n : Nat) : Plan := { p with offset := some n }

def whereEqual (p : Plan) (column : String) (value : DbValue) : Plan :=
  { p with filter := p.filter.and (.compare column .equal value) }

end Plan

namespace QueryCall

def apply (p : Plan) : QueryCall → Plan
  | .select columns => { p with columns := ColumnSelection.ofList columns }
  | .relation call => p.addRelation (call.request p.entity)
  | .count request => p.addCount request
  | .aggregate request => p.addAggregate request
  | .filter call => { p with filter := call.apply p.filter }
  | .search term columns => { p with search := some ⟨term, columns⟩ }
  | .order column direction => p.orderBy column direction
  | .groupBy column => { p with groupBy := p.groupBy ++ [column] }
  | .having calls => { p with having := applyCalls p.having calls }
  | .limit n => p.withLimit n
  | .offset n => p.withOffset n
  | .join clause => { p with joins := p.joins ++ [clause] }
  | .format f => { p with format := some f }
  | .cache ttl => { p with cache := { p.cache with enabled := true, ttl := some ttl } }
  | .cacheTags tags => { p with cache := { p.cache with tags } }
  | .withoutCache => { p with cache := { p.cache with enabled := false } }
  | .locale name => { p with locale := some name }
  | .safeMode enabled => { p with safeMode := some enabled }
  | .maxRelations n => { p with maxRelations := some n }
  | .timeout duration => { p with timeout := some duration }
  | .withTrashed => { p with withTrashed := true }

def notices (e : Entity) : QueryCall → List Notice
  | .relation call => call.notices e
  | _ => []

def build (e : Entity) (calls : List QueryCall) : Plan := calls.foldl apply { entity := e }

end QueryCall
end EagerLoad
