import EagerLoad.Ordered
import EagerLoad.Output
import EagerLoad.Relation.Request
import EagerLoad.Time.Duration

/-! # Query plans

A plan says what a query asks for. Relations are listed by name and counts and aggregates by label;
asking again for one replaces it in its place. -/
namespace EagerLoad

inductive JoinKind where
  | inner
  | left
deriving DecidableEq, Repr

def JoinKind.sql : JoinKind → String
  | inner => "INNER JOIN"
  | left => "LEFT JOIN"

def JoinKind.tag : JoinKind → String
  | inner => "Inner"
  | left => "Left"

structure Join where
  kind : JoinKind
  table : String
  first : String
  operator : Comparison
  second : String
deriving DecidableEq, Repr

structure Search where
  term : String
  columns : List String
deriving DecidableEq, Repr

def Search.pattern (s : Search) : String := "%" ++ s.term ++ "%"

/-- A search without a term or without columns has no effect. -/
def Search.isActive (s : Search) : Bool := s.term != "" && !s.columns.isEmpty

def Search.toJson (s : Search) : Json :=
  .obj [("term", .str s.term), ("columns", .arr (s.columns.map .str))]

structure CacheDirective where
  enabled : Bool := true
  ttl : Option Duration := none
  tags : List String := []
deriving DecidableEq, Repr

structure Plan where
  entity : Entity
  columns : ColumnSelection := .all
  relations : List RelationRequest := []
  counts : List CountRequest := []
  aggregates : List AggregateRequest := []
  filter : Filter := {}
  search : Option Search := none
  joins : List Join := []
  order : List OrderTerm := []
  groupBy : List String := []
  having : Filter := {}
  limit : Option Nat := none
  offset : Option Nat := none
  format : Option OutputFormat := none
  cache : CacheDirective := {}
  locale : Option String := none
  safeMode : Option Bool := none
  maxRelations : Option Nat := none
  timeout : Option Duration := none
  withTrashed : Bool := false

namespace Plan

def addRelation (p : Plan) (r : RelationRequest) : Plan :=
  { p with relations := putBy RelationRequest.label r p.relations }

def addCount (p : Plan) (c : CountRequest) : Plan :=
  { p with counts := putBy CountRequest.label c p.counts }

def addAggregate (p : Plan) (a : AggregateRequest) : Plan :=
  { p with aggregates := putBy AggregateRequest.label a p.aggregates }

def subqueries (p : Plan) : Nat := p.relations.length + p.counts.length + p.aggregates.length

def isSubqueryLabel (p : Plan) (name : String) : Bool :=
  p.relations.any (fun r => r.label == name) || p.counts.any (fun c => c.label == name) ||
    p.aggregates.any (fun a => a.label == name)

def layout (p : Plan) : Except CompileError Layout :=
  p.relations.mapM fun r => (r.shape p.entity).map fun shape => ⟨r.label, shape⟩

end Plan
end EagerLoad
