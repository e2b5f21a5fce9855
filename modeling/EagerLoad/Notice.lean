/-! # Notices

What a query reports while it is compiled and run, apart from its result. -/
namespace EagerLoad

inductive Level where
  | trace
  | debug
  | warn
  | error
deriving DecidableEq, Repr

inductive Notice where
  | undeclaredRelation
  | nestedTooDeep
  | manySubqueries
  | orderIgnored
  | malformedRelation
  | unexpectedRelation
  | pagingReplaced
  | pagingOrdered
  | executing
  | requestHit
  | externalHit
  | undecodableEntry
  | storeReadFailed
  | storeWriteFailed
  | batchFailed
  | fallingBack
  | columnsDropped
  | fallbackLoaded
  | optimizedFailed
  | queryFailed
  | flushed
  | observerFailed
deriving DecidableEq, Repr

namespace Notice

def level : Notice → Level
  | requestHit | externalHit => .trace
  | pagingOrdered | executing | fallbackLoaded | flushed => .debug
  | optimizedFailed | queryFailed => .error
  | _ => .warn

def message : Notice → String
  | undeclaredRelation => "Relation is not declared; classifying as single"
  | nestedTooDeep =>
    "Only the first level of a nested relation is joined; deeper segments are ignored"
  | manySubqueries => "Query carries many subqueries; consider splitting or fewer relations"
  | orderIgnored => "Ordering by a subquery this statement does not select; ignored"
  | malformedRelation => "Malformed relation JSON, using empty value"
  | unexpectedRelation => "Unexpected relation value, using empty value"
  | pagingReplaced => "Chunked iteration replaces the query's limit and offset"
  | pagingOrdered => "Ordering chunks by primary key"
  | executing => "Executing optimized query"
  | requestHit => "Request cache hit"
  | externalHit => "External cache hit"
  | undecodableEntry => "Discarding undecodable cache entry"
  | storeReadFailed => "Cache store read failed; treating as miss"
  | storeWriteFailed => "Cache store write failed"
  | batchFailed => "Split batch failed; its relations decode as empty"
  | fallingBack => "Optimized query failed; falling back to per-relation loading"
  | columnsDropped => "Dropping columns the related entity does not declare"
  | fallbackLoaded => "Loaded relations through the fallback path"
  | optimizedFailed => "Optimized query failed"
  | queryFailed => "Query failed"
  | flushed => "Flushed cached query results"
  | observerFailed => "Model observer failed"

end Notice

def Level.text : Level → String
  | trace => "TRACE"
  | debug => "DEBUG"
  | warn => "WARN"
  | error => "ERROR"

end EagerLoad
