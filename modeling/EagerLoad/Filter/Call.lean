import EagerLoad.Filter.Tagged

/-! # Filters as lists of calls

A filter is written as the calls that build it, each a list of a name and its arguments. -/
namespace EagerLoad

inductive FilterCall where
  | compare (connective : Connective) (column : String) (operator : Comparison) (value : DbValue)
  | columns (left : String) (operator : Comparison) (right : String)
  | among (connective : Connective) (column : String) (values : List DbValue) (negated : Bool)
  | null (connective : Connective) (column : String) (negated : Bool)
  | between (column : String) (low high : DbValue)
  | raw (sql : String) (bindings : List DbValue)
  | group (connective : Connective) (calls : List FilterCall)
  | order (column : String) (direction : Direction)
  | limit (n : Nat)
  | merge (calls : List FilterCall)
  | mergeWith (filter : Filter)

mutual

def FilterCall.apply (f : Filter) : FilterCall → Filter
  | .compare connective column operator value => f.add connective (.compare column operator value)
  | .columns left operator right => f.and (.columns left operator right)
  | .among connective column values negated => f.add connective (.among column values negated)
  | .null connective column negated => f.add connective (.null column negated)
  | .between column low high => f.and (.between column low high)
  | .raw sql bindings => f.and (.raw sql bindings)
  | .group connective calls => f.addGroup connective (applyCalls {} calls)
  | .order column direction => f.orderBy column direction
  | .limit n => f.withLimit n
  | .merge calls => f.merge (applyCalls {} calls)
  | .mergeWith g => f.merge g

def applyCalls (f : Filter) : List FilterCall → Filter
  | [] => f
  | call :: rest => applyCalls (call.apply f) rest

end

namespace FilterCall

private def compareOf? (connective : Connective) (operator : Comparison) (column value : Json) :
    Option FilterCall := do
  some (.compare connective (← column.string?) operator (← DbValue.ofTagged? value))

private def amongOf? (connective : Connective) (negated : Bool) (column values : Json) :
    Option FilterCall := do
  some (.among connective (← column.string?) (← values.listOrEmpty? DbValue.ofTagged?) negated)

/-- Reads a call whose groups nest at most so deep. -/
def ofJson? : Nat → Json → Option FilterCall
  | 0, _ => none
  | depth + 1, .arr (.str name :: arguments) =>
    match name, arguments with
    | "where_eq", [column, value] => compareOf? .and .equal column value
    | "where_not", [column, value] => compareOf? .and .notEqual column value
    | "or_where_eq", [column, value] => compareOf? .or .equal column value
    | "where_op", [column, operator, value] => do
      compareOf? .and (← Comparison.ofJson? operator) column value
    | "or_where_op", [column, operator, value] => do
      compareOf? .or (← Comparison.ofJson? operator) column value
    | "where_like", [column, pattern] => do
      some (.compare .and (← column.string?) .like (.text (← pattern.string?)))
    | "where_column", [left, operator, right] => do
      some (.columns (← left.string?) (← Comparison.ofJson? operator) (← right.string?))
    | "where_in", [column, values] => amongOf? .and false column values
    | "where_not_in", [column, values] => amongOf? .and true column values
    | "or_where_in", [column, values] => amongOf? .or false column values
    | "where_null", [column] => do some (.null .and (← column.string?) false)
    | "where_not_null", [column] => do some (.null .and (← column.string?) true)
    | "or_where_null", [column] => do some (.null .or (← column.string?) false)
    | "where_between", [column, low, high] => do
      some (.between (← column.string?) (← DbValue.ofTagged? low) (← DbValue.ofTagged? high))
    | "where_raw", [sql, bindings] => do
      some (.raw (← sql.string?) (← bindings.listOrEmpty? DbValue.ofTagged?))
    | "where_group", [calls] => do some (.group .and (← calls.listOrEmpty? (ofJson? depth)))
    | "or_where_group", [calls] => do some (.group .or (← calls.listOrEmpty? (ofJson? depth)))
    | "order_by", [column, direction] => do
      some (.order (← column.string?) (← Direction.ofJson? direction))
    | "order_by_desc", [column] => do some (.order (← column.string?) .descending)
    | "limit", [n] => do some (.limit (← n.word?))
    | "merge", [filter] => match filter.field? "json" with
      | some filter => do some (.mergeWith (← Filter.ofJson? filter))
      | none => do some (.merge (← filter.listOrEmpty? (ofJson? depth)))
    | _, _ => none
  | _, _ => none

def listOfJson? (j : Json) : Option (List FilterCall) := j.listOrEmpty? (ofJson? (j.height + 1))

end FilterCall

namespace Filter

/-- Reads a filter from its calls, or from its own JSON form. -/
def ofCalls? (j : Json) : Option Filter :=
  match j.field? "json" with
  | some filter => ofJson? filter
  | none => (FilterCall.listOfJson? j).map (applyCalls {})

end Filter
end EagerLoad
