import EagerLoad.Sql.Value

/-! # Filters

A filter is a list of conditions joined by AND and OR, with an order and a limit for the relations
that take them. AND binds more tightly than OR, the first connective counts for nothing, and a group
stands in parentheses. -/
namespace EagerLoad

inductive Comparison where
  | equal
  | notEqual
  | lessThan
  | lessThanOrEqual
  | greaterThan
  | greaterThanOrEqual
  | like
  | notLike
deriving DecidableEq, Repr

def Comparison.sql : Comparison → String
  | equal => "="
  | notEqual => "!="
  | lessThan => "<"
  | lessThanOrEqual => "<="
  | greaterThan => ">"
  | greaterThanOrEqual => ">="
  | like => "LIKE"
  | notLike => "NOT LIKE"

inductive Connective where
  | and
  | or
deriving DecidableEq, Repr

def Connective.sql : Connective → String
  | and => " AND "
  | or => " OR "

inductive Direction where
  | ascending
  | descending
deriving DecidableEq, Repr

def Direction.sql : Direction → String
  | ascending => "ASC"
  | descending => "DESC"

structure OrderTerm where
  column : String
  direction : Direction
deriving DecidableEq, Repr

inductive Condition where
  | compare (column : String) (operator : Comparison) (value : DbValue)
  | columns (left : String) (operator : Comparison) (right : String)
  | among (column : String) (values : List DbValue) (negated : Bool)
  | null (column : String) (negated : Bool)
  | between (column : String) (low high : DbValue)
  | group (clauses : List (Connective × Condition))
  | raw (sql : String) (bindings : List DbValue)
deriving Inhabited

/-- A condition and how it is joined to those before it. -/
abbrev Clause := Connective × Condition

structure Filter where
  clauses : List Clause := []
  order : List OrderTerm := []
  limit : Option Nat := none
deriving Inhabited

namespace Filter

def hasConditions (f : Filter) : Bool := !f.clauses.isEmpty

def isEmpty (f : Filter) : Bool := f.clauses.isEmpty && f.order.isEmpty && f.limit.isNone

def add (f : Filter) (connective : Connective) (condition : Condition) : Filter :=
  { f with clauses := f.clauses ++ [(connective, condition)] }

def and (f : Filter) (condition : Condition) : Filter := f.add .and condition

def or (f : Filter) (condition : Condition) : Filter := f.add .or condition

/-- Adds the conditions of another filter as a group; without conditions nothing is added. -/
def addGroup (f : Filter) (connective : Connective) (inner : Filter) : Filter :=
  if inner.clauses.isEmpty then f else f.add connective (.group inner.clauses)

def orderBy (f : Filter) (column : String) (direction : Direction) : Filter :=
  { f with order := f.order ++ [⟨column, direction⟩] }

def withLimit (f : Filter) (n : Nat) : Filter := { f with limit := some n }

/-- The clauses of two filters, those of the second as one group after those of the first. -/
def mergeClauses (first second : List Clause) : List Clause :=
  if second.isEmpty then first
  else if first.isEmpty then second
  else first ++ [(.and, .group second)]

/-- Requires the conditions of both filters. Orders are joined, and the second limit counts. -/
def merge (f g : Filter) : Filter :=
  { clauses := mergeClauses f.clauses g.clauses
    order := f.order ++ g.order
    limit := g.limit.or f.limit }

end Filter
end EagerLoad
