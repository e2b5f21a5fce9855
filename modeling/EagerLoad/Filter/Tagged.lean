import EagerLoad.Filter.Basic

/-! # Filters in JSON

A condition is written as the name of its variant with its fields, a filter as its clauses, its
order and its limit. -/
namespace EagerLoad

namespace Comparison

def tag : Comparison → String
  | equal => "Equal"
  | notEqual => "NotEqual"
  | lessThan => "LessThan"
  | lessThanOrEqual => "LessThanOrEqual"
  | greaterThan => "GreaterThan"
  | greaterThanOrEqual => "GreaterThanOrEqual"
  | like => "Like"
  | notLike => "NotLike"

def ofTag? : String → Option Comparison
  | "Equal" => some equal
  | "NotEqual" => some notEqual
  | "LessThan" => some lessThan
  | "LessThanOrEqual" => some lessThanOrEqual
  | "GreaterThan" => some greaterThan
  | "GreaterThanOrEqual" => some greaterThanOrEqual
  | "Like" => some like
  | "NotLike" => some notLike
  | _ => none

def ofJson? (j : Json) : Option Comparison := j.unit?.bind ofTag?

end Comparison

namespace Connective

def tag : Connective → String
  | and => "And"
  | or => "Or"

def ofJson? (j : Json) : Option Connective :=
  match j.unit? with
  | some "And" => some and
  | some "Or" => some or
  | _ => none

end Connective

namespace Direction

def tag : Direction → String
  | ascending => "Asc"
  | descending => "Desc"

def ofTag? : String → Option Direction
  | "Asc" => some ascending
  | "Desc" => some descending
  | _ => none

def ofJson? (j : Json) : Option Direction := j.unit?.bind ofTag?

end Direction

namespace OrderTerm

def toJson (t : OrderTerm) : Json :=
  .obj [("column", .str t.column), ("direction", .str t.direction.tag)]

def ofJson? (j : Json) : Option OrderTerm := do
  match ← Json.record? ["column", "direction"] j with
  | [column, direction] =>
    let column ← Json.required? Json.string? column
    let direction ← Json.required? Direction.ofJson? direction
    some { column, direction }
  | _ => none

end OrderTerm

def DbValue.taggedList (vs : List DbValue) : Json := .arr (vs.map DbValue.tagged)

mutual

def Condition.toJson : Condition → Json
  | .compare column operator value => .obj [("Compare", .obj
      [("column", .str column), ("operator", .str operator.tag), ("value", value.tagged)])]
  | .columns left operator right => .obj [("Columns", .obj
      [("left", .str left), ("operator", .str operator.tag), ("right", .str right)])]
  | .among column vs negated => .obj [("In", .obj
      [("column", .str column), ("values", DbValue.taggedList vs), ("negated", .bool negated)])]
  | .null column negated => .obj [("Null", .obj
      [("column", .str column), ("negated", .bool negated)])]
  | .between column low high => .obj [("Between", .obj
      [("column", .str column), ("low", low.tagged), ("high", high.tagged)])]
  | .group clauses => .obj [("Group", .arr (clausesToJson clauses))]
  | .raw sql bindings => .obj [("Raw", .obj
      [("sql", .str sql), ("bindings", DbValue.taggedList bindings)])]

def clausesToJson : List Clause → List Json
  | [] => []
  | (connective, condition) :: rest =>
    .obj [("conjunction", .str connective.tag), ("condition", condition.toJson)] ::
      clausesToJson rest

end

def ofFields? (fields : List (String × Json)) : String → Option Condition
  | "Compare" => do
    let column ← Json.required? Json.string? (fields.lookup "column")
    let operator ← Json.required? Comparison.ofJson? (fields.lookup "operator")
    let value ← Json.required? DbValue.ofTagged? (fields.lookup "value")
    some (.compare column operator value)
  | "Columns" => do
    let left ← Json.required? Json.string? (fields.lookup "left")
    let operator ← Json.required? Comparison.ofJson? (fields.lookup "operator")
    let right ← Json.required? Json.string? (fields.lookup "right")
    some (.columns left operator right)
  | "In" => do
    let column ← Json.required? Json.string? (fields.lookup "column")
    let vs ← Json.required? (Json.list? DbValue.ofTagged?) (fields.lookup "values")
    let negated ← Json.required? Json.bool? (fields.lookup "negated")
    some (.among column vs negated)
  | "Null" => do
    let column ← Json.required? Json.string? (fields.lookup "column")
    let negated ← Json.required? Json.bool? (fields.lookup "negated")
    some (.null column negated)
  | "Between" => do
    let column ← Json.required? Json.string? (fields.lookup "column")
    let low ← Json.required? DbValue.ofTagged? (fields.lookup "low")
    let high ← Json.required? DbValue.ofTagged? (fields.lookup "high")
    some (.between column low high)
  | "Raw" => do
    let sql ← Json.required? Json.string? (fields.lookup "sql")
    let bindings ← Json.required? (Json.list? DbValue.ofTagged?) (fields.lookup "bindings")
    some (.raw sql bindings)
  | _ => none

/-- Reads a condition whose groups nest at most so deep. -/
def Condition.ofJson? : Nat → Json → Option Condition
  | 0, _ => none
  | depth + 1, j => do
    match ← Json.variant? j with
    | ("Group", some (.arr items)) =>
      let clauses ← items.mapM fun item => do
        match ← Json.record? ["conjunction", "condition"] item with
        | [connective, condition] =>
          let connective ← Json.required? Connective.ofJson? connective
          let condition ← Json.required? (Condition.ofJson? depth) condition
          some (connective, condition)
        | _ => none
      some (.group clauses)
    | (name, some (.obj fields)) => ofFields? fields name
    | _ => none

def Clause.ofJson? (j : Json) : Option Clause := do
  match ← Json.record? ["conjunction", "condition"] j with
  | [connective, condition] =>
    let connective ← Json.required? Connective.ofJson? connective
    let condition ← Json.required? (Condition.ofJson? (j.height + 1)) condition
    some (connective, condition)
  | _ => none

namespace Filter

def toJson (f : Filter) : Json :=
  .obj [("clauses", .arr (clausesToJson f.clauses)), ("order", .arr (f.order.map OrderTerm.toJson)),
    ("limit", Json.ofOption Json.ofNat f.limit)]

def ofJson? (j : Json) : Option Filter := do
  match ← Json.record? ["clauses", "order", "limit"] j with
  | [clauses, order, limit] =>
    let clauses ← Json.required? (Json.list? Clause.ofJson?) clauses
    let order ← Json.required? (Json.list? OrderTerm.ofJson?) order
    let limit ← Json.optional? Json.word? limit
    some { clauses, order, limit }
  | _ => none

end Filter
end EagerLoad
