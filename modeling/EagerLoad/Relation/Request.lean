import EagerLoad.Error
import EagerLoad.Filter.Tagged
import EagerLoad.Relation.Basic

/-! # Requests for relations

A query asks for a relation, for the number of its rows, or for an aggregate of one of its columns.
A dotted path asks for a relation and one of its columns. -/
namespace EagerLoad

inductive ColumnSelection where
  | all
  | columns (names : List String)
deriving DecidableEq, Repr

namespace ColumnSelection

/-- An empty list and one with a star mean all columns. -/
def ofList (names : List String) : ColumnSelection :=
  if names.isEmpty || names.contains "*" then all else columns names

def isAll : ColumnSelection → Bool
  | all => true
  | columns _ => false

def toJson : ColumnSelection → Json
  | all => .str "All"
  | columns names => .obj [("Columns", .arr (names.map .str))]

end ColumnSelection

structure RelationRequest where
  name : String
  kind : RelationKind
  columns : ColumnSelection := .all
  filter : Option Filter := none
  nestedPath : Option String := none

namespace RelationRequest

/-- A dotted path asks for the relation before its first point. -/
def ofPath (path : String) (kind : RelationKind) : RelationRequest :=
  match Text.splitFirst? '.' path.toList with
  | some (first, _) => { name := String.ofList first, kind, nestedPath := some path }
  | none => { name := path, kind }

def label (r : RelationRequest) : String := r.name

def isNested (r : RelationRequest) : Bool := r.nestedPath.isSome

/-- The segments of a nested path after the first; none may be blank. -/
def segments (r : RelationRequest) : Except CompileError (List String) :=
  match r.nestedPath with
  | none => .ok []
  | some path =>
    let pieces := (Text.splitAll '.' path.toList).map String.ofList
    if pieces.length < 2 || pieces.any Text.isBlankText then .error (.malformedNestedPath path)
    else .ok (pieces.drop 1)

def toJson (r : RelationRequest) : Json :=
  .obj [("name", .str r.name), ("kind", .str r.kind.tag), ("columns", r.columns.toJson),
    ("filter", Json.ofOption Filter.toJson r.filter),
    ("nested_path", Json.ofOption .str r.nestedPath)]

end RelationRequest

structure CountRequest where
  relation : String
  filter : Option Filter := none
  name : Option String := none

namespace CountRequest

def label (c : CountRequest) : String := c.name.getD (c.relation ++ "_count")

def toJson (c : CountRequest) : Json :=
  .obj [("relation", .str c.relation), ("filter", Json.ofOption Filter.toJson c.filter),
    ("alias", Json.ofOption .str c.name)]

end CountRequest

inductive AggregateFunction where
  | sum
  | avg
  | min
  | max
deriving DecidableEq, Repr

namespace AggregateFunction

def sql : AggregateFunction → String
  | sum => "SUM"
  | avg => "AVG"
  | min => "MIN"
  | max => "MAX"

def name : AggregateFunction → String
  | sum => "sum"
  | avg => "avg"
  | min => "min"
  | max => "max"

def tag : AggregateFunction → String
  | sum => "Sum"
  | avg => "Avg"
  | min => "Min"
  | max => "Max"

def ofTag? : String → Option AggregateFunction
  | "Sum" => some sum
  | "Avg" => some avg
  | "Min" => some min
  | "Max" => some max
  | _ => none

/-- Whether the result is a number whatever the column holds. -/
def isNumeric : AggregateFunction → Bool
  | sum | avg => true
  | min | max => false

end AggregateFunction

structure AggregateRequest where
  relation : String
  column : String
  function : AggregateFunction
  filter : Option Filter := none

namespace AggregateRequest

def label (a : AggregateRequest) : String := a.function.name ++ "_" ++ a.relation ++ "_" ++ a.column

def toJson (a : AggregateRequest) : Json :=
  .obj [("relation", .str a.relation), ("column", .str a.column), ("function", .str a.function.tag),
    ("filter", Json.ofOption Filter.toJson a.filter)]

end AggregateRequest
end EagerLoad
