import EagerLoad.Row
import EagerLoad.Sql.Value

/-! # Rows matched by key

Two values are the same key when their key texts agree. Keys are collected from one list of rows to
be bound in a statement, and the rows of that statement are merged into the list by them. -/
namespace EagerLoad

/-- The text of a key; null is no key. A boolean counts as one or zero. -/
def Json.keyText? : Json → Option String
  | .null => none
  | .str s => some s
  | .bool b => some (if b then "1" else "0")
  | j => some j.text

namespace Row

def key? (row : Row) (column : String) : Option String := (row.get? column).bind Json.keyText?

/-- Moves the listed columns of one row into another. A column listed twice is moved once. -/
def take (columns : List String) (row incoming : Row) : Row :=
  (distinct columns).foldl (fun row column =>
    match incoming.get? column with
    | some value => row.set column value
    | none => row) row

end Row

namespace Rows

/-- The values of the rows whose key text was not seen before. -/
def collectFrom (column : String) : List String → List Row → List DbValue
  | _, [] => []
  | seen, row :: rest =>
    match row.key? column with
    | none => collectFrom column seen rest
    | some key =>
      if seen.contains key then collectFrom column seen rest
      else DbValue.ofJson ((row.get? column).getD .null) :: collectFrom column (key :: seen) rest

/-- The values of a column to be bound as keys: one for every key text, in order of first
occurrence. -/
def collectKeys (rows : List Row) (column : String) : List DbValue := collectFrom column [] rows

/-- Moves the listed columns of an incoming row into the first row with its key. -/
def mergeRow (key : String) (columns : List String) (incoming : Row) (text : String) :
    List Row → List Row
  | [] => []
  | row :: rest =>
    if row.key? key = some text then row.take columns incoming :: rest
    else row :: mergeRow key columns incoming text rest

/-- Merges a batch of rows by a key column. Rows without a partner are dropped. -/
def merge (rows : List Row) (batch : List Row) (key : String) (columns : List String) : List Row :=
  batch.foldl (fun rows incoming =>
    match incoming.key? key with
    | some text => mergeRow key columns incoming text rows
    | none => rows) rows

end Rows
end EagerLoad
