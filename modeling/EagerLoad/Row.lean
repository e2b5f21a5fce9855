import EagerLoad.Entity
import EagerLoad.Json.Parser
import EagerLoad.Json.Printer

/-! # Rows

A row lists columns with their values, in the order of the columns, each column once. Rows are kept
outside the process as the text of an array of objects. -/
namespace EagerLoad

abbrev Row := List (String × Json)

namespace Row

def get? (row : Row) (column : String) : Option Json := row.lookup column

/-- Replaces a value in its place, or adds a column at the end. -/
def set (row : Row) (column : String) (value : Json) : Row := upsert column value row

def remove (row : Row) (column : String) : Row := row.filter fun c => c.1 != column

def hasColumn (row : Row) (column : String) : Bool := (row.get? column).isSome

/-- A row from columns that may repeat: the first position and the last value count. -/
def ofPairs (pairs : List (String × Json)) : Row := pairs.foldl (fun row c => set row c.1 c.2) []

def toPairs (row : Row) : Json := .arr (row.map fun (column, value) => .arr [.str column, value])

private def pair? : Json → Option (String × Json)
  | .arr [column, value] => column.string?.map fun column => (column, value)
  | _ => none

def ofPairs? (j : Json) : Option Row := (j.list? pair?).map ofPairs

def toObject (row : Row) : Json := Json.ofFields row

end Row

namespace Rows

def text (rows : List Row) : String := (Json.arr (rows.map Json.obj)).text

/-- Reads rows back, if the text is an array of objects. -/
def parse? (s : String) : Option (List Row) :=
  match Json.parseInOrder? s with
  | some (.arr items) => items.mapM fun
    | .obj fields => some (Row.ofPairs (Json.canonicalFields fields))
    | _ => none
  | _ => none

end Rows
end EagerLoad
