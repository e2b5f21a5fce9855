import EagerLoad.Entity
import EagerLoad.Relation.Request
import EagerLoad.Sql.Draft

/-! # Selected columns

A selection is resolved into the columns read from an entity's own table and those read from its
satellite table. The same columns are written as the pairs of a JSON object or as a select list. -/
namespace EagerLoad

/-- The columns of a selection, each once, in the order they were first asked for. -/
structure Columns where
  main : List String := []
  localized : List String := []
deriving DecidableEq, Repr

namespace Columns

def names (c : Columns) : List String := c.main ++ c.localized

def isEmpty (c : Columns) : Bool := c.main.isEmpty && c.localized.isEmpty

/-- The columns that a selection asks for. All columns include the localized ones if they can be
read. -/
def requested (e : Entity) (selection : ColumnSelection) (localization : Option Localization) :
    List String :=
  match selection with
  | .columns names => names
  | .all => match localization with
    | some l => l.fields.foldl addNew e.allColumns
    | none => e.allColumns

/-- Takes up one column. A localized column that cannot be read is left out. -/
def insert (e : Entity) (localized : Bool) (c : Columns) (column : String) : Columns :=
  if e.localizedFields.contains column then
    if localized then { c with localized := addNew c.localized column } else c
  else { c with main := addNew c.main column }

/-- The columns of a selection, if every one of them is a valid name. -/
def resolve (e : Entity) (selection : ColumnSelection) (localization : Option Localization) :
    Except CompileError Columns :=
  let names := requested e selection localization
  match names.findSome? Identifier.fault? with
  | some fault => .error (.invalidIdentifier fault)
  | none => .ok (names.foldl (insert e localization.isSome) {})

def pair (source column : String) : Sql.Draft :=
  [.text "'", .text column, .text "', "] ++ Sql.Draft.qualified source column

/-- A JSON object of the columns, the localized ones read from an alias of their own. Names are
valid identifiers, so they can stand in literals. -/
def object (c : Columns) (d : Dialect) (mainAlias satelliteAlias : String) : Sql.Draft :=
  [.text d.objectFunction, .text "("] ++
    Sql.Draft.separated ", "
      (c.main.map (pair mainAlias) ++ c.localized.map (pair satelliteAlias)) ++
    [.text ")"]

def flatObject (c : Columns) (d : Dialect) (source : String) : Sql.Draft :=
  [.text d.objectFunction, .text "("] ++ Sql.Draft.separated ", " (c.names.map (pair source)) ++
    [.text ")"]

def items (c : Columns) (mainAlias satelliteAlias : String) : List Sql.Draft :=
  c.main.map (Sql.Draft.qualified mainAlias) ++
    c.localized.map fun column =>
      Sql.Draft.qualified satelliteAlias column ++ [.text " AS ", .name column]

def selectList (c : Columns) (mainAlias satelliteAlias : String) : Sql.Draft :=
  Sql.Draft.separated ", " (c.items mainAlias satelliteAlias)

end Columns
end EagerLoad
