import EagerLoad.Notice
import EagerLoad.Relation.Subquery
import EagerLoad.Row

/-! # Decoding relation columns

Relation columns arrive as JSON text or as values. Decoding gives every relation of the layout a
value of its shape: what cannot be read becomes the empty value. -/
namespace EagerLoad

structure Slot where
  label : String
  shape : Shape
deriving DecidableEq, Repr

abbrev Layout := List Slot

def Layout.shape? (layout : Layout) (label : String) : Option Shape :=
  (layout.find? fun slot => slot.label = label).map (·.shape)

def Layout.isRelation (layout : Layout) (label : String) : Bool := (layout.shape? label).isSome

def Shape.empty : Shape → Json
  | one => .null
  | many => .arr []

namespace Decode

/-- Fits a value to a shape. An array of one item stands for that item where an object is wanted. -/
def fit (shape : Shape) (value : Json) : Json × List Notice :=
  match shape, value with
  | .many, .arr items => (.arr items, [])
  | .one, .obj fields => (.obj fields, [])
  | .one, .arr [item] => (item, [])
  | shape, .null => (shape.empty, [])
  | shape, _ => (shape.empty, [.unexpectedRelation])

def value (shape : Shape) (column : Json) : Json × List Notice :=
  match column with
  | .str text => match Json.parse? text with
    | some parsed => fit shape parsed
    | none => (shape.empty, [.malformedRelation])
  | column => fit shape column

/-- Decodes one column in its place; an absent one is added with the empty value. -/
def slot (row : Row) (s : Slot) : Row × List Notice :=
  let (decoded, notices) := match row.get? s.label with
    | some column => value s.shape column
    | none => (s.shape.empty, [])
  (row.set s.label decoded, notices)

def row : Layout → Row → Row × List Notice
  | [], r => (r, [])
  | s :: rest, r =>
    let (r, first) := slot r s
    let (r, notices) := row rest r
    (r, first ++ notices)

def rows (layout : Layout) (rs : List Row) : List Row × List Notice :=
  let decoded := rs.map (row layout)
  (decoded.map (·.1), decoded.flatMap (·.2))

end Decode
end EagerLoad
