import EagerLoad.Json.Printer
import EagerLoad.Json.Reading
import EagerLoad.Time.Instant
import EagerLoad.Uuid

/-! # Values bound to placeholders

A value is turned into JSON when it is compared with a column of a row, and a column is turned back
into a value when it is bound. A tagged form keeps the kind of every value. -/
namespace EagerLoad

inductive DbValue where
  | null
  | bool (value : Bool)
  | int32 (value : Int32)
  | int64 (value : Int64)
  | float (value : Binary64)
  | text (value : String)
  | uuid (value : Uuid)
  | instant (value : Instant)
  | json (value : Json)
deriving DecidableEq, Inhabited

namespace DbValue

def isNull : DbValue → Bool
  | null => true
  | _ => false

/-- The column that holds a value. An infinity or a NaN is null. -/
def toJson : DbValue → Json
  | null => .null
  | bool b => .bool b
  | int32 i => .int i.toInt
  | int64 i => .int i.toInt
  | float x => if x.isFinite then .float x else .null
  | text s => .str s
  | uuid u => .str u.text
  | instant t => .str t.offsetText
  | json j => j

def minInt64 : Int := -(Bounds.signed64 : Int)
def maxInt64 : Int := Bounds.signed64 - 1

def minInt32 : Int := -(Bounds.signed32 : Int)
def maxInt32 : Int := Bounds.signed32 - 1

/-- A value for a whole number: 64 bits if they hold it, else the nearest floating point number. -/
def ofInt (i : Int) : DbValue :=
  if minInt64 ≤ i ∧ i ≤ maxInt64 then int64 (Int64.ofInt i) else float (Binary64.ofInt i)

/-- The value that compares equal to a column. Text stays text. -/
def ofJson : Json → DbValue
  | .null => null
  | .bool b => bool b
  | .int i => ofInt i
  | .float x => float x
  | .str s => text s
  | j => json j

def tag (kind : String) (value : Json) : Json :=
  .obj [("type", .str kind), ("value", value)]

def tagged : DbValue → Json
  | null => .obj [("type", .str "Null")]
  | bool b => tag "Bool" (.bool b)
  | int32 i => tag "Int32" (.int i.toInt)
  | int64 i => tag "Int64" (.int i.toInt)
  | float x => tag "Float64" (if x.isFinite then .float x else .null)
  | text s => tag "String" (.str s)
  | uuid u => tag "Uuid" (.str u.text)
  | instant t => tag "DateTime" (.str t.markedText)
  | json j => tag "Json" j

def ofTag? (kind : String) (value : Option Json) : Option DbValue :=
  match kind with
  | "Null" => if (value.getD .null).isNull then some null else none
  | "Bool" => (Json.required? Json.bool? value).map bool
  | "Int32" =>
    (Json.required? (Json.int? minInt32 maxInt32) value).map fun i => int32 (Int32.ofInt i)
  | "Int64" =>
    (Json.required? (Json.int? minInt64 maxInt64) value).map fun i => int64 (Int64.ofInt i)
  | "Float64" => (Json.required? Json.float? value).map float
  | "String" => (Json.required? Json.string? value).map text
  | "Uuid" => ((Json.required? Json.string? value).bind Uuid.parse?).map uuid
  | "DateTime" => ((Json.required? Json.string? value).bind Instant.parse?).map instant
  | "Json" => value.map json
  | _ => none

/-- Reads the tagged form, a record of the kind's name and the value. -/
def ofTagged? (j : Json) : Option DbValue :=
  match j with
  | .obj fields => do
    let kind ← Json.required? Json.unit? (fields.lookup "type")
    ofTag? kind (fields.lookup "value")
  | .arr [kind, value] => do
    let kind ← kind.unit?
    ofTag? kind (some value)
  | _ => none

end DbValue
end EagerLoad
