import EagerLoad.Error
import EagerLoad.Row.Decode

/-! # Output formats

Decoded rows are handed out as plain records, as records with typed access to their fields, or as
entities whose loaded relations stand beside them. -/
namespace EagerLoad

inductive OutputFormat where
  | array
  | object
  | entity
deriving DecidableEq, Repr

namespace OutputFormat

def name : OutputFormat → String
  | array => "array"
  | object => "object"
  | entity => "entity"

def ofName? : String → Option OutputFormat
  | "array" => some array
  | "object" => some object
  | "entity" => some entity
  | _ => none

def unknownMessage (text : String) : String := "unknown output format '" ++ text ++ "'"

/-- Reads a format in letters of any case between blanks; a model is an entity. -/
def parse (text : String) : Except String OutputFormat :=
  match (Text.trim text).toLower with
  | "model" => .ok entity
  | lowered => match ofName? lowered with
    | some format => .ok format
    | none => .error (unknownMessage lowered)

end OutputFormat

inductive FieldType where
  | int64
  | string
  | bool
  | strings
  | any
deriving DecidableEq, Repr

/-- Whether a value has the type; any value has the type of all. -/
def FieldType.fits : FieldType → Json → Bool
  | int64, j => (j.int? DbValue.minInt64 DbValue.maxInt64).isSome
  | string, j => j.string?.isSome
  | bool, j => j.bool?.isSome
  | strings, j => (j.list? Json.string?).isSome
  | any, _ => true

namespace Record

/-- The value of a field as a type; none if it is absent or null. -/
def typed (record : Row) (field : String) (type : FieldType) : Except QueryError (Option Json) :=
  match record.get? field with
  | none | some .null => .ok none
  | some value => if type.fits value then .ok (some value) else .error (.decode (.fieldType field))

end Record

/-- The fields that an entity must have, with their types. Without any, every object will do. -/
structure EntityType where
  required : List (String × FieldType)

structure Hydrated where
  entity : Json
  relations : List (String × Json)

namespace Hydrated

/-- Reads a decoded record as an entity. A typed entity keeps only its own fields. -/
def ofRecord (type : EntityType) (layout : Layout) (record : Row) : Except QueryError Hydrated :=
  let relations := layout.filterMap fun s => (record.get? s.label).map fun value => (s.label, value)
  let relations := relations.foldl (fun found r => upsert r.1 r.2 found) []
  if type.required.isEmpty then .ok ⟨record.toObject, relations⟩
  else
    match type.required.mapM fun (field, fieldType) => do
      let value ← record.get? field
      if fieldType.fits value then some (field, value) else none with
    | some fields => .ok ⟨Json.ofFields fields, relations⟩
    | none => .error (.decode .hydration)

def relation (h : Hydrated) (name : String) : Except QueryError Json :=
  match h.relations.lookup name with
  | some value => .ok value
  | none => .error (.decode (.relationNotLoaded name))

end Hydrated

inductive Output where
  | array (records : List Row)
  | object (records : List Row)
  | entity (records : List Hydrated)

namespace Output

def format : Output → OutputFormat
  | array _ => .array
  | object _ => .object
  | entity _ => .entity

def size : Output → Nat
  | array rs | object rs => rs.length
  | entity hs => hs.length

/-- Hydrates record after record until one does not fit; the notices are those of the rows decoded
until then. -/
def hydrate (type : EntityType) (layout : Layout) :
    List Row → Except QueryError (List Hydrated) × List Notice
  | [] => (.ok [], [])
  | row :: rest =>
    let (record, notices) := Decode.row layout row
    match Hydrated.ofRecord type layout record with
    | .error e => (.error e, notices)
    | .ok h =>
      let (more, later) := hydrate type layout rest
      (more.map (h :: ·), notices ++ later)

def decode (format : OutputFormat) (type : EntityType) (layout : Layout) (rows : List Row) :
    Except QueryError Output × List Notice :=
  match format with
  | .array => let (records, notices) := Decode.rows layout rows; (.ok (.array records), notices)
  | .object => let (records, notices) := Decode.rows layout rows; (.ok (.object records), notices)
  | .entity => let (hydrated, notices) := hydrate type layout rows; (hydrated.map .entity, notices)

end Output
end EagerLoad
