import EagerLoad.Error
import EagerLoad.Localization
import EagerLoad.Ordered
import EagerLoad.Relation.Basic

/-! # Entities

An entity describes the rows of a table: its key, its columns, its relations by name, and which
columns are localized. A registry holds entities by type, and a memo the localizations found so
far. -/
namespace EagerLoad

structure Entity where
  type : String
  table : String
  primaryKey : String := "id"
  columns : List String := []
  timestamps : Bool := false
  softDeletes : Bool := false
  relations : List (String × Relation) := []
  localized : Option LocalizationSchema := none
  morphName : Option String := none
deriving DecidableEq, Repr

namespace Entity

/-- The class by which polymorphic relations know the entity. -/
def morphClass (e : Entity) : String := e.morphName.getD e.type

def relation? (e : Entity) (name : String) : Option Relation := e.relations.lookup name

/-- Declares a relation; one of the same name is replaced. -/
def withRelation (e : Entity) (name : String) (r : Relation) : Entity :=
  { e with relations := upsert name r e.relations }

/-- The key, the declared columns and the timestamps, each once. -/
def allColumns (e : Entity) : List String :=
  distinct (e.primaryKey :: e.columns ++
    (if e.timestamps then ["created_at", "updated_at"] else []))

def hasColumn (e : Entity) (column : String) : Bool :=
  e.allColumns.contains column || (e.softDeletes && column == "deleted_at")

def localization? (e : Entity) : Option Localization :=
  e.localized.bind fun schema => schema.localize? e.table e.primaryKey

def localizedFields (e : Entity) : List String :=
  (e.localized.map (·.fields)).getD []

/-- The kind of a relation name. A dotted name is nested; an undeclared one counts as single. -/
def classify (e : Entity) (name : String) : RelationKind :=
  if name.toList.contains '.' then .nested
  else match e.relation? name with
    | some r => r.kind
    | none => .single

def isUndeclared (e : Entity) (name : String) : Bool :=
  !name.toList.contains '.' && (e.relation? name).isNone

end Entity

abbrev Registry := List (String × Entity)

namespace Registry

def register (r : Registry) (e : Entity) : Registry := upsert e.type e r

def get? (r : Registry) (type : String) : Option Entity := r.lookup type

def resolve (r : Registry) (type : String) : Except CompileError Entity :=
  match r.get? type with
  | some e => .ok e
  | none => .error (.unknownEntity type)

end Registry

/-- The localizations found so far by type, absent ones included. -/
abbrev Memo := List (String × Option Localization)

namespace Memo

/-- The remembered localization of an entity, else that of its schema. -/
def localization? (m : Memo) (e : Entity) : Option Localization :=
  match m.lookup e.type with
  | some found => found
  | none => e.localization?

/-- Remembers a localization; the first one of a type stays. -/
def remember (m : Memo) (type : String) (found : Option Localization) : Memo :=
  if (m.lookup type).isSome then m else m ++ [(type, found)]

def forget (m : Memo) (type : String) : Memo := m.filter fun entry => entry.1 != type

def consult (m : Memo) (e : Entity) : Memo := m.remember e.type (m.localization? e)

end Memo
end EagerLoad
