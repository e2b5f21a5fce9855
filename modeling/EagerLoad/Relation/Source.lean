import EagerLoad.Entity
import EagerLoad.Filter.Draft

/-! # Where a relation is read from

A source knows the tables a relation reads, how they are joined, and which column links the related
rows with their owner. The link is a correlation with an outer row or a list of owner keys. -/
namespace EagerLoad

/-- What compilation reads: the dialect, the known entities, the localizations found so far and the
locale. -/
structure Context where
  dialect : Dialect
  registry : Registry
  memo : Memo
  locale : Option String

inductive Link where
  | correlated (baseAlias : String)
  | keys (values : List DbValue)

def Localization.join (l : Localization) (ownerAlias ownerKey satelliteAlias locale : String) :
    Sql.Draft :=
  [.text " LEFT JOIN ", .name l.satellite, .text " AS ", .name satelliteAlias, .text " ON "] ++
    Sql.Draft.qualified ownerAlias ownerKey ++
    .text " = " :: Sql.Draft.qualified satelliteAlias l.foreignKey ++
    .text " AND " :: Sql.Draft.qualified satelliteAlias l.localeColumn ++
    [.text " = ", .bind (.text locale)]

structure Source where
  name : String
  relation : Relation
  related : Entity
  localization : Option Localization

namespace Source

/-- The localization of a related entity, wanted only in a locale. -/
def localization? (ctx : Context) (related : Entity) (localized : Bool) : Option Localization :=
  if localized && ctx.locale.isSome then ctx.memo.localization? related else none

def resolve (ctx : Context) (base : Entity) (name : String) (localized : Bool) :
    Except CompileError Source :=
  match base.relation? name with
  | none => .error (.unknownRelation base.type name)
  | some relation =>
    match ctx.registry.resolve relation.related with
    | .error e => .error e
    | .ok related =>
      .ok { name, relation, related, localization := localization? ctx related localized }

/-- Goes on with the source of a relation, after noting that its localization was looked up. -/
def andThen (ctx : Context) (base : Entity) (name : String) (localized : Bool)
    (next : Source → Sql.Draft) : Sql.Draft :=
  Sql.Draft.andThen (resolve ctx base name localized) fun source =>
    (if localized && ctx.locale.isSome then
      [.consult source.related.type source.localization]
    else []) ++ next source

def relatedAlias (s : Source) : String := s.name ++ "_rel"
def pivotAlias (s : Source) : String := s.name ++ "_pivot"
def throughAlias (s : Source) : String := s.name ++ "_through"
def satelliteAlias (s : Source) : String := s.name ++ "_trans"

def rowsAlias (s : Source) : String := s.name ++ "_rows"

def localizedFields (s : Source) : List String := (s.localization.map (·.fields)).getD []

/-- Undotted columns belong to the related table, localized ones to its satellite. -/
def qualifier (s : Source) : Qualifier :=
  (Qualifier.ofTable s.relatedAlias).localize s.satelliteAlias s.localizedFields

def ownerColumn (s : Source) : String × String :=
  match s.relation with
  | .belongsTo _ _ ownerKey => (s.relatedAlias, ownerKey)
  | .hasOne _ foreignKey _ | .hasMany _ foreignKey _ => (s.relatedAlias, foreignKey)
  | .morphOne _ m | .morphMany _ m => (s.relatedAlias, m.idColumn)
  | .belongsToMany _ p => (s.pivotAlias, p.foreignPivotKey)
  | .hasManyThrough _ t => (s.throughAlias, t.firstKey)

def owner (s : Source) : Sql.Draft := Sql.Draft.qualified s.ownerColumn.1 s.ownerColumn.2

def tableAs (keyword table name : String) : Sql.Draft :=
  [.text keyword, .name table, .text " AS ", .name name]

def tables (s : Source) : Sql.Draft :=
  match s.relation with
  | .belongsToMany _ p =>
    tableAs " FROM " p.table s.pivotAlias ++
      tableAs " INNER JOIN " s.related.table s.relatedAlias ++
      .text " ON " :: Sql.Draft.qualified s.relatedAlias p.relatedKey ++
      .text " = " :: Sql.Draft.qualified s.pivotAlias p.relatedPivotKey
  | .hasManyThrough _ t =>
    tableAs " FROM " s.related.table s.relatedAlias ++
      tableAs " INNER JOIN " t.table s.throughAlias ++
      .text " ON " :: Sql.Draft.qualified s.throughAlias t.secondLocalKey ++
      .text " = " :: Sql.Draft.qualified s.relatedAlias t.secondKey
  | _ => tableAs " FROM " s.related.table s.relatedAlias

/-- The tables, joined with the satellite if the source is localized. -/
def fromClause (s : Source) (locale : Option String) : Sql.Draft :=
  s.tables ++ match s.localization, locale with
    | some l, some locale => l.join s.relatedAlias s.related.primaryKey s.satelliteAlias locale
    | _, _ => []

/-- The column and the value of the owner's class, if the relation is polymorphic. -/
def morphTest (s : Source) (base : Entity) : Option (String × String × String) :=
  match s.relation with
  | .morphOne _ m | .morphMany _ m => some (s.relatedAlias, m.typeColumn, base.morphClass)
  | .belongsToMany _ p => p.morph.map fun m =>
    (s.pivotAlias, m.typeColumn, m.typeValue.getD base.morphClass)
  | _ => none

/-- The tie between related rows and their owners. No keys tie nothing. -/
def link (s : Source) : Link → Sql.Draft
  | .correlated baseAlias =>
    s.owner ++ .text " = " :: Sql.Draft.qualified baseAlias s.relation.baseKey
  | .keys [] => [.text "1 = 0"]
  | .keys values => s.owner ++ .text " IN (" :: Sql.Draft.bindList values ++ [.text ")"]

/-- The tie, the owner's class and the test that a related row is not deleted. -/
def scope (s : Source) (base : Entity) (link : Link) : Sql.Draft :=
  s.link link ++
    (match s.morphTest base with
      | some (table, column, value) =>
        .text " AND " :: Sql.Draft.qualified table column ++ [.text " = ", .bind (.text value)]
      | none => []) ++
    (if s.related.softDeletes then
      .text " AND " :: Sql.Draft.qualified s.relatedAlias "deleted_at" ++ [.text " IS NULL"]
    else [])

/-- All from FROM to the conditions of a filter, which stand in parentheses. -/
def body (s : Source) (locale : Option String) (base : Entity) (filter : Option Filter)
    (link : Link) : Sql.Draft :=
  s.fromClause locale ++ .text " WHERE " :: s.scope base link ++
    match filter with
    | some f =>
      if f.hasConditions then .text " AND (" :: f.conditions s.qualifier ++ [.text ")"] else []
    | none => []

def orderClause (s : Source) (terms : List OrderTerm) : Sql.Draft :=
  if terms.isEmpty then [] else .text " ORDER BY " :: orderDraft s.qualifier terms

end Source
end EagerLoad
