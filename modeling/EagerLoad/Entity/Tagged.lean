import EagerLoad.Entity
import EagerLoad.Relation.Tagged

/-! # Entities in JSON

An entity is written with its type, its table and its columns, and with whatever else it declares. A
relation is written in its own JSON form, or as the name of the function that builds it, the
arguments, and the changes made to the result. -/
namespace EagerLoad

namespace Relation

def ofCall? (function : String) (arguments : List String) : Option Relation :=
  match function, arguments with
  | "belongs_to", [related, foreignKey, ownerKey] => some (belongsTo related foreignKey ownerKey)
  | "has_one", [related, foreignKey, localKey] => some (hasOne related foreignKey localKey)
  | "has_many", [related, foreignKey, localKey] => some (hasMany related foreignKey localKey)
  | "belongs_to_many", [related, table, foreignKey, relatedKey] =>
    some (manyToMany related table foreignKey relatedKey)
  | "morph_to_many", [related, table, name, relatedKey] =>
    some (morphToMany related table name relatedKey)
  | "morph_one", [related, name] => some (morphOne related (Morph.ofName name))
  | "morph_many", [related, name] => some (morphMany related (Morph.ofName name))
  | "has_many_through", [related, table, firstKey, secondKey] =>
    some (through related table firstKey secondKey)
  | _, _ => none

def change? (r : Relation) : List String → Option Relation
  | ["pivot_keys", parentKey, relatedKey] => some (r.withPivotKeys parentKey relatedKey)
  | ["local_key", localKey] => some (r.withLocalKey localKey)
  | ["morph_type", type] => some (r.withMorphType type)
  | _ => none

/-- Reads a relation in either of its forms. -/
def read? (j : Json) : Option Relation :=
  match j.field? "fn" with
  | none => ofJson? j
  | some function => do
    let built ← ofCall? (← function.string?) (← (j.get "args").strings?)
    (← (j.get "with").listOrEmpty? Json.strings?).foldlM change? built

end Relation

def LocalizationSchema.ofJson? (j : Json) : Option LocalizationSchema := do
  let fields ← (j.get "fields").strings?
  let table ← (j.get "table").nullable? Json.string?
  let foreignKey ← (j.get "foreign_key").nullable? Json.string?
  let localeColumn ← (j.get "locale_column").nullable? Json.string?
  some { fields, table, foreignKey, localeColumn := localeColumn.getD "locale" }

namespace Entity

private def namedRelation? : Json → Option (String × Relation)
  | .arr [name, relation] => do some (← name.string?, ← Relation.read? relation)
  | _ => none

/-- Reads an entity. A bare one has only its type, its table and its columns. -/
def ofJson? (j : Json) : Option Entity := do
  let type ← (j.get "type").string?
  let table ← (j.get "table").string?
  let columns ← (j.get "columns").listOrEmpty? Json.string?
  if ← (j.get "bare").flag? then
    some { type, table, columns }
  else
    let primaryKey ← (j.get "primary_key").nullable? Json.string?
    let relations ← (j.get "relations").listOrEmpty? namedRelation?
    let e : Entity :=
      { type, table, columns
        primaryKey := primaryKey.getD "id"
        timestamps := ← (j.get "timestamps").flag?
        softDeletes := ← (j.get "soft_deletes").flag?
        localized := ← (j.get "translation").nullable? LocalizationSchema.ofJson?
        morphName := ← (j.get "morph_class").nullable? Json.string? }
    some (relations.foldl (fun e r => e.withRelation r.1 r.2) e)

end Entity
end EagerLoad
