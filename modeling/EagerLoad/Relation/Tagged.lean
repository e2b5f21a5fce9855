import EagerLoad.Relation.Basic

/-! # Relations in JSON

A relation is written as the name of its variant with its fields. -/
namespace EagerLoad

def PivotMorph.toJson (m : PivotMorph) : Json :=
  .obj [("type_column", .str m.typeColumn), ("type_value", Json.ofOption .str m.typeValue)]

def PivotMorph.ofJson? (j : Json) : Option PivotMorph := do
  match ← Json.record? ["type_column", "type_value"] j with
  | [column, value] =>
    let typeColumn ← Json.required? Json.string? column
    let typeValue ← Json.optional? Json.string? value
    some { typeColumn, typeValue }
  | _ => none

def Pivot.toJson (p : Pivot) : Json :=
  .obj [("table", .str p.table), ("foreign_pivot_key", .str p.foreignPivotKey),
    ("related_pivot_key", .str p.relatedPivotKey), ("parent_key", .str p.parentKey),
    ("related_key", .str p.relatedKey), ("morph", Json.ofOption PivotMorph.toJson p.morph)]

def Pivot.ofJson? (j : Json) : Option Pivot := do
  match ← Json.record? ["table", "foreign_pivot_key", "related_pivot_key", "parent_key",
      "related_key", "morph"] j with
  | [table, foreign, relatedPivot, parent, related, morph] =>
    let table ← Json.required? Json.string? table
    let foreignPivotKey ← Json.required? Json.string? foreign
    let relatedPivotKey ← Json.required? Json.string? relatedPivot
    let parentKey ← Json.required? Json.string? parent
    let relatedKey ← Json.required? Json.string? related
    let morph ← Json.optional? PivotMorph.ofJson? morph
    some { table, foreignPivotKey, relatedPivotKey, parentKey, relatedKey, morph }
  | _ => none

def Morph.toJson (m : Morph) : Json :=
  .obj [("type_column", .str m.typeColumn), ("id_column", .str m.idColumn),
    ("local_key", .str m.localKey)]

def Morph.ofJson? (j : Json) : Option Morph := do
  match ← (← Json.record? ["type_column", "id_column", "local_key"] j).mapM
      (Json.required? Json.string?) with
  | [typeColumn, idColumn, localKey] => some { typeColumn, idColumn, localKey }
  | _ => none

def Through.toJson (t : Through) : Json :=
  .obj [("table", .str t.table), ("first_key", .str t.firstKey), ("second_key", .str t.secondKey),
    ("local_key", .str t.localKey), ("second_local_key", .str t.secondLocalKey)]

def Through.ofJson? (j : Json) : Option Through := do
  let fields ← Json.record? ["table", "first_key", "second_key", "local_key", "second_local_key"] j
  match ← fields.mapM (Json.required? Json.string?) with
  | [table, firstKey, secondKey, localKey, secondLocalKey] =>
    some { table, firstKey, secondKey, localKey, secondLocalKey }
  | _ => none

namespace Relation

def toJson : Relation → Json
  | belongsTo related foreignKey ownerKey => .obj [("BelongsTo", .obj
      [("related", .str related), ("foreign_key", .str foreignKey), ("owner_key", .str ownerKey)])]
  | hasOne related foreignKey localKey => .obj [("HasOne", .obj
      [("related", .str related), ("foreign_key", .str foreignKey), ("local_key", .str localKey)])]
  | hasMany related foreignKey localKey => .obj [("HasMany", .obj
      [("related", .str related), ("foreign_key", .str foreignKey), ("local_key", .str localKey)])]
  | hasManyThrough related t => .obj [("HasManyThrough", .obj
      [("related", .str related), ("through", t.toJson)])]
  | belongsToMany related p => .obj [("BelongsToMany", .obj
      [("related", .str related), ("pivot", p.toJson)])]
  | morphOne related m => .obj [("MorphOne", .obj
      [("related", .str related), ("morph", m.toJson)])]
  | morphMany related m => .obj [("MorphMany", .obj
      [("related", .str related), ("morph", m.toJson)])]

private def keyed? (build : String → String → String → Relation) (lastKey : String)
    (fields : List (String × Json)) : Option Relation := do
  match ← (← Json.record? ["related", "foreign_key", lastKey] (.obj fields)).mapM
      (Json.required? Json.string?) with
  | [related, foreignKey, last] => some (build related foreignKey last)
  | _ => none

private def configured? (build : String → α → Relation) (name : String) (read : Json → Option α)
    (fields : List (String × Json)) : Option Relation := do
  let related ← Json.required? Json.string? (fields.lookup "related")
  let contents ← Json.required? read (fields.lookup name)
  some (build related contents)

def ofJson? (j : Json) : Option Relation := do
  match ← Json.variant? j with
  | (name, some (.obj fields)) =>
    match name with
    | "BelongsTo" => keyed? belongsTo "owner_key" fields
    | "HasOne" => keyed? hasOne "local_key" fields
    | "HasMany" => keyed? hasMany "local_key" fields
    | "HasManyThrough" => configured? hasManyThrough "through" Through.ofJson? fields
    | "BelongsToMany" => configured? belongsToMany "pivot" Pivot.ofJson? fields
    | "MorphOne" => configured? morphOne "morph" Morph.ofJson? fields
    | "MorphMany" => configured? morphMany "morph" Morph.ofJson? fields
    | _ => none
  | _ => none

end Relation
end EagerLoad
