import EagerLoad.Json.Reading

/-! # Relations between entities

A relation is declared by an entity and leads to another one, directly by a key, through a table in
between, over a pivot table, or by a key that goes with the name of the owner's class. -/
namespace EagerLoad

/-- The column of a pivot table that holds the owner's class, and the class if it is fixed. -/
structure PivotMorph where
  typeColumn : String
  typeValue : Option String
deriving DecidableEq, Repr

structure Pivot where
  table : String
  foreignPivotKey : String
  relatedPivotKey : String
  parentKey : String
  relatedKey : String
  morph : Option PivotMorph
deriving DecidableEq, Repr

/-- The columns by which a related row names its owner and the owner's class. -/
structure Morph where
  typeColumn : String
  idColumn : String
  localKey : String
deriving DecidableEq, Repr

/-- The entity's table between the owner and the related entity, and the keys on both sides. -/
structure Through where
  table : String
  firstKey : String
  secondKey : String
  localKey : String
  secondLocalKey : String
deriving DecidableEq, Repr

inductive Relation where
  | belongsTo (related foreignKey ownerKey : String)
  | hasOne (related foreignKey localKey : String)
  | hasMany (related foreignKey localKey : String)
  | hasManyThrough (related : String) (through : Through)
  | belongsToMany (related : String) (pivot : Pivot)
  | morphOne (related : String) (morph : Morph)
  | morphMany (related : String) (morph : Morph)
deriving DecidableEq, Repr

inductive RelationKind where
  | single
  | collection
  | manyToMany
  | polymorphic
  | nested
deriving DecidableEq, Repr

namespace RelationKind

def isMany : RelationKind → Bool
  | collection | manyToMany => true
  | _ => false

def name : RelationKind → String
  | single => "single"
  | collection => "collection"
  | manyToMany => "many_to_many"
  | polymorphic => "polymorphic"
  | nested => "nested"

def tag : RelationKind → String
  | single => "Single"
  | collection => "Collection"
  | manyToMany => "ManyToMany"
  | polymorphic => "Polymorphic"
  | nested => "Nested"

def ofTag? : String → Option RelationKind
  | "Single" => some single
  | "Collection" => some collection
  | "ManyToMany" => some manyToMany
  | "Polymorphic" => some polymorphic
  | "Nested" => some nested
  | _ => none

end RelationKind

namespace Morph

def ofName (name : String) : Morph := ⟨name ++ "_type", name ++ "_id", "id"⟩

end Morph

namespace Relation

def through (related table firstKey secondKey : String) : Relation :=
  hasManyThrough related ⟨table, firstKey, secondKey, "id", "id"⟩

def manyToMany (related table foreignPivotKey relatedPivotKey : String) : Relation :=
  belongsToMany related ⟨table, foreignPivotKey, relatedPivotKey, "id", "id", none⟩

/-- A pivot table that also holds the class of the owner. -/
def morphToMany (related table name relatedPivotKey : String) : Relation :=
  belongsToMany related
    ⟨table, name ++ "_id", relatedPivotKey, "id", "id", some ⟨name ++ "_type", none⟩⟩

def related : Relation → String
  | belongsTo r _ _ | hasOne r _ _ | hasMany r _ _ | hasManyThrough r _ | belongsToMany r _
  | morphOne r _ | morphMany r _ => r

/-- The column of the owner that the relation is followed by. -/
def baseKey : Relation → String
  | belongsTo _ foreignKey _ => foreignKey
  | hasOne _ _ localKey | hasMany _ _ localKey => localKey
  | hasManyThrough _ t => t.localKey
  | belongsToMany _ p => p.parentKey
  | morphOne _ m | morphMany _ m => m.localKey

def isMany : Relation → Bool
  | hasMany .. | hasManyThrough .. | belongsToMany .. | morphMany .. => true
  | _ => false

def isPolymorphic : Relation → Bool
  | morphOne .. | morphMany .. => true
  | belongsToMany _ p => p.morph.isSome
  | _ => false

def kind : Relation → RelationKind
  | belongsToMany .. => .manyToMany
  | hasMany .. | hasManyThrough .. | morphMany .. => .collection
  | belongsTo .. | hasOne .. => .single
  | morphOne .. => .polymorphic

def withPivotKeys (r : Relation) (parentKey relatedKey : String) : Relation :=
  match r with
  | belongsToMany related p => belongsToMany related { p with parentKey, relatedKey }
  | r => r

/-- Replaces the owner's key where the relation has one of its own. -/
def withLocalKey (r : Relation) (localKey : String) : Relation :=
  match r with
  | hasOne related foreignKey _ => hasOne related foreignKey localKey
  | hasMany related foreignKey _ => hasMany related foreignKey localKey
  | hasManyThrough related t => hasManyThrough related { t with localKey }
  | morphOne related m => morphOne related { m with localKey }
  | morphMany related m => morphMany related { m with localKey }
  | r => r

def withMorphType (r : Relation) (type : String) : Relation :=
  match r with
  | belongsToMany related p =>
    belongsToMany related { p with morph := p.morph.map fun m => { m with typeValue := some type } }
  | r => r

end Relation
end EagerLoad
