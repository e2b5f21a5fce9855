import EagerLoad.Json.Reading

/-! # Localized columns

An entity may keep some of its columns in a satellite table, once for every locale. The schema names
the columns and may name the table and its keys; the localization has all the names filled in. -/
namespace EagerLoad

/-- What an entity declares about its localized columns. -/
structure LocalizationSchema where
  fields : List String
  table : Option String
  foreignKey : Option String
  localeColumn : String
deriving DecidableEq, Repr

def LocalizationSchema.ofFields (fields : List String) : LocalizationSchema :=
  ⟨fields, none, none, "locale"⟩

/-- Where the localized columns of an entity are found. -/
structure Localization where
  fields : List String
  satellite : String
  foreignKey : String
  localeColumn : String
deriving DecidableEq, Repr

def Localization.covers (l : Localization) (column : String) : Bool := l.fields.contains column

def withoutEnding? (ending word : String) : Option String :=
  if ending.toList.isSuffixOf word.toList then
    some (String.ofList (word.toList.take (word.length - ending.length)))
  else none

def singular (table : String) : String :=
  match withoutEnding? "ies" table with
  | some stem => stem ++ "y"
  | none => match withoutEnding? "ses" table with
    | some stem => stem ++ "s"
    | none => (withoutEnding? "s" table).getD table

/-- Fills in the satellite table and its foreign key after the singular of the entity's table. A
schema without columns localizes nothing. -/
def LocalizationSchema.localize? (schema : LocalizationSchema) (table primaryKey : String) :
    Option Localization :=
  if schema.fields.isEmpty then none
  else some
    { fields := schema.fields
      satellite := schema.table.getD (singular table ++ "_translations")
      foreignKey := schema.foreignKey.getD (singular table ++ "_" ++ primaryKey)
      localeColumn := schema.localeColumn }

def LocalizationSchema.toJson (s : LocalizationSchema) : Json :=
  .obj [("fields", .arr (s.fields.map .str)), ("table", Json.ofOption .str s.table),
    ("foreign_key", Json.ofOption .str s.foreignKey), ("locale_column", .str s.localeColumn)]

def Localization.toJson (l : Localization) : Json :=
  .obj [("fields", .arr (l.fields.map .str)), ("satellite_table", .str l.satellite),
    ("foreign_key", .str l.foreignKey), ("locale_column", .str l.localeColumn)]

end EagerLoad
