import LinkedSearch.Schema.FieldType

/-!
# Mappings

The mapping of an index gives the type of each field under its full dotted name, the nested scope a
field lives in, and the field that holds the key of each document.

* `Mapping.nestedPath?`: the nested scope of a field, from its own entry or from the nearest field
  of type `nested` that encloses it.
* `Mapping.hasDateCompanion`: whether the field is also indexed as a date, in a field of its own.
-/

namespace LinkedSearch.Schema

/-- The entry of one field. -/
structure FieldMapping where
  type : FieldType
  /-- The nested scope, where the entry names it. -/
  nestedPath : Option String := none
  deriving DecidableEq, Inhabited, Repr

namespace FieldMapping

/-- The exchange form of an entry. -/
def toJson (entry : FieldMapping) : Json :=
  .ofPresent [("field_type", some entry.type.toJson), ("nested_path", entry.nestedPath.map .str)]

/-- The entry a document describes. -/
def ofJson? (value : Json) : Option FieldMapping := do
  match ← value.fields? ["field_type", "nested_path"] with
  | [type, nestedPath] =>
    some ⟨← Json.required FieldType.ofJson? type, ← Json.optional Json.string? nestedPath⟩
  | _ => none

end FieldMapping

/-- The mapping of one index. -/
structure Mapping where
  index : String
  primaryKey : String
  /-- Scans of the index are not restricted to visible documents. -/
  alwaysVisible : Bool := false
  /-- Entries by full field name. -/
  fields : List (String × FieldMapping) := []
  deriving DecidableEq, Inhabited, Repr

/-- What is appended to the name of a field to name its companion of type date. -/
def dateCompanionSuffix : String := ".date"

/-- The name of the companion of a field that is indexed as a date. -/
def dateCompanion (field : String) : String := field ++ dateCompanionSuffix

/-- The names of the fields that enclose a dotted name, nearest first; the name is given in
reverse. -/
def enclosingReversed : List Char → List String
  | [] => []
  | c :: rest =>
    if c = '.' then String.ofList rest.reverse :: enclosingReversed rest
    else enclosingReversed rest

/-- The names of the fields that enclose a field, nearest first. -/
def enclosing (field : String) : List String := enclosingReversed field.toList.reverse

namespace Mapping

/-- The mapping of an index with an integer primary key and no other field. -/
def keyed (index primaryKey : String) : Mapping :=
  { index, primaryKey, fields := [(primaryKey, { type := .long })] }

/-- The mapping with one more entry. -/
def withField (name : String) (entry : FieldMapping) (mapping : Mapping) : Mapping :=
  { mapping with fields := Keyed.insert name entry mapping.fields }

/-- The entry of a field. -/
def field? (mapping : Mapping) (name : String) : Option FieldMapping :=
  Keyed.find? name mapping.fields

/-- The type of a field. -/
def type? (mapping : Mapping) (name : String) : Option FieldType :=
  (mapping.field? name).map (·.type)

/-- Whether the index has a field; the primary key needs no entry. -/
def hasField (mapping : Mapping) (name : String) : Bool :=
  mapping.primaryKey == name || (mapping.field? name).isSome

/-- Whether a field is the primary key. -/
def isPrimaryKey (mapping : Mapping) (name : String) : Bool := mapping.primaryKey == name

/-- The analyzer of a field. -/
def analyzer? (mapping : Mapping) (name : String) : Option String :=
  (mapping.type? name).bind FieldType.analyzer

/-- Whether a field has a companion of type date. -/
def hasDateCompanion (mapping : Mapping) (name : String) : Bool :=
  (mapping.type? (dateCompanion name)).any FieldType.isDate

/-- **Nested scope** of a field: the one its entry names, or else the nearest enclosing field of
type `nested`. -/
def nestedPath? (mapping : Mapping) (name : String) : Option String :=
  match (mapping.field? name).bind (·.nestedPath) with
  | some path => some path
  | none => (enclosing name).find? fun parent => mapping.type? parent = some .nested

/-- The names of all fields, sorted. -/
def fieldNames (mapping : Mapping) : List String := Keyed.keys mapping.fields

/-- The primary key always belongs to the index. -/
@[simp] theorem hasField_primaryKey (mapping : Mapping) :
    mapping.hasField mapping.primaryKey = true := by simp [hasField]

/-- The exchange form of a mapping. -/
def toJson (mapping : Mapping) : Json :=
  .ofMembers [("index_name", .str mapping.index), ("primary_key", .str mapping.primaryKey),
    ("no_xact", .bool mapping.alwaysVisible),
    ("fields", .obj (Keyed.mapValues FieldMapping.toJson mapping.fields))]

/-- The mapping a document describes. -/
def ofJson? (value : Json) : Option Mapping := do
  match ← value.fields? ["index_name", "primary_key", "no_xact", "fields"] with
  | [index, primaryKey, alwaysVisible, fields] =>
    some {
      index := ← Json.required Json.string? index
      primaryKey := ← Json.required Json.string? primaryKey
      alwaysVisible := ← Json.withDefault false Json.bool? alwaysVisible
      fields := ← Json.withDefault [] (Json.table? FieldMapping.ofJson?) fields }
  | _ => none

end Mapping

end LinkedSearch.Schema
