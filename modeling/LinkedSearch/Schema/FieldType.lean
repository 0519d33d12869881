import LinkedSearch.Error
import LinkedSearch.Json.Decode

/-!
# Field types

The type of a field says how its values are indexed: text is split into words, a keyword is one
term, and the other types are not text at all. A document value may be `null` or, except for nested
objects, a list of values of the type.

* `FieldType.validate`: the problem of a value with a type.
* `FieldType.Accepts`: the same judgement as a predicate on values.
-/

namespace LinkedSearch.Schema

/-- The type of a field. -/
inductive FieldType where
  | text (analyzer : String)
  | keyword (normalizer : Option String)
  | long
  | double
  | boolean
  | date (format : String)
  /-- A list of objects, each indexed as a document of its own. -/
  | nested
  deriving DecidableEq, Inhabited, Repr

namespace FieldType

/-- The analyzer of text without a given one. -/
def defaultAnalyzer : String := "standard"

/-- The format of dates without a given one. -/
def defaultDateFormat : String := "strict_date_optional_time||epoch_millis"

/-- The analyzer whose fields need a term twice before it counts for similarity. -/
def fulltextAnalyzer : String := "fulltext"

/-- Text with the default analyzer. -/
def plainText : FieldType := .text defaultAnalyzer

/-- The name of a type in mappings. -/
def storageName : FieldType → String
  | text _ => "text"
  | keyword _ => "keyword"
  | long => "long"
  | double => "double"
  | boolean => "boolean"
  | date _ => "date"
  | nested => "nested"

/-- Whether the values of a type are strings. -/
def isString : FieldType → Bool
  | text _ | keyword _ => true
  | _ => false

/-- Whether the values of a type are split into words. -/
def isAnalyzed : FieldType → Bool
  | text _ => true
  | _ => false

/-- Whether the values of a type are dates. -/
def isDate : FieldType → Bool
  | date _ => true
  | _ => false

/-- The analyzer or normalizer applied to the values. -/
def analyzer : FieldType → Option String
  | text analyzer => some analyzer
  | keyword normalizer => normalizer
  | _ => none

/-- The problem of a value that is no list. -/
def validateItem : FieldType → Json → Except FieldProblem Unit
  | _, .null => .ok ()
  | text _, .str _ | keyword _, .str _ => .ok ()
  | text _, _ => .error (.notText "text")
  | keyword _, _ => .error (.notText "keyword")
  | long, .int _ => .ok ()
  | long, _ => .error .notInteger
  | double, .int _ | double, .float _ => .ok ()
  | double, _ => .error .notNumeric
  | boolean, .bool _ => .ok ()
  | boolean, _ => .error .notBoolean
  | date _, .str _ | date _, .int _ | date _, .float _ => .ok ()
  | date _, _ => .error .notDate
  | nested, .arr _ | nested, .obj _ => .ok ()
  | nested, _ => .error .notNested

mutual

/-- **Validation** of a value: lists of a type other than `nested` are valid when their items are,
and the first problem in a list is reported. -/
def validate (type : FieldType) : Json → Except FieldProblem Unit
  | .arr items => if type = nested then .ok () else validateItems type items
  | value => type.validateItem value

/-- Validation of the items of a list. -/
def validateItems (type : FieldType) : List Json → Except FieldProblem Unit
  | [] => .ok ()
  | item :: rest => do
    validate type item
    validateItems type rest

end

/-- Whether a value conforms to a type. -/
def Accepts (type : FieldType) (value : Json) : Prop := type.validate value = .ok ()

instance (type : FieldType) (value : Json) : Decidable (type.Accepts value) := by
  unfold Accepts
  exact match h : type.validate value with
    | .ok () => isTrue rfl
    | .error _ => isFalse nofun

/-- Every type accepts `null`. -/
theorem accepts_null (type : FieldType) : type.Accepts .null := by
  cases type <;> simp [Accepts, validate, validateItem]

/-- The exchange form of a type: its name, or its name with its settings. -/
def toJson : FieldType → Json
  | text analyzer => .single "text" (.single "analyzer" (.str analyzer))
  | keyword normalizer => .single "keyword" (.single "normalizer" (normalizer.elim .null .str))
  | date format => .single "date" (.single "format" (.str format))
  | type => .str type.storageName

/-- The type a document describes. -/
def ofJson? (value : Json) : Option FieldType := do
  let setting? (name : String) (content : Json) : Option (Option Json) := do
    match ← content.fields? [name] with
    | [setting] => some setting
    | _ => none
  let plain? (type : FieldType) (content : Option Json) : Option FieldType :=
    match content with
    | none | some .null => some type
    | some _ => none
  match ← value.variant? with
  | ("text", some content) =>
    some (.text (← Json.withDefault defaultAnalyzer Json.string? (← setting? "analyzer" content)))
  | ("keyword", some content) =>
    some (.keyword (← Json.optional Json.string? (← setting? "normalizer" content)))
  | ("date", some content) =>
    some (.date (← Json.withDefault defaultDateFormat Json.string? (← setting? "format" content)))
  | ("long", content) => plain? .long content
  | ("double", content) => plain? .double content
  | ("boolean", content) => plain? .boolean content
  | ("nested", content) => plain? .nested content
  | _ => none

end FieldType

end LinkedSearch.Schema
