import LinkedSearch.Query.Tree
import LinkedSearch.Json.Decode

/-!
# Exchange form of query trees

A node is written as one object: the `type` of its kind, the members of that kind, the attributes
every node may have, and its children. `Tree.toJson` writes it and `Tree.ofJson?` reads it; a kind
may also be read from its position in the list of kinds.

Reading buffers the members of the kind, because they are mixed with the attributes; nothing but the
tag and the attributes is checked for repetition twice.
-/

namespace LinkedSearch.Query

open Number (Binary Format)

namespace Values

/-- The exchange form of the values of an array. -/
def toJson : Values → Json
  | literal values => .single "literal" (.arr values)
  | external values totalHits =>
    .single "external" (.ofMembers [("values", .arr values), ("total_hits", .ofNat totalHits)])

/-- The values a document describes. -/
def ofJson? (value : Json) : Option Values := do
  match ← value.variant? with
  | ("literal", some content) => some (.literal (← Json.list? Json.any? content))
  | ("external", some content) =>
    match ← content.fields? ["values", "total_hits"] with
    | [values, totalHits] =>
      some (.external (← Json.required (Json.list? Json.any?) values)
        (← Json.required Json.nat64? totalHits))
    | _ => none
  | _ => none

end Values

namespace Kind

/-- The names of all kinds, in declaration order. -/
def names : List String :=
  ["word", "phrase", "range", "wildcard", "fuzzy", "prefix", "null", "not_null", "boolean",
    "number", "array", "array_data", "script", "and", "or", "not", "with", "child", "parent",
    "proximity", "expansion"]

/-- The name of a kind as a tag gives it: by name, or by position. -/
def tagName? : Json → Option String
  | .str name => some name
  | .int n => if 0 ≤ n then names[n.toNat]? else none
  | _ => none

/-- The members of a kind beside its tag. -/
def parts : Kind → List (String × Option Json)
  | word value | number value => [("value", some value)]
  | phrase text escaped distance ordered =>
    [("value", some (.str text)), ("escaped", escaped.map .str),
      ("distance", some (.ofNat distance)), ("ordered", some (.bool ordered))]
  | range lower upper => [("from", some lower), ("to", some upper)]
  | wildcard pattern => [("pattern", some (.str pattern))]
  | fuzzy text fuzziness =>
    [("value", some (.str text)), ("fuzziness", some (.ofNat fuzziness))]
  | leading text => [("value", some (.str text))]
  | boolean value => [("value", some (.bool value))]
  | array values conjunctive =>
    [("values", some values.toJson), ("conjunctive", some (.bool conjunctive))]
  | arrayData key => [("key", some (.str key))]
  | script source => [("source", some (.str source))]
  | child typeName | parent typeName => [("type_name", some (.str typeName))]
  | proximity distance ordered =>
    [("distance", some (.ofNat distance)), ("ordered", some (.bool ordered))]
  | expansion link generated =>
    [("link", some link.toJson), ("generated", some (.bool generated))]
  | null | notNull | conjunction | disjunction | negation | scope => []

/-- The kind with a name, read from the members of a node. -/
def ofMembers? (name : String) (members : List (String × Json)) : Option Kind := do
  let fields? (names : List String) := (Json.obj members).fields? names
  match name with
  | "word" =>
    match ← fields? ["value"] with
    | [value] => some (.word (← Json.required Json.any? value))
    | _ => none
  | "phrase" =>
    match ← fields? ["value", "escaped", "distance", "ordered"] with
    | [text, escaped, distance, ordered] =>
      some (.phrase (← Json.required Json.string? text) (← Json.optional Json.string? escaped)
        (← Json.withDefault 0 Json.nat32? distance) (← Json.withDefault true Json.bool? ordered))
    | _ => none
  | "range" =>
    match ← fields? ["from", "to"] with
    | [lower, upper] =>
      some (.range (← Json.required Json.any? lower) (← Json.required Json.any? upper))
    | _ => none
  | "wildcard" =>
    match ← fields? ["pattern"] with
    | [pattern] => some (.wildcard (← Json.required Json.string? pattern))
    | _ => none
  | "fuzzy" =>
    match ← fields? ["value", "fuzziness"] with
    | [text, fuzziness] =>
      some (.fuzzy (← Json.required Json.string? text) (← Json.withDefault 0 Json.nat32? fuzziness))
    | _ => none
  | "prefix" =>
    match ← fields? ["value"] with
    | [text] => some (.leading (← Json.required Json.string? text))
    | _ => none
  | "null" => some .null
  | "not_null" => some .notNull
  | "boolean" =>
    match ← fields? ["value"] with
    | [value] => some (.boolean (← Json.required Json.bool? value))
    | _ => none
  | "number" =>
    match ← fields? ["value"] with
    | [value] => some (.number (← Json.required Json.any? value))
    | _ => none
  | "array" =>
    match ← fields? ["values", "conjunctive"] with
    | [values, conjunctive] =>
      some (.array (← Json.required Values.ofJson? values)
        (← Json.withDefault false Json.bool? conjunctive))
    | _ => none
  | "array_data" =>
    match ← fields? ["key"] with
    | [key] => some (.arrayData (← Json.required Json.string? key))
    | _ => none
  | "script" =>
    match ← fields? ["source"] with
    | [source] => some (.script (← Json.required Json.string? source))
    | _ => none
  | "and" => some .conjunction
  | "or" => some .disjunction
  | "not" => some .negation
  | "with" => some .scope
  | "child" =>
    match ← fields? ["type_name"] with
    | [typeName] => some (.child (← Json.required Json.string? typeName))
    | _ => none
  | "parent" =>
    match ← fields? ["type_name"] with
    | [typeName] => some (.parent (← Json.required Json.string? typeName))
    | _ => none
  | "proximity" =>
    match ← fields? ["distance", "ordered"] with
    | [distance, ordered] =>
      some (.proximity (← Json.required Json.nat32? distance)
        (← Json.withDefault true Json.bool? ordered))
    | _ => none
  | "expansion" =>
    match ← fields? ["link", "generated"] with
    | [link, generated] =>
      some (.expansion (← Json.required Link.ofJson? link)
        (← Json.withDefault false Json.bool? generated))
    | _ => none
  | _ => none

end Kind

namespace Label

/-- The members of a node beside its children; absent attributes are left out. -/
def members (label : Label) : List (String × Option Json) :=
  [("type", some (.str label.kind.name))] ++ label.kind.parts
    ++ [("field", label.field.map .str), ("operator", some (.str label.operator.name)),
      ("boost", label.boost.map .ofBinary), ("nested_path", label.nestedPath.map .str)]

/-- The keys of a node that do not belong to its kind. -/
def attributeNames : List String := ["field", "operator", "boost", "nested_path", "children"]

/-- The label read from the members of a node. -/
def ofMembers? (members : List (String × Json)) : Option Label := do
  -- the members of the kind are checked where they are read
  if ¬Json.unrepeated ("type" :: attributeNames) members then failure
  let name ← Json.required Kind.tagName? (Keyed.find? "type" members)
  let ofOperator? (value : Json) : Option Operator := do
    Operator.ofName? (← value.plainVariant? false)
  some {
    kind := ← Kind.ofMembers? name members
    field := ← Json.optional Json.string? (Keyed.find? "field" members)
    operator := ← Json.withDefault .contains ofOperator? (Keyed.find? "operator" members)
    boost := ← Json.optional (Json.binary? .single) (Keyed.find? "boost" members)
    nestedPath := ← Json.optional Json.string? (Keyed.find? "nested_path" members) }

end Label

namespace Tree

mutual

/-- **Exchange form** of a tree. -/
def toJson : Tree → Json
  | node label children =>
    .ofPresent (label.members ++ [("children", childrenToJson? children)])

/-- The member for the children, left out where there are none. -/
def childrenToJson? : List Tree → Option Json
  | [] => none
  | tree :: rest => some (.arr (tree.toJson :: itemsToJson rest))

/-- The exchange forms of a list of trees. -/
def itemsToJson : List Tree → List Json
  | [] => []
  | tree :: rest => tree.toJson :: itemsToJson rest

end

mutual

/-- **Reading a tree**: a node and its children are one object. -/
def ofJson? : Json → Option Tree
  | .obj members => do
    let label ← Label.ofMembers? members
    let children ← childrenOf? members
    some (.node label children)
  | _ => none

/-- The trees of the member for the children; without that member there are none. -/
def childrenOf? : List (String × Json) → Option (List Tree)
  | [] => some []
  | (key, value) :: rest =>
    if key = "children" then
      match value with
      | .arr items => itemsOf? items
      | _ => none
    else childrenOf? rest

/-- The trees of a list. -/
def itemsOf? : List Json → Option (List Tree)
  | [] => some []
  | item :: rest => do
    let tree ← ofJson? item
    let trees ← itemsOf? rest
    some (tree :: trees)

end

end Tree

end LinkedSearch.Query
