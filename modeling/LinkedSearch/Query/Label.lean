import LinkedSearch.Link
import LinkedSearch.Json.Printer

/-!
# Labels of query nodes

A node of a query tree says what it is (`Kind`), and carries the attributes every node may have: a
field, an operator, a boost and a nested path. Leaves are predicates on a field; the other kinds
combine their children, evaluate them in a scope, or refer to another index.

* `Kind.isLeaf` separates predicates from the rest.
* `Label.text`, `Label.value`, `Label.sourceText`: the value of a predicate as plain text, as a
  JSON value, and with backslash escapes kept.
* `Label.description`: the line of a node in a dump.
-/

namespace LinkedSearch.Query

open Number (Binary Format)

/-- The operator between a field and a value. -/
inductive Operator where
  | equal
  | notEqual
  | contains
  | less
  | greater
  | atMost
  | atLeast
  | regex
  | concept
  | fuzzyConcept
  deriving DecidableEq, Inhabited, Repr

namespace Operator

/-- Every operator, in declaration order. -/
def all : List Operator :=
  [equal, notEqual, contains, less, greater, atMost, atLeast, regex, concept, fuzzyConcept]

/-- The spelling of an operator in the query language. -/
def symbol : Operator → String
  | equal => "="
  | notEqual => "!="
  | contains => ":"
  | less => "<"
  | greater => ">"
  | atMost => "<="
  | atLeast => ">="
  | regex => ":~"
  | concept => ":@"
  | fuzzyConcept => ":@~"

/-- The name of an operator in a document. -/
def name : Operator → String
  | equal => "EQ"
  | notEqual => "NE"
  | contains => "CONTAINS"
  | less => "LT"
  | greater => "GT"
  | atMost => "LTE"
  | atLeast => "GTE"
  | regex => "REGEX"
  | concept => "CONCEPT"
  | fuzzyConcept => "FUZZY_CONCEPT"

/-- The name of an operator in a dump. -/
def title : Operator → String
  | equal => "Eq"
  | notEqual => "Ne"
  | contains => "Contains"
  | less => "Lt"
  | greater => "Gt"
  | atMost => "Lte"
  | atLeast => "Gte"
  | regex => "Regex"
  | concept => "Concept"
  | fuzzyConcept => "FuzzyConcept"

/-- The operator with a document name. -/
def ofName? (text : String) : Option Operator := all.find? fun operator => operator.name = text

/-- Every operator is found under its own name. -/
@[simp] theorem ofName?_name (operator : Operator) : ofName? operator.name = some operator := by
  cases operator <;> decide

end Operator

/-- The values of an array leaf: written in the query, or collected by a scan that matched
`totalHits` documents. -/
inductive Values where
  | literal (values : List Json)
  | external (values : List Json) (totalHits : Nat)
  deriving DecidableEq, Inhabited

namespace Values

/-- The values themselves. -/
def list : Values → List Json
  | literal values => values
  | external values _ => values

/-- Whether the values were collected by a scan. -/
def isExternal : Values → Bool
  | literal _ => false
  | external _ _ => true

/-- The number a conjunctive array has to match: the literal values, or the hits of the scan. -/
def count : Values → Nat
  | literal values => values.length
  | external _ totalHits => totalHits

@[simp] theorem list_literal (values : List Json) : (literal values).list = values := rfl
@[simp] theorem list_external (values : List Json) (totalHits : Nat) :
    (external values totalHits).list = values := rfl

end Values

/-- What a query node is. -/
inductive Kind where
  /-- A single value. -/
  | word (value : Json)
  /-- A phrase; `escaped` is its text with the backslash escapes kept. -/
  | phrase (text : String) (escaped : Option String) (distance : Nat) (ordered : Bool)
  /-- A closed interval. -/
  | range (lower upper : Json)
  | wildcard (pattern : String)
  | fuzzy (text : String) (fuzziness : Nat)
  /-- A text that a value starts with. -/
  | leading (text : String)
  /-- No value. -/
  | null
  /-- Some value. -/
  | notNull
  | boolean (value : Bool)
  | number (value : Json)
  /-- Some of a list of values, or all of them. -/
  | array (values : Values) (conjunctive : Bool)
  /-- A block of values supplied beside the query. -/
  | arrayData (key : String)
  | script (source : String)
  | conjunction
  | disjunction
  | negation
  /-- Children that hold of one and the same nested object. -/
  | scope
  | child (typeName : String)
  | parent (typeName : String)
  | proximity (distance : Nat) (ordered : Bool)
  /-- A query on another index, its first child. `generated` marks links that were synthesized. -/
  | expansion (link : Link) (generated : Bool)
  deriving DecidableEq, Inhabited

namespace Kind

/-- The name of a kind in documents, dumps and errors. -/
def name : Kind → String
  | word _ => "word"
  | phrase .. => "phrase"
  | range .. => "range"
  | wildcard _ => "wildcard"
  | fuzzy .. => "fuzzy"
  | leading _ => "prefix"
  | null => "null"
  | notNull => "not_null"
  | boolean _ => "boolean"
  | number _ => "number"
  | array .. => "array"
  | arrayData _ => "array_data"
  | script _ => "script"
  | conjunction => "and"
  | disjunction => "or"
  | negation => "not"
  | scope => "with"
  | child _ => "child"
  | parent _ => "parent"
  | proximity .. => "proximity"
  | expansion .. => "expansion"

/-- Whether a kind is a predicate on a field. -/
def isLeaf : Kind → Bool
  | conjunction | disjunction | negation | scope | child _ | parent _ | proximity ..
  | expansion .. => false
  | _ => true

/-- Whether a kind is a proximity of its children. -/
def isProximity : Kind → Bool
  | proximity .. => true
  | _ => false

/-- Whether a kind evaluates its child on the parent documents. -/
def isParent : Kind → Bool
  | parent _ => true
  | _ => false

/-- Whether a kind refers to another index. -/
def isExpansion : Kind → Bool
  | expansion .. => true
  | _ => false

/-- The link of an expansion. -/
def link? : Kind → Option Link
  | expansion link _ => some link
  | _ => none

/-- Whether a kind is an expansion over a synthesized link. -/
def isGenerated : Kind → Bool
  | expansion _ generated => generated
  | _ => false

/-- Only expansions have a link. -/
theorem eq_expansion_of_link? {kind : Kind} {link : Link} (h : kind.link? = some link) :
    ∃ generated, kind = .expansion link generated := by
  cases kind with
  | expansion other generated =>
    obtain rfl := Option.some.inj h
    exact ⟨generated, rfl⟩
  | _ => cases h

theorem isExpansion_of_link? {kind : Kind} {link : Link} (h : kind.link? = some link) :
    kind.isExpansion = true := by
  obtain ⟨generated, rfl⟩ := eq_expansion_of_link? h
  rfl

/-- An expansion has a link. -/
theorem exists_of_isExpansion {kind : Kind} (h : kind.isExpansion = true) :
    ∃ link generated, kind = .expansion link generated := by
  cases kind with
  | expansion link generated => exact ⟨link, generated, rfl⟩
  | _ => cases h

/-- An expansion is no parent scope. -/
theorem isParent_of_isExpansion {kind : Kind} (h : kind.isExpansion = true) :
    kind.isParent = false := by
  obtain ⟨link, generated, rfl⟩ := exists_of_isExpansion h
  rfl

end Kind

/-- What a node is, and its attributes. -/
structure Label where
  kind : Kind
  field : Option String := none
  operator : Operator := .contains
  boost : Option Binary := none
  nestedPath : Option String := none
  deriving DecidableEq, Inhabited

namespace Label

/-- The field, or an empty text for a node without one. -/
def fieldName (label : Label) : String := label.field.getD ""

/-- The value of a predicate as text. -/
def text (label : Label) : String :=
  match label.kind with
  | .word value | .number value => value.scalarText
  | .phrase text .. => text
  | .wildcard pattern => pattern
  | .fuzzy text _ | .leading text => text
  | .null => "null"
  | .notNull => "*"
  | .boolean value => if value then "true" else "false"
  | .script source => source
  | .arrayData key => key
  | _ => ""

/-- The value of a predicate as a term-level query takes it. -/
def value (label : Label) : Json :=
  match label.kind with
  | .word value | .number value => value
  | .boolean value => .bool value
  | _ => .str label.text

/-- The text of a predicate with its backslash escapes. -/
def sourceText (label : Label) : String :=
  match label.kind with
  | .phrase text escaped _ _ => escaped.getD text
  | _ => label.text

/-- The attributes of a node that belong to its kind, as a dump shows them. -/
def details (label : Label) : List String :=
  match label.kind with
  | .array values conjunctive =>
    ["values=" ++ toString values.list.length]
      ++ (if values.isExternal then ["external"] else [])
      ++ (if conjunctive then ["and"] else [])
  | .range lower upper => ["range=[" ++ lower.compact ++ " TO " ++ upper.compact ++ "]"]
  | .phrase _ _ distance ordered =>
    ["value=" ++ label.sourceText, "distance=" ++ toString distance,
      "ordered=" ++ (Json.bool ordered).compact]
  | .proximity distance ordered =>
    ["distance=" ++ toString distance, "ordered=" ++ (Json.bool ordered).compact]
  | .child typeName | .parent typeName => ["type=" ++ typeName]
  | .expansion link generated =>
    ["link=" ++ link.text] ++ (if generated then ["generated"] else [])
  | .conjunction | .disjunction | .negation | .scope => []
  | _ => ["value=" ++ label.text]

/-- **Description** of a node: its name, and in parentheses what is known about it. -/
def description (label : Label) : String :=
  let field := match label.field with
    | some field => ["fieldname=" ++ field]
    | none => []
  let operator :=
    if label.kind.isLeaf || label.kind.isProximity then ["operator=" ++ label.operator.title]
    else []
  let boost := match label.boost with
    | some boost => ["boost=" ++ boost.plainText .single]
    | none => []
  let nestedPath := match label.nestedPath with
    | some path => ["nested=" ++ path]
    | none => []
  let parts := field ++ operator ++ label.details ++ boost ++ nestedPath
  if parts.isEmpty then label.kind.name
  else label.kind.name ++ " (" ++ ", ".intercalate parts ++ ")"

end Label

end LinkedSearch.Query
