import LinkedSearch.Error
import LinkedSearch.Json.Decode
import LinkedSearch.Json.Parser

/-!
# Aggregates and suggestions of a query

A query may ask for an aggregate over a field: counts of terms or calendar intervals, buckets for
given ranges, significant terms, or statistics. An aggregate may hold another one, which is computed
inside each of its buckets; the chain is kept as a list, outermost first.

* `Aggregate.ofJson?`, `Aggregate.toJson`: the exchange form.
* `RangeEntry.parseAll`: the buckets a range aggregate describes in a text of its own.
-/

namespace LinkedSearch.Query

open Number (Finite)

/-- The order in which buckets are asked for. -/
inductive SortOrder where
  | term
  | count
  | reverseTerm
  | reverseCount
  deriving DecidableEq, Inhabited, Repr

namespace SortOrder

/-- Every order, in declaration order. -/
def all : List SortOrder := [term, count, reverseTerm, reverseCount]

/-- The name of an order in a document. -/
def name : SortOrder → String
  | term => "term"
  | count => "count"
  | reverseTerm => "reverse_term"
  | reverseCount => "reverse_count"

/-- The order with a document name. -/
def ofName? (text : String) : Option SortOrder := all.find? fun order => order.name = text

/-- Every order is found under its own name. -/
@[simp] theorem ofName?_name (order : SortOrder) : ofName? order.name = some order := by
  cases order <;> decide

end SortOrder

/-- What an aggregate computes. -/
inductive AggregateKind where
  /-- Counts of terms, or of calendar intervals where the stem names one. -/
  | tally (stem : String) (maxTerms : Nat) (order : SortOrder)
  /-- Counts of ranges, which are described by a document in a text. -/
  | range (ranges : String)
  | significantTerms (stem : String) (maxTerms : Nat)
  | extendedStats
  deriving DecidableEq, Inhabited, Repr

namespace AggregateKind

/-- The name of a kind in documents and errors. -/
def name : AggregateKind → String
  | tally .. => "tally"
  | range _ => "range"
  | significantTerms .. => "significant_terms"
  | extendedStats => "extended_stats"

/-- The exchange form of a kind. -/
def toJson (kind : AggregateKind) : Json :=
  let parts : List (String × Json) := match kind with
    | tally stem maxTerms order =>
      [("stem", .str stem), ("max_terms", .ofNat maxTerms), ("sort_order", .str order.name)]
    | range ranges => [("range_spec", .str ranges)]
    | significantTerms stem maxTerms => [("stem", .str stem), ("max_terms", .ofNat maxTerms)]
    | extendedStats => []
  .ofMembers (("type", .str kind.name) :: parts)

/-- The kind a document describes; members that do not belong to it are ignored. -/
def ofJson? : Json → Option AggregateKind
  | .obj members => do
    if ¬Json.unrepeated ["type"] members then failure
    match ← Json.required Json.string? (Keyed.find? "type" members) with
    | "tally" =>
      match ← (Json.obj members).fields? ["stem", "max_terms", "sort_order"] with
      | [stem, maxTerms, order] =>
        let ofOrder? (value : Json) : Option SortOrder := do
          SortOrder.ofName? (← value.plainVariant? true)
        some (.tally (← Json.required Json.string? stem) (← Json.required Json.nat32? maxTerms)
          (← Json.withDefault .term ofOrder? order))
      | _ => none
    | "range" =>
      match ← (Json.obj members).fields? ["range_spec"] with
      | [ranges] => some (.range (← Json.required Json.string? ranges))
      | _ => none
    | "significant_terms" =>
      match ← (Json.obj members).fields? ["stem", "max_terms"] with
      | [stem, maxTerms] =>
        some (.significantTerms (← Json.required Json.string? stem)
          (← Json.required Json.nat32? maxTerms))
      | _ => none
    | "extended_stats" => some .extendedStats
    | _ => none
  | _ => none

end AggregateKind

/-- One aggregate of a chain. -/
structure AggregateLevel where
  kind : AggregateKind
  field : String
  nestedPath : Option String := none
  deriving DecidableEq, Inhabited, Repr

/-- An aggregate with the chain of aggregates inside its buckets. -/
structure Aggregate where
  outer : AggregateLevel
  inner : List AggregateLevel := []
  deriving DecidableEq, Inhabited, Repr

namespace Aggregate

/-- A term tally in the default order. -/
def tally (field stem : String) (maxTerms : Nat) : Aggregate :=
  ⟨{ kind := .tally stem maxTerms .term, field }, []⟩

/-- The levels, outermost first. -/
def levels (aggregate : Aggregate) : List AggregateLevel := aggregate.outer :: aggregate.inner

/-- The aggregate over documents of a nested path. -/
def withNestedPath (path : String) (aggregate : Aggregate) : Aggregate :=
  { aggregate with outer := { aggregate.outer with nestedPath := some path } }

/-- The aggregate with another one in its buckets, in place of those it had. -/
def withInner (inner : Aggregate) (aggregate : Aggregate) : Aggregate :=
  { aggregate with inner := inner.levels }

/-- Whether the outermost aggregate is over documents of a nested path. -/
def isNested (aggregate : Aggregate) : Bool := aggregate.outer.nestedPath.isSome

end Aggregate

/-- The exchange form of a chain of aggregates, if there is one. -/
def chainToJson? : List AggregateLevel → Option Json
  | [] => none
  | level :: rest =>
    some (.ofPresent [("kind", some level.kind.toJson), ("field", some (.str level.field)),
      ("nested_path", level.nestedPath.map .str), ("sub_aggregate", chainToJson? rest)])

/-- The exchange form of an aggregate. -/
def Aggregate.toJson (aggregate : Aggregate) : Json :=
  .ofPresent [("kind", some aggregate.outer.kind.toJson),
    ("field", some (.str aggregate.outer.field)),
    ("nested_path", aggregate.outer.nestedPath.map .str),
    ("sub_aggregate", chainToJson? aggregate.inner)]

/-- The level a document describes, without what is inside it. -/
def AggregateLevel.ofJson? (value : Json) : Option AggregateLevel := do
  match ← value.fields? ["kind", "field", "nested_path", "sub_aggregate"] with
  | [kind, field, nestedPath, _] =>
    some {
      kind := ← Json.required AggregateKind.ofJson? kind
      field := ← Json.required Json.string? field
      nestedPath := ← Json.optional Json.string? nestedPath }
  | _ => none

mutual

/-- The levels a document describes; `null` describes none. -/
def levels? : Json → Option (List AggregateLevel)
  | .null => some []
  | .obj members => do
    let level ← AggregateLevel.ofJson? (.obj members)
    let inner ← innerLevels? members
    some (level :: inner)
  -- an aggregate may be written as the list of its fields, in their order
  | .arr [kind, field, nestedPath, inner] => do
    let level ← AggregateLevel.ofJson? (.arr [kind, field, nestedPath, inner])
    let inner ← levels? inner
    some (level :: inner)
  | value => (AggregateLevel.ofJson? value).map ([·])

/-- The levels described by the member for the inner aggregate. -/
def innerLevels? : List (String × Json) → Option (List AggregateLevel)
  | [] => some []
  | (key, value) :: rest => if key = "sub_aggregate" then levels? value else innerLevels? rest

end

/-- The aggregate a document describes. -/
def Aggregate.ofJson? (value : Json) : Option Aggregate := do
  match ← levels? value with
  | outer :: inner => some ⟨outer, inner⟩
  | [] => none

/-- A request for similar terms of a field. -/
structure Suggestion where
  field : String
  stem : String
  maxTerms : Nat
  deriving DecidableEq, Inhabited, Repr

namespace Suggestion

/-- The exchange form of a suggestion. -/
def toJson (suggestion : Suggestion) : Json :=
  .ofMembers [("field", .str suggestion.field), ("stem", .str suggestion.stem),
    ("max_terms", .ofNat suggestion.maxTerms)]

/-- The suggestion a document describes. -/
def ofJson? (value : Json) : Option Suggestion := do
  match ← value.fields? ["field", "stem", "max_terms"] with
  | [field, stem, maxTerms] =>
    some ⟨← Json.required Json.string? field, ← Json.required Json.string? stem,
      ← Json.required Json.nat32? maxTerms⟩
  | _ => none

end Suggestion

/-! ## Ranges -/

/-- A bucket of a range aggregate; its bounds are numbers or dates. -/
structure RangeEntry (α : Type) where
  key : Option String := none
  lower : Option α := none
  upper : Option α := none
  deriving DecidableEq, Inhabited

namespace RangeEntry

variable {α : Type}

/-- The exchange form of a bucket; what is absent is left out. -/
def toJson (bound : α → Json) (entry : RangeEntry α) : Json :=
  .ofPresent [("key", entry.key.map .str), ("from", entry.lower.map bound),
    ("to", entry.upper.map bound)]

/-- The bucket a document describes. -/
def ofJson? (bound : Json → Option α) (value : Json) : Option (RangeEntry α) := do
  match ← value.fields? ["key", "from", "to"] with
  | [key, lower, upper] =>
    some ⟨← Json.optional Json.string? key, ← Json.optional bound lower,
      ← Json.optional bound upper⟩
  | _ => none

/-- Whether a bucket has a bound on either side. -/
def isBounded (entry : RangeEntry α) : Bool := entry.lower.isSome || entry.upper.isSome

/-- **Buckets** described by a text: a list of entries, each of them bounded. -/
def parseAll (bound : Json → Option α) (text : String) : Except Error (List (RangeEntry α)) :=
  match (Json.parse? text Json.nestingLimit).bind (Json.list? (ofJson? bound)) with
  | none => .error .malformedRanges
  | some entries => if entries.all isBounded then .ok entries else .error .unboundedRange

/-- A numeric bound. -/
def numericBound? (value : Json) : Option Finite :=
  match value.binary? .double with
  | some (.finite x) => some x
  | _ => none

/-- Buckets with numeric bounds. -/
def parseNumeric (text : String) : Except Error (List (RangeEntry Finite)) :=
  parseAll numericBound? text

/-- Buckets with dates as bounds. -/
def parseDates (text : String) : Except Error (List (RangeEntry String)) :=
  parseAll Json.string? text

end RangeEntry

end LinkedSearch.Query
