import LinkedSearch.Fragment.Render
import LinkedSearch.Query.Aggregate

/-!
# Aggregations

What is sent to compute the aggregate or the suggestion of a query: a tree of named aggregations, in
which every aggregation is computed inside the buckets of the one around it.

* `Interval`: the calendar intervals, of which some have a format for the keys of their buckets.
* `BucketOrder.ofTally`, `BucketOrder.ofHistogram`: how requested orders are written.
* `Aggregation`, `AggregationTree`: an aggregation, and a tree of them with its rendered form.
* `TermSuggestion`: a request for similar terms.
-/

namespace LinkedSearch

open Number (Finite)
open Query (RangeEntry SortOrder)

/-! ## Calendar intervals -/

/-- A calendar interval. -/
inductive Interval where
  | year
  | quarter
  | month
  | week
  | day
  | hour
  | minute
  | second
  deriving DecidableEq, Inhabited, Repr

namespace Interval

/-- Every interval. -/
def all : List Interval := [year, quarter, month, week, day, hour, minute, second]

/-- The keyword of an interval. -/
def name : Interval → String
  | year => "year"
  | quarter => "quarter"
  | month => "month"
  | week => "week"
  | day => "day"
  | hour => "hour"
  | minute => "minute"
  | second => "second"

/-- The interval of a keyword. -/
def ofName? (keyword : String) : Option Interval := all.find? fun interval => interval.name = keyword

/-- Every interval is found under its own keyword. -/
@[simp] theorem ofName?_name (interval : Interval) : ofName? interval.name = some interval := by
  cases interval <;> decide

/-- The format of the keys of its buckets; quarters and weeks have none. -/
def format? : Interval → Option String
  | year => some "yyyy"
  | quarter => none
  | month => some "yyyy-MM"
  | week => none
  | day => some "yyyy-MM-dd"
  | hour => some "yyyy-MM-dd HH"
  | minute => some "yyyy-MM-dd HH:mm"
  | second => some "yyyy-MM-dd HH:mm:ss"

end Interval

/-! ## Orders -/

/-- What buckets are sorted by. -/
inductive BucketKey where
  | term
  | count
  | key
  deriving DecidableEq, Inhabited, Repr

/-- The order of buckets. -/
structure BucketOrder where
  key : BucketKey
  descending : Bool
  deriving DecidableEq, Inhabited, Repr

namespace BucketOrder

/-- The order of a tally of terms: counts are highest first. -/
def ofTally : SortOrder → BucketOrder
  | .term => ⟨.term, false⟩
  | .count => ⟨.count, true⟩
  | .reverseTerm => ⟨.term, true⟩
  | .reverseCount => ⟨.count, false⟩

/-- The order of a histogram: everything is lowest first unless reversed. -/
def ofHistogram : SortOrder → BucketOrder
  | .term => ⟨.key, false⟩
  | .count => ⟨.count, false⟩
  | .reverseTerm => ⟨.key, true⟩
  | .reverseCount => ⟨.count, true⟩

/-- The rendered form of an order. -/
def toJson (order : BucketOrder) : Json :=
  let key := match order.key with
    | .term => "_term"
    | .count => "_count"
    | .key => "_key"
  .single key (.str (if order.descending then "desc" else "asc"))

end BucketOrder

/-! ## Aggregations -/

/-- A single aggregation. -/
inductive Aggregation where
  /-- Counts of terms; a shard size of zero asks every shard for all of its terms. -/
  | terms (field : String) (size shardSize : Nat) (order : BucketOrder) (pattern : Option String)
  | dateHistogram (field : String) (interval : Interval) (format : String) (order : BucketOrder)
  | dateRange (field : String) (ranges : List (RangeEntry String))
  | range (field : String) (ranges : List (RangeEntry Finite))
  | significantTerms (field : String) (size : Nat) (pattern : Option String)
  | extendedStats (field : String)
  /-- The aggregations inside are over the objects under a path. -/
  | nested (path : String)
  /-- The aggregations inside are over the documents that satisfy a fragment. -/
  | filter (fragment : Fragment)
  /-- The documents without a value. -/
  | missing (field : String)

namespace Aggregation

/-- The name of an aggregation in its rendered form. -/
def kind : Aggregation → String
  | terms .. => "terms"
  | dateHistogram .. => "date_histogram"
  | dateRange .. => "date_range"
  | range .. => "range"
  | significantTerms .. => "significant_terms"
  | extendedStats _ => "extended_stats"
  | nested _ => "nested"
  | filter _ => "filter"
  | missing _ => "missing"

/-- Whether an aggregation has buckets, which can hold other aggregations. -/
def isBucketing : Aggregation → Bool
  | extendedStats _ => false
  | _ => true

/-- The rendered body of an aggregation. -/
def toJson : Aggregation → Json
  | terms field size shardSize order pattern =>
    .ofPresent [("field", some (.str field)), ("size", some (.ofNat size)),
      ("shard_size", some (.ofNat shardSize)), ("order", some order.toJson),
      ("include", pattern.map .str)]
  | dateHistogram field interval format order =>
    .ofMembers [("field", .str field), ("interval", .str interval.name), ("format", .str format),
      ("order", order.toJson)]
  | dateRange field ranges =>
    .ofMembers [("field", .str field), ("ranges", .arr (ranges.map (·.toJson .str)))]
  | range field ranges =>
    .ofMembers [("field", .str field), ("ranges", .arr (ranges.map (·.toJson .float)))]
  | significantTerms field size pattern =>
    .ofPresent [("field", some (.str field)), ("size", some (.ofNat size)),
      ("include", pattern.map .str)]
  | extendedStats field | missing field => .single "field" (.str field)
  | nested path => .single "path" (.str path)
  | filter fragment => fragment.toJson

end Aggregation

/-- A named aggregation with those in its buckets. -/
inductive AggregationTree where
  | node (name : String) (aggregation : Aggregation) (inner : List AggregationTree)

namespace AggregationTree

/-- The name of the outermost aggregation. -/
def name : AggregationTree → String
  | node name _ _ => name

/-- The outermost aggregation. -/
def aggregation : AggregationTree → Aggregation
  | node _ aggregation _ => aggregation

/-- The aggregations inside. -/
def inner : AggregationTree → List AggregationTree
  | node _ _ inner => inner

/-- A named aggregation without others inside. -/
def leaf (name : String) (aggregation : Aggregation) : AggregationTree := node name aggregation []

/-- A tree with one more aggregation inside. -/
def add (tree : AggregationTree) (more : AggregationTree) : AggregationTree :=
  match tree with
  | node name aggregation inner => node name aggregation (inner ++ [more])

@[simp] theorem name_node (name : String) (aggregation : Aggregation)
    (inner : List AggregationTree) : (node name aggregation inner).name = name := rfl

mutual

/-- The member of a tree: its name, and its aggregation beside those inside. -/
def member : AggregationTree → String × Json
  | node name aggregation inner =>
    (name, .ofPresent [(aggregation.kind, some aggregation.toJson),
      ("aggs", if inner.isEmpty then none else some (.ofMembers (members inner)))])

/-- The members of several trees. -/
def members : List AggregationTree → List (String × Json)
  | [] => []
  | tree :: rest => tree.member :: members rest

end

/-- **Rendered form** of a tree of aggregations. -/
def toJson (tree : AggregationTree) : Json := .ofMembers [tree.member]

end AggregationTree

/-! ## Suggestions -/

/-- A request for terms of a field that are similar to a text. -/
structure TermSuggestion where
  field : String
  text : String
  size : Nat
  deriving DecidableEq, Inhabited, Repr

namespace TermSuggestion

/-- The name under which suggestions are answered. -/
def name : String := "suggestions"

/-- Every shard is asked for ten times as many terms, as far as 32 bits hold that number. -/
def shardSize (suggestion : TermSuggestion) : Nat := min (suggestion.size * 10) 4294967295

/-- **Rendered form** of a suggestion. -/
def toJson (suggestion : TermSuggestion) : Json :=
  .single name (.ofMembers [("text", .str suggestion.text),
    ("term", .ofMembers [("field", .str suggestion.field), ("size", .ofNat suggestion.size),
      ("shard_size", .ofNat suggestion.shardSize), ("min_word_length", .ofNat 1),
      ("suggest_mode", .str "always")])])

end TermSuggestion

end LinkedSearch
