import LinkedSearch.Aggregation
import LinkedSearch.Compile.Node

/-!
# Compiling aggregates

An aggregate becomes a tree of aggregations. Fields that are also indexed as dates are counted by
calendar interval and bucketed by date. An aggregate over nested objects is wrapped twice: into the
objects under its path, and into those of them that the query itself admits, beside the count of
those without a value.

* `tally`, `ranges`, `significant`: the aggregation of each kind.
* `levels`: a chain of aggregates as a tree.
* `aggregate`: the compiled aggregate of a draft.
-/

namespace LinkedSearch.Compile

open Query (Aggregate AggregateLevel RangeEntry SortOrder)
open Schema (Mapping)

variable (env : Environment)

/-- The pattern for the terms of a field; only fields with string values have one. -/
def termPattern (mapping : Mapping) (field stem : String) : Option String :=
  if (mapping.type? field).any (·.isString) then some stem else none

/-- The interval that a stem names, for a field that is also indexed as a date. -/
def interval? (mapping : Mapping) (field stem : String) : Option Interval :=
  if mapping.hasDateCompanion field then Interval.ofName? stem else none

/-- A tally of calendar intervals or of terms. -/
def tally (field stem : String) (maxTerms : Nat) (order : SortOrder) : Compile Aggregation := do
  let mapping ← mappingOf env field
  match interval? mapping field stem with
  | some interval =>
    match interval.format? with
    | some format =>
      return .dateHistogram (Schema.dateCompanion field) interval format (.ofHistogram order)
    | none => throw (.unsupportedInterval stem)
  | none => return .terms field maxTerms 0 (.ofTally order) (termPattern mapping field stem)

/-- Buckets for the ranges that a text describes. -/
def ranges (field text : String) : Compile Aggregation := do
  if (← mappingOf env field).hasDateCompanion field then
    return .dateRange (Schema.dateCompanion field) (← ofExcept (RangeEntry.parseDates text))
  else return .range field (← ofExcept (RangeEntry.parseNumeric text))

/-- Significant terms of a field of the primary index. -/
def significant (field stem : String) (maxTerms : Nat) : Compile Aggregation := do
  let mapping ← look (Metadata.primaryMapping env.resolver)
  return .significantTerms field maxTerms (termPattern mapping field stem)

/-- The aggregation of one level. -/
def aggregation (level : AggregateLevel) : Compile Aggregation :=
  match level.kind with
  | .tally stem maxTerms order => tally env level.field stem maxTerms order
  | .range text => ranges env level.field text
  | .significantTerms stem maxTerms => significant env level.field stem maxTerms
  | .extendedStats => return .extendedStats level.field

/-- The compiled query of the draft; without one everything matches. -/
def rootQuery : Compile Fragment := do
  match (← get).draft.root with
  | some root => query env root
  | none => return .matchAll none

/-- **Nested aggregation**: a tree over the objects under a path that the query admits. -/
def overNested (path field : String) (tree : AggregationTree) : Compile AggregationTree := do
  -- the whole query once more, as a filter of the nested objects
  let filter ← rootQuery env
  let missing := AggregationTree.leaf "missing" (.missing field)
  return .node "nested" (.nested path) [.node "filter" (.filter filter) [tree, missing]]

/-- Whether a level may stand inside the buckets of another one. -/
def checkInner (outer : AggregateLevel) (compiled : Aggregation) (inner : AggregateLevel) :
    Compile Unit := do
  if !compiled.isBucketing then throw (.noSubAggregates outer.kind.name)
  let owner ← ownerOf env inner.field
  if owner.index ≠ (← get).metadata.primary.index then throw .foreignSubAggregate

/-- A tree of aggregations in the scope of its outermost level. -/
def inScope (level : AggregateLevel) (tree : AggregationTree) : Compile AggregationTree :=
  match level.nestedPath with
  | none => return tree
  | some path => overNested env path level.field tree

/-- **Chain of aggregates** as a tree, each inside the buckets of the one before. -/
def levels : AggregateLevel → List AggregateLevel → Compile AggregationTree
  | outer, [] => do
    let compiled ← aggregation env outer
    inScope env outer (.leaf outer.field compiled)
  | outer, next :: rest => do
    let compiled ← aggregation env outer
    -- before anything of the inner level is compiled
    checkInner env outer compiled next
    let inner ← levels next rest
    inScope env outer (.node outer.field compiled [inner])

/-- **Compiled aggregate** of the draft, if it has one. -/
def aggregate : Compile (Option AggregationTree) := do
  match (← get).draft.aggregate with
  | none => return none
  | some aggregate =>
    within (fun progress => { progress with aggregating := true })
      (fun progress => { progress with aggregating := false })
      (return some (← levels env aggregate.outer aggregate.inner))

end LinkedSearch.Compile
