import LinkedSearch.Compile.Aggregate

/-!
# The compiler

A compiler holds one request against one index, and compiles its query, its aggregate and its
suggestion for the search engine. It keeps what it has resolved: compiling again repeats no scan, and
after a failure only what is still missing is scanned.

* `Setup.start`: the compiler of a request.
* `Compiler.query`, `Compiler.aggregation`, `Compiler.suggestion`: what is sent.
* `Compiler.searchIndex`, `Compiler.aggregateIndex`: where it is sent.
* `Compiler.dump`: the query as it is now, with resolved expansions.
-/

namespace LinkedSearch

open Analysis (Analyzer)
open Query (Request)

/-- What a compiler is made from. -/
structure Setup where
  index : String
  request : Request
  settings : Settings := {}
  resolver : Option Resolver := none
  executor : Option Executor := none
  /-- The analyzer of phrases; without one, the tokenizer of the settings. -/
  analyzer : Option Analyzer := none

/-- A request in the course of its compilation. -/
structure Compiler where
  environment : Environment
  progress : Progress
  /-- The query was compiled, or failed to. -/
  queried : Bool := false

namespace Setup

/-- Assign fields to their indexes: the index of the aggregated or suggested field becomes the
primary one, and every field of the query is recorded as used. -/
def assignFields (resolver : Resolver) (subject : Option String) (fields : List String) :
    Lookup Unit := do
  match subject with
  | none => pure ()
  | some field =>
    let link ← Metadata.find resolver field
    modify fun metadata => { metadata with primary := link }
  -- looked up from the new primary link
  fields.forM fun field => do
    let _ ← Metadata.find resolver field

/-- **Start** of a compiler, with the mappings of all linked indexes. -/
def start (setup : Setup) : Except Error Compiler := do
  let some resolver := setup.resolver | throw .missingResolver
  let some executor := setup.executor | throw .missingExecutor
  let request := setup.request
  let draft := request.draft
  let metadata ← Metadata.start resolver setup.index request.links
  let subject := Request.subjectField? request.aggregate request.suggestion
  match (assignFields resolver subject draft.fieldNames).run metadata with
  | (.error error, _) => throw error
  | (.ok (), metadata) =>
    let analyzer := setup.analyzer.getD setup.settings.tokenizer.analyzer
    return {
      environment := { settings := setup.settings, resolver, executor, analyzer }
      progress := { draft, metadata } }

end Setup

namespace Compiler

/-- The outcome of a computation, and the compiler after it. -/
def run {α : Type} (action : Environment → Compile α) (compiler : Compiler) :
    Except Error α × Compiler :=
  let (outcome, progress) := (action compiler.environment).run.run compiler.progress
  (outcome, { compiler with progress })

/-- **Query** of the request, with its expansions resolved in place. -/
def query (compiler : Compiler) : Except Error Fragment × Compiler :=
  let (outcome, compiler) := compiler.run Compile.rootQuery
  (outcome, { compiler with queried := true })

/-- **Aggregation** of the request, if it asks for one. -/
def aggregation (compiler : Compiler) : Except Error (Option AggregationTree) × Compiler :=
  compiler.run Compile.aggregate

/-- **Suggestion** of the request, if it asks for one. -/
def suggestion (compiler : Compiler) : Option TermSuggestion :=
  compiler.progress.draft.suggestion.map fun suggestion =>
    ⟨suggestion.field, suggestion.stem, suggestion.maxTerms⟩

/-- **Search index**: the only index in use if the settings allow it, or else the primary one. It is
known after the query was compiled. -/
def searchIndex (compiler : Compiler) : Except Error String :=
  if !compiler.queried then .error .notCompiled
  else
    let metadata := compiler.progress.metadata
    match metadata.used, compiler.environment.settings.allowSingleIndex with
    | [link], true => .ok link.index
    | _, _ => .ok metadata.primary.index

/-- The index that owns the aggregated or suggested field. -/
def aggregateIndex (compiler : Compiler) : Except Error String × Compiler :=
  compiler.run fun env => do
    let draft := (← get).draft
    match Request.subjectField? draft.aggregate draft.suggestion with
    | some field => return (← Compile.ownerOf env field).index
    | none => throw .nothingToAggregate

/-- The aggregated field as its own index names it. -/
def aggregateField (compiler : Compiler) : Except Error String × Compiler :=
  compiler.run fun env => do
    match (← get).draft.aggregate with
    | none => throw .noAggregate
    | some aggregate =>
      let field := aggregate.outer.field
      match splitTextFirst? '.' field with
      | none => return field
      | some (name, rest) =>
        -- what stands before the dot may also be the name of an object
        if (← Compile.ownerOf env field).name = some name then return rest else return field

/-- Whether the aggregate is over nested objects. -/
def isAggregateNested (compiler : Compiler) : Bool :=
  compiler.progress.draft.aggregate.any (·.isNested)

/-- The draft in its present state, as text. -/
def dump (compiler : Compiler) : String := compiler.progress.draft.dump

/-- The scans requested so far, oldest first. -/
def scans (compiler : Compiler) : List ScanRequest := compiler.progress.scans

/-- The reports on the expansions resolved so far, oldest first. -/
def reports (compiler : Compiler) : List Report := compiler.progress.reports

end Compiler

end LinkedSearch
