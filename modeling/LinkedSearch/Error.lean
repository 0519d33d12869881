import LinkedSearch.Query.Label

/-!
# Errors

Everything that can go wrong is a cause of its own. A cause belongs to one `Category`, which tells a
caller what to do about it; only the failure of a remote scan may go away when the whole
compilation is tried again. The wording is in one place, `Error.message`.
-/

namespace LinkedSearch

open Query (Operator)

/-- A shard that did not answer a scan. -/
structure ShardFailure where
  index : String
  shard : Nat
  reason : String
  deriving DecidableEq, Inhabited, Repr

/-- The report of a failed shard. -/
def ShardFailure.text (failure : ShardFailure) : String :=
  "shard [" ++ failure.index ++ "][" ++ toString failure.shard ++ "] failed: " ++ failure.reason

/-- Why a value does not conform to the type of its field. -/
inductive FieldProblem where
  /-- A text or keyword field, by its type name, holds something else. -/
  | notText (typeName : String)
  | notInteger
  | notNumeric
  | notBoolean
  | notDate
  | notNested
  deriving DecidableEq, Inhabited, Repr

/-- The wording of a field problem. -/
def FieldProblem.message : FieldProblem → String
  | notText typeName => typeName ++ " field requires a string value"
  | notInteger => "Long field requires an integer value"
  | notNumeric => "Double field requires a numeric value"
  | notBoolean => "Boolean field requires a boolean value"
  | notDate => "Date field requires a string or number value"
  | notNested => "Nested field requires an object or array value"

/-- A cause of failure. -/
inductive Error where
  /-- A document is no JSON, or not of the expected shape. -/
  | malformedDocument
  /-- A node that is neither a predicate nor a combination stands where one is needed. -/
  | unexpectedNode (kind : String)
  | missingArrayData (key : String)
  /-- A node without a span form stands below a proximity. -/
  | notASpan (kind : String)
  | notAnExpansion (kind : String)
  | emptyExpansion
  | unsupportedInterval (keyword : String)
  | noSubAggregates (kind : String)
  | foreignSubAggregate
  /-- There is neither an aggregate nor a suggestion. -/
  | nothingToAggregate
  | noAggregate
  /-- The analyzer refused a phrase. -/
  | analysisFailed (reason : String)
  | unsupportedOperator (operator : Operator) (kind : String)
  | nestedPathConflict (path active : String)
  | unknownIndex (name : String)
  | malformedRanges
  | unboundedRange
  | unsupportedIndirection (hops : Nat)
  /-- The hops of a join path do not hold the same values. -/
  | unrelatedHops (left middle right : String)
  | shardsFailed (failures : List ShardFailure)
  | scanEndedEarly (index : String) (seen total : Nat)
  | missingResolver
  | missingExecutor
  | notCompiled
  | notAnObject (index : String)
  | invalidField (index field : String) (problem : FieldProblem)
  | noSuchDocument (key : Json) (index : String)
  /-- Any other misuse reported from outside. -/
  | misuse (reason : String)
  /-- The recursion bound was reached; the bounds in use are never reached. -/
  | boundReached
  deriving DecidableEq, Inhabited

namespace Error

/-- What a failure is about. -/
inductive Category where
  | document
  | compilation
  | operator
  | nesting
  | metadata
  | ranges
  | indirection
  | equivalence
  | remote
  | usage
  deriving DecidableEq, Inhabited, Repr

/-- The category of a cause. -/
def category : Error → Category
  | malformedDocument => .document
  | unexpectedNode _ | missingArrayData _ | notASpan _ | notAnExpansion _ | emptyExpansion
  | unsupportedInterval _ | noSubAggregates _ | foreignSubAggregate | nothingToAggregate
  | noAggregate | analysisFailed _ | boundReached => .compilation
  | unsupportedOperator .. => .operator
  | nestedPathConflict .. => .nesting
  | unknownIndex _ => .metadata
  | malformedRanges | unboundedRange => .ranges
  | unsupportedIndirection _ => .indirection
  | unrelatedHops .. => .equivalence
  | shardsFailed _ | scanEndedEarly .. => .remote
  | missingResolver | missingExecutor | notCompiled | notAnObject _ | invalidField ..
  | noSuchDocument .. | misuse _ => .usage

/-- Whether the same compilation may succeed when it is tried again. -/
def isRetriable (error : Error) : Bool := error.category = .remote

/-- The number of failed shards that a remote failure reports. -/
def failedShards : Error → Nat
  | shardsFailed failures => failures.length
  | _ => 0

/-- What comes before the detail in the wording of a category. -/
def Category.lead : Category → String
  | document => "Parse error"
  | compilation => "Rewrite error: "
  | metadata => "No metadata for index or field: "
  | ranges => "Invalid range spec: "
  | usage => "Usage error: "
  | operator | nesting | indirection | equivalence | remote => ""

/-- The wording of a cause inside its category. -/
def detail : Error → String
  | malformedDocument => ""
  | unexpectedNode kind => "Unexpected node type: " ++ kind
  | missingArrayData key => "No array data for key '" ++ key ++ "'"
  | notASpan kind => "Unsupported proximity node: " ++ kind
  | notAnExpansion kind => "Expected an expansion node, found " ++ kind
  | emptyExpansion => "Expansion has no query"
  | unsupportedInterval keyword => "Unsupported date histogram interval: " ++ keyword
  | noSubAggregates kind => kind ++ " aggregates cannot have sub-aggregates"
  | foreignSubAggregate => "Nested aggregates in separate indexes are not supported"
  | nothingToAggregate => "Cannot figure out which index to use for aggregation"
  | noAggregate => "Query has no aggregate"
  | analysisFailed reason => reason
  | unsupportedOperator operator kind =>
    "Unsupported operator " ++ operator.symbol ++ " for " ++ kind ++ " node"
  | nestedPathConflict path active =>
    "Attempt to use nested path '" ++ path ++ "' inside '" ++ active ++ "'"
  | unknownIndex name => name
  | malformedRanges => "Problem decoding range spec"
  | unboundedRange => "one of 'to' or 'from' must be specified"
  | unsupportedIndirection hops =>
    "Don't know how to resolve " ++ toString hops ++ " levels of indirection"
  | unrelatedHops left middle right =>
    "Field equivalency cannot be determined for " ++ left ++ " -> " ++ middle ++ " -> " ++ right
  | shardsFailed failures =>
    toString failures.length ++ " shards failed:\n"
      ++ String.join (failures.map fun failure => failure.text ++ "\n")
  | scanEndedEarly index seen total =>
    "0 shards failed:\nscan of " ++ index ++ " ended after " ++ toString seen ++ " of "
      ++ toString total ++ " hits"
  | missingResolver => "a metadata resolver is required"
  | missingExecutor => "a search executor is required"
  | notCompiled => "Must call rewrite_query() before search_index_name()"
  | notAnObject index => "documents in " ++ index ++ " must be JSON objects"
  | invalidField index field problem => index ++ "." ++ field ++ ": " ++ problem.message
  | noSuchDocument key index => "no document " ++ key.compact ++ " in " ++ index
  | misuse reason => reason
  | boundReached => "recursion bound reached"

/-- The wording of a cause. -/
def message (error : Error) : String := error.category.lead ++ error.detail

@[simp] theorem isRetriable_shardsFailed (failures : List ShardFailure) :
    (shardsFailed failures).isRetriable = true := rfl

@[simp] theorem isRetriable_scanEndedEarly (index : String) (seen total : Nat) :
    (scanEndedEarly index seen total).isRetriable = true := rfl

end Error

end LinkedSearch
