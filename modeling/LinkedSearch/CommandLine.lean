import LinkedSearch.Cluster
import LinkedSearch.Compiler
import LinkedSearch.Fragment.Matching

/-!
# Command line

The command compiles a request against a cluster that a fixture describes, and prints what would be
sent: the index, the query, and the aggregation and the suggestion if there are any. On demand it
adds the dump of the compiled query and the documents that match.

* `Options.parse?`: the options among the arguments.
* `Inputs.compile`: what the command prints.
* `run`: the exit status and the printed value.
-/

namespace LinkedSearch.CommandLine

open Query (Request)

/-! ## Options -/

/-- The options of the command. -/
structure Options where
  /-- The file of the fixture. -/
  fixture : String
  /-- The file of the request. -/
  tree : String
  index : String
  /-- The file of the settings. -/
  config : Option String := none
  dump : Bool := false
  evaluate : Bool := false
  deriving DecidableEq, Inhabited, Repr

/-- The options read so far. -/
structure GivenOptions where
  fixture : Option String := none
  tree : Option String := none
  index : Option String := none
  config : Option String := none
  dump : Bool := false
  evaluate : Bool := false
  deriving DecidableEq, Inhabited, Repr

namespace GivenOptions

/-- Set an option that has a value and was not given before. -/
def set? (given : GivenOptions) (name value : String) : Option GivenOptions :=
  match name with
  | "--fixture" => if given.fixture.isSome then none else some { given with fixture := value }
  | "--tree" => if given.tree.isSome then none else some { given with tree := value }
  | "--index" => if given.index.isSome then none else some { given with index := value }
  | "--config" => if given.config.isSome then none else some { given with config := value }
  | _ => none

/-- Set an option without a value that was not given before. -/
def flag? (given : GivenOptions) (name : String) : Option GivenOptions :=
  match name with
  | "--dump" => if given.dump then none else some { given with dump := true }
  | "--evaluate" => if given.evaluate then none else some { given with evaluate := true }
  | _ => none

/-- Whether an argument looks like an option, so that it cannot be the value of the one before. -/
def isOption (argument : String) : Bool :=
  match argument.toList with
  | '-' :: _ :: _ => true
  | _ => false

/-- Read the remaining arguments. A value is the next argument, or follows its option after an
equals sign. -/
def read? (given : GivenOptions) : List String → Option GivenOptions
  | [] => some given
  | name :: rest =>
    match given.flag? name with
    | some given => read? given rest
    | none =>
      match splitTextFirst? '=' name with
      | some (name, value) => (given.set? name value).bind fun given => read? given rest
      | none =>
        match rest with
        | [] => none
        | value :: rest =>
          if isOption value then none
          else (given.set? name value).bind fun given => read? given rest

/-- The options, if all that are needed were given. -/
def finish? (given : GivenOptions) : Option Options := do
  some {
    fixture := ← given.fixture
    tree := ← given.tree
    index := ← given.index
    config := given.config
    dump := given.dump
    evaluate := given.evaluate }

end GivenOptions

/-- **Options** among the arguments. -/
def Options.parse? (arguments : List String) : Option Options := do
  let given ← GivenOptions.read? {} arguments
  given.finish?

/-! ## Files -/

/-- Why the command fails. -/
inductive Failure where
  /-- A file cannot be read. -/
  | unreadable (role : String)
  | invalid (error : Error)
  deriving DecidableEq, Inhabited

/-- The wording of a failure. -/
def Failure.message : Failure → String
  | unreadable role => "cannot read the " ++ role
  | invalid error => error.message

/-- The contents of the files that the options name, `none` for a file that cannot be read. -/
structure Inputs where
  fixture : Option String
  tree : Option String
  /-- Absent when no settings are named. -/
  config : Option (Option String) := none
  index : String
  dump : Bool := false
  evaluate : Bool := false

namespace Inputs

/-- The text of a file. -/
def text (role : String) (content : Option String) : Except Failure String :=
  match content with
  | some text => .ok text
  | none => .error (.unreadable role)

/-- A failure of the library. -/
def lift {α : Type} (outcome : Except Error α) : Except Failure α := outcome.mapError .invalid

/-- The settings; without a file they are the default ones. -/
def settings (inputs : Inputs) : Except Failure Settings :=
  match inputs.config with
  | none => .ok {}
  | some content => do lift (Settings.parse (← text "config" content))

/-- The cluster of the fixture. -/
def cluster (inputs : Inputs) : Except Failure Cluster := do
  let fixture ← lift (Fixture.parse (← text "fixture" inputs.fixture))
  lift (Cluster.ofFixture fixture)

/-- **Output** of the command for some inputs. -/
def compile (inputs : Inputs) : Except Failure Json := do
  let cluster ← inputs.cluster
  let request ← lift (Request.parse (← text "tree" inputs.tree))
  let settings ← inputs.settings
  let compiler ← lift (Setup.start {
    index := inputs.index, request, settings
    resolver := some cluster.resolver, executor := some cluster.executor })
  let (query, compiler) := compiler.query
  let query ← lift query
  let index ← lift compiler.searchIndex
  let (aggregation, compiler) := compiler.aggregation
  let aggregation ← lift aggregation
  -- the query is evaluated where it would be sent to
  let hits ← if inputs.evaluate then (lift (cluster.search index query)).map some else pure none
  return .ofPresent [("index", some (.str index)), ("query", some query.toJson),
    ("aggregation", aggregation.map (·.toJson)),
    ("suggest", compiler.suggestion.map (·.toJson)),
    ("dump", if inputs.dump then some (.str compiler.dump) else none),
    ("hits", hits.map .arr)]

end Inputs

/-! ## Outcome -/

/-- The outcome of a run: the exit status, and the printed value or the reported failure. -/
inductive Outcome where
  | printed (value : Json)
  | failed (failure : Failure)
  | misused
  deriving Inhabited

namespace Outcome

/-- The exit status: two for wrong arguments, one for any other failure. -/
def status : Outcome → Nat
  | printed _ => 0
  | failed _ => 1
  | misused => 2

/-- What is printed. -/
def output? : Outcome → Option Json
  | printed value => some value
  | _ => none

end Outcome

/-- **Run** of the command: on inputs, or on none when the arguments are wrong. -/
def run : Option Inputs → Outcome
  | none => .misused
  | some inputs =>
    match inputs.compile with
    | .ok value => .printed value
    | .error failure => .failed failure

end LinkedSearch.CommandLine
