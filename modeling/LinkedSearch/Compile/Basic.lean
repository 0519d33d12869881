import LinkedSearch.Analysis.Tokenizer
import LinkedSearch.Metadata
import LinkedSearch.Query.Request
import LinkedSearch.Scan

/-!
# Compilation state

Compiling a query walks over its draft. On the way it looks up mappings, scans linked indexes, and
writes what the scans found into the draft; all of this stays even when the compilation fails later.
It reports on every expansion that it resolves.

* `Environment`: what a compilation asks of its surroundings.
* `Report`: how an expansion was resolved.
* `Progress`: what a compilation has changed so far.
* `Compile`: a computation on the progress that may fail.
* `Compile.within`: a computation in a scope that is left again on every exit.
-/

namespace LinkedSearch

open Analysis (Analyzer)
open Query (Arena Draft Label NodeId Slot Tree)
open Schema (Mapping)

/-- The surroundings of a compilation. -/
structure Environment where
  settings : Settings
  resolver : Resolver
  executor : Executor
  analyzer : Analyzer

/-- The way an expansion is resolved. -/
inductive Resolution where
  /-- Its own query takes its place. Either its link is the primary one (`own`), or its documents
  correspond one to one to those of the only index in use. -/
  | inPlace (own : Bool)
  /-- Both sides of the join are primary keys and the query asks for nothing else. -/
  | keys
  /-- Its index is scanned. -/
  | scan (request : ScanRequest)
  deriving Inhabited

/-- A report on an expansion that is being resolved. -/
structure Report where
  id : NodeId
  link : Link
  /-- The link of the expansion was synthesized. -/
  generated : Bool
  /-- The query of the expansion as it stands then. -/
  query : Tree
  /-- The expansions around it, nearest first. -/
  enclosing : List (NodeId × Link)
  /-- The number of scopes around it. -/
  scopeDepth : Nat
  resolution : Resolution
  deriving Inhabited

/-- The progress of a compilation. -/
structure Progress where
  draft : Draft
  metadata : Metadata
  /-- The number of scopes around the node that is being compiled. -/
  scopeDepth : Nat := 0
  /-- The nested path shared by the leaves of the outermost scope. -/
  scopePath : Option String := none
  /-- The filter of an aggregate is being compiled, not the query itself. -/
  aggregating : Bool := false
  /-- The synthesized expansions that are being resolved, innermost first. -/
  generated : List NodeId := []
  /-- The scans requested so far, oldest first. -/
  scans : List ScanRequest := []
  /-- The reports on resolved expansions, oldest first. -/
  reports : List Report := []
  deriving Inhabited

/-- A computation on the progress; the changes made before a failure stay. -/
abbrev Compile := ExceptT Error (StateM Progress)

namespace Compile

variable {α : Type}

/-- The outcome of something that does not depend on the progress. -/
def ofExcept (outcome : Except Error α) : Compile α := ExceptT.mk (pure outcome)

/-- A computation on the metadata. -/
def look (lookup : Lookup α) : Compile α := ExceptT.mk fun progress =>
  let (outcome, metadata) := lookup.run.run progress.metadata
  (outcome, { progress with metadata })

/-- **Scope**: a change of the progress before a computation, and another one after it, whether it
failed or not. -/
def within (enter leave : Progress → Progress) (action : Compile α) : Compile α :=
  ExceptT.mk fun progress =>
    let (outcome, progress) := action.run.run (enter progress)
    (outcome, leave progress)

/-- The arena of the draft. -/
def arena : Compile Arena := return (← get).draft.arena

/-- A change of the arena. -/
def modifyArena (change : Arena → Arena) : Compile Unit :=
  modify fun progress =>
    { progress with draft := { progress.draft with arena := change progress.draft.arena } }

/-- The label of a node. -/
def labelOf (id : NodeId) : Compile Label := return (← arena).label id

/-- The children of a node. -/
def childrenOf (id : NodeId) : Compile (List NodeId) := return (← arena).children id

/-- A new node outside the query. -/
def push (label : Label) : Compile NodeId := do
  let (arena, id) := (← arena).push label
  modifyArena fun _ => arena
  return id

/-- Put on record how an expansion is resolved, given its query. -/
def report (id : NodeId) (link : Link) (query : Tree) (resolution : Resolution) : Compile Unit :=
  modify fun progress =>
    let arena := progress.draft.arena
    let enclosing := (arena.ancestors id).filterMap fun ancestor =>
      (arena.label ancestor).kind.link?.map fun link => (ancestor, link)
    { progress with
      reports := progress.reports ++ [{
        id, link, generated := (arena.label id).kind.isGenerated, query, enclosing
        scopeDepth := progress.scopeDepth, resolution }] }

variable (env : Environment)

/-- The mapping of an index. -/
def mapping (index : String) : Compile Mapping := look (Metadata.mapping env.resolver index)

/-- The link that owns a field, recorded as used. -/
def ownerOf (field : String) : Compile Link := look (Metadata.find env.resolver field)

/-- The mapping of the owner of a field. -/
def mappingOf (field : String) : Compile Mapping := look (Metadata.mappingOf env.resolver field)

/-- The distinct values of a scan and the number of its hits. -/
def scan (request : ScanRequest) : Compile (List Json × Nat) := do
  let earlier := (← get).scans
  modify fun progress => { progress with scans := progress.scans ++ [request] }
  ofExcept (env.executor.run earlier request).outcome

end Compile

end LinkedSearch
