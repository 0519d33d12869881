import LinkedSearch.Fragment.Matching
import LinkedSearch.Json.Parser
import LinkedSearch.Metadata
import LinkedSearch.Scan

/-!
# Clusters in memory

A cluster holds the mappings of some indexes and their documents, and answers for both: it resolves
mappings and join paths, and runs scans. A document is checked against the mapping of its index when
it is added. Between two indexes the join path leads directly from the left field of a link to its
right field, unless another path is set.

* `Fixture`: a cluster as a document.
* `Cluster.addDocument`, `Cluster.updateDocument`, …: the changes.
* `Cluster.search`: the documents that satisfy a fragment, in the order they were added.
* `Cluster.resolver`, `Cluster.executor`: the cluster as the surroundings of a compiler.
-/

namespace LinkedSearch

open Schema (FieldType Mapping)

/-- A join path from one index to another. -/
structure JoinPath where
  source : String
  target : String
  hops : List String
  deriving DecidableEq, Inhabited, Repr

/-- The join path that a document describes. -/
def JoinPath.ofJson? (value : Json) : Option JoinPath := do
  match ← value.fields? ["from", "to", "path"] with
  | [source, target, hops] =>
    some ⟨← Json.required Json.string? source, ← Json.required Json.string? target,
      ← Json.required (Json.list? Json.string?) hops⟩
  | _ => none

/-- A cluster as a document describes it. -/
structure Fixture where
  mappings : List Mapping := []
  /-- The documents of each index. -/
  documents : List (String × List Json) := []
  joinPaths : List JoinPath := []
  deriving Inhabited

namespace Fixture

/-- The fixture a document describes; every field has a default. -/
def ofJson? (value : Json) : Option Fixture := do
  match ← value.fields? ["indexes", "documents", "join_paths"] with
  | [mappings, documents, joinPaths] =>
    some {
      mappings := ← Json.withDefault [] (Json.list? Mapping.ofJson?) mappings
      documents := ← Json.withDefault [] (Json.table? (Json.list? Json.any?)) documents
      joinPaths := ← Json.withDefault [] (Json.list? JoinPath.ofJson?) joinPaths }
  | _ => none

/-- The fixture that a text describes. -/
def parse (text : String) : Except Error Fixture :=
  match (Json.parse? text Json.nestingLimit).bind ofJson? with
  | some fixture => .ok fixture
  | none => .error .malformedDocument

end Fixture

/-- A cluster. -/
structure Cluster where
  mappings : List (String × Mapping) := []
  /-- The documents of each index, in the order they were added. -/
  documents : List (String × List Json) := []
  /-- The join paths that were set, latest first. -/
  joinPaths : List JoinPath := []
  /-- The shards that fail in each scan of an index. -/
  failures : List (String × List ShardFailure) := []
  deriving Inhabited

namespace Cluster

/-- The cluster without indexes. -/
def empty : Cluster := {}

/-- The mapping of an index. -/
def mapping (cluster : Cluster) (index : String) : Except Error Mapping :=
  match Keyed.find? index cluster.mappings with
  | some mapping => .ok mapping
  | none => .error (.unknownIndex index)

/-! ## Changes -/

/-- The cluster with one more index. An index that is added again keeps its documents. -/
def addIndex (mapping : Mapping) (cluster : Cluster) : Cluster :=
  { cluster with
    mappings := Keyed.insert mapping.index mapping cluster.mappings
    documents := Keyed.alter mapping.index (·.getD []) cluster.documents }

/-- Validation of a member; a member that the mapping does not know may have any value. -/
def validateMember (mapping : Mapping) (field : String) (value : Json) :
    Except FieldProblem Unit :=
  match mapping.type? field with
  | some type => type.validate value
  | none => .ok ()

/-- **Validation** of a document: the members that the mapping knows have values of their types. -/
def validate (mapping : Mapping) (index : String) : List (String × Json) → Except Error Unit
  | [] => .ok ()
  | (field, value) :: rest =>
    match validateMember mapping field value with
    | .error problem => .error (.invalidField index field problem)
    | .ok () => validate mapping index rest

/-- The cluster with one more document, if it is valid. -/
def addDocument (index : String) (document : Json) (cluster : Cluster) :
    Except Error Cluster := do
  let mapping ← cluster.mapping index
  match document with
  | .obj members =>
    validate mapping index members
    return { cluster with
      documents := Keyed.alter index (fun old => old.getD [] ++ [document]) cluster.documents }
  | _ => throw (.notAnObject index)

/-- The cluster with more documents, up to the first one that is not valid; the outcome says whether
there is one. -/
def addDocuments (index : String) : List Json → Cluster → Except Error Unit × Cluster
  | [], cluster => (.ok (), cluster)
  | document :: rest, cluster =>
    match cluster.addDocument index document with
    | .ok cluster => addDocuments index rest cluster
    | .error error => (.error error, cluster)

/-- The members of a document replaced by those of a patch. -/
def patched (document patch : Json) : Json :=
  match document, patch with
  | .obj members, .obj changes => .obj (Keyed.extend members changes)
  | _, _ => document

/-- Whether a document has a key. -/
def hasKey (primaryKey : String) (key document : Json) : Bool :=
  (document.get? primaryKey).any (·.same key)

/-- Some documents with the first one that has a key patched, if there is one. -/
def patchFirst? (primaryKey : String) (key patch : Json) : List Json → Option (List Json)
  | [] => none
  | document :: rest =>
    if hasKey primaryKey key document then some (patched document patch :: rest)
    else (patchFirst? primaryKey key patch rest).map (document :: ·)

/-- The cluster with a document patched, which is found by its primary key. -/
def updateDocument (index : String) (key patch : Json) (cluster : Cluster) :
    Except Error Cluster := do
  let mapping ← cluster.mapping index
  let documents := (Keyed.find? index cluster.documents).getD []
  match patchFirst? mapping.primaryKey key patch documents with
  | some documents =>
    -- the patched document is not validated
    return { cluster with documents := Keyed.insert index documents cluster.documents }
  | none => throw (.noSuchDocument key index)

/-- The cluster with a join path set. -/
def setJoinPath (path : JoinPath) (cluster : Cluster) : Cluster :=
  { cluster with joinPaths := path :: cluster.joinPaths }

/-- The cluster with one more failing shard. -/
def failShard (failure : ShardFailure) (cluster : Cluster) : Cluster :=
  { cluster with
    failures := Keyed.alter failure.index (fun old => old.getD [] ++ [failure]) cluster.failures }

/-- The cluster with the documents of several indexes, if all of them are valid. -/
def addTables : List (String × List Json) → Cluster → Except Error Cluster
  | [], cluster => .ok cluster
  | (index, documents) :: rest, cluster =>
    match cluster.addDocuments index documents with
    | (.ok (), cluster) => addTables rest cluster
    | (.error error, _) => .error error

/-- **Cluster of a fixture**, if its documents are valid. -/
def ofFixture (fixture : Fixture) : Except Error Cluster := do
  let declared := fixture.mappings.foldl (fun cluster mapping => cluster.addIndex mapping) empty
  let filled ← addTables fixture.documents declared
  return fixture.joinPaths.foldl (fun cluster path => cluster.setJoinPath path) filled

/-! ## Answers -/

/-- **Search**: the documents of an index that satisfy a fragment. -/
def search (cluster : Cluster) (index : String) (query : Fragment) : Except Error (List Json) :=
  match Keyed.find? index cluster.documents with
  | some documents => .ok (documents.filter fun document => query.holds document)
  | none => .error (.unknownIndex index)

/-- The hops from one link to another. -/
def joinPath (cluster : Cluster) (source target : Link) : List String :=
  match cluster.joinPaths.find? fun path =>
      path.source == source.index && path.target == target.index with
  | some path => path.hops
  | none => [Hop.of source.index target.leftField, Hop.of target.index target.rightField]

/-- The cluster as a source of mappings and join paths. -/
def resolver (cluster : Cluster) : Resolver where
  mapping := cluster.mapping
  joinPath source target := .ok (cluster.joinPath source target)

/-- The documents that a scan hits. -/
def hits (cluster : Cluster) (request : ScanRequest) : Except Error (List Json) := do
  let documents ← cluster.search request.index request.query
  return match request.postFilter with
    | none => documents
    | some filter => documents.filter fun document => filter.holds document

/-- The pages of a scan, each with the values of some hits. -/
def openScan (cluster : Cluster) (request : ScanRequest) : Except Error OpenScan := do
  let hits ← cluster.hits request
  -- a page without hits would be the end of the scan
  let size := max request.batchSize 1
  return {
    total := hits.length
    failures := (Keyed.find? request.index cluster.failures).getD []
    page := fun number =>
      let page := (hits.drop (number * size)).take size
      .ok {
        hits := page.length
        values := page.flatMap fun document => Document.values document request.field } }

/-- The cluster as what answers scans, always in the same way. -/
def executor (cluster : Cluster) : Executor := fun _ request => cluster.openScan request

end Cluster

end LinkedSearch
