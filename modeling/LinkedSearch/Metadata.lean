import LinkedSearch.Error
import LinkedSearch.Schema.Mapping

/-!
# Metadata of linked indexes

A query is issued against one index and may use fields of the indexes it links to. The metadata
finds out which index a field belongs to, fetches every mapping when it is first needed, and records
which links were used. One of the links is the *primary* one, which fields belong to by default; it
is the index the query was issued against unless it is set otherwise.

* `Resolver`: what mappings and join paths are asked of.
* `Lookup`: a computation that may fetch mappings and record uses.
* `Metadata.locate`: the link a field belongs to.
* `Metadata.find`: the same, recorded as used.
-/

namespace LinkedSearch

open Schema (Mapping)

/-- The source of mappings and join paths. -/
structure Resolver where
  /-- The mapping of an index. -/
  mapping : String → Except Error Mapping
  /-- The hops from one link to another. -/
  joinPath : Link → Link → Except Error (List String)
  /-- Whether two hops hold the same values. -/
  equivalent : String → String → Bool := fun left right => Hop.field left == Hop.field right

/-- What is known about the indexes of a query. -/
structure Metadata where
  /-- The mappings fetched so far by index, latest first. -/
  fetched : List (String × Mapping)
  /-- The index the query was issued against, as a link to itself. -/
  origin : Link
  /-- The link that fields belong to by default. -/
  primary : Link
  links : List Link
  /-- The links used so far, in the order of their first use. -/
  used : List Link := []
  deriving DecidableEq, Inhabited

/-- A computation on metadata that may fail; what was fetched and used is kept even then. -/
abbrev Lookup := ExceptT Error (StateM Metadata)

namespace Metadata

/-- The link from an index to itself by its primary key. -/
def selfLink (mapping : Mapping) (index : String) : Link :=
  .unnamed mapping.primaryKey index mapping.primaryKey

/-- The first link with the given name. -/
def linkNamed? (metadata : Metadata) (name : String) : Option Link :=
  metadata.links.find? fun link => link.name = some name

/-- The link that a dotted field names before its first dot. -/
def namedLink? (metadata : Metadata) (field : String) : Option Link :=
  (splitTextFirst? '.' field).bind fun (name, _) => metadata.linkNamed? name

/-- The metadata with one more used link. -/
def use (link : Link) (metadata : Metadata) : Metadata :=
  if link ∈ metadata.used then metadata else { metadata with used := metadata.used ++ [link] }

variable (resolver : Resolver)

/-- The mapping of an index, fetched when it is first needed. -/
def mapping (index : String) : Lookup Mapping := do
  match Keyed.find? index (← get).fetched with
  | some mapping => return mapping
  | none =>
    let mapping ← liftExcept (resolver.mapping index)
    modify fun metadata => { metadata with fetched := (index, mapping) :: metadata.fetched }
    return mapping
where
  /-- The outcome of something that does not depend on the metadata. -/
  liftExcept {α : Type} (outcome : Except Error α) : Lookup α := ExceptT.mk (pure outcome)

/-- The first of some links whose index has a field. -/
def firstWithField (field : String) : List Link → Lookup (Option Link)
  | [] => return none
  | link :: rest => do
    if (← mapping resolver link.index).hasField field then return some link
    else firstWithField field rest

/-- **Owner of a field**: the link it names, or else the primary link, the first other link, or the
origin, whichever has it; an unknown field belongs to the primary link. -/
def locate (field : String) : Lookup Link := do
  let metadata ← get
  match metadata.namedLink? field with
  | some link => return link
  | none =>
    -- the origin is the last one, unless it is the first one already
    let others := metadata.links
      ++ (if metadata.origin = metadata.primary then [] else [metadata.origin])
    let owner ← firstWithField resolver field (metadata.primary :: others)
    return owner.getD metadata.primary

/-- The owner of a field, recorded as used. -/
def find (field : String) : Lookup Link := do
  let link ← locate resolver field
  modify (use link)
  return link

/-- The mapping of the owner of a field. -/
def mappingOf (field : String) : Lookup Mapping := do
  let link ← find resolver field
  mapping resolver link.index

/-- The mapping of the primary index. -/
def primaryMapping : Lookup Mapping := do mapping resolver (← get).primary.index

/-- Fetch the mappings of some indexes. -/
def fetchAll : List String → Lookup Unit
  | [] => return ()
  | index :: rest => do
    let _ ← mapping resolver index
    fetchAll rest

/-- **Opening**: the metadata of a query issued against an index, with its own mapping and those of
its links fetched. -/
def start (index : String) (links : List Link) : Except Error Metadata := do
  let mapping ← resolver.mapping index
  let origin := selfLink mapping index
  let metadata : Metadata := { fetched := [(index, mapping)], origin, primary := origin, links }
  match (fetchAll resolver (links.map (·.index))).run metadata with
  | (.ok (), metadata) => return metadata
  | (.error error, _) => throw error

end Metadata

end LinkedSearch
