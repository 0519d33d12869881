import LinkedSearch.Compile.Basic
import LinkedSearch.Query.Stack

/-!
# Resolving expansions

An expansion is a query on a linked index. It is resolved in place, from the inside out: either its
own query takes its place, where that means the same, or the linked index is scanned and the values
that join it to this index take its place. A resolved expansion is an ordinary node, so that
compiling the query again scans nothing.

The compiler of nodes is an argument here, `recur`: the query of an expansion is compiled before it
is scanned.

* `joinValues`: the values of a scan as a predicate on the joined field.
* `resolveLink`, `resolveGenerated`: the two ways over a join path and over a synthesized link.
* `resolve`: an expansion replaced by what it resolves to.
* `expansion`: a compiled expansion.
-/

namespace LinkedSearch.Compile

open Query (Arena Kind Label NodeId)

/-- The query of an expansion, its first child. -/
def queryOf (id : NodeId) : Compile NodeId := do
  match (← arena).child? id 0 with
  | some query => return query
  | none => throw .emptyExpansion

/-- The link of an expansion. -/
def linkOf (id : NodeId) : Compile Link := do
  let kind := (← labelOf id).kind
  match kind.link? with
  | some link => return link
  | none => throw (.notAnExpansion kind.name)

variable (env : Environment) (recur : NodeId → Compile Fragment)

/-- A compiled query for a scan, which is never the filter of an aggregate. -/
def scanQuery (id : NodeId) : Compile Fragment := do
  let aggregating := (← get).aggregating
  within (fun progress => { progress with aggregating := false })
    (fun progress => { progress with aggregating }) (recur id)

/-- **Visibility**: a scan only sees the documents that the parent scope of the query admits. There
is no restriction for an index that is always visible, nor for an expansion inside that scope. -/
def visibility (id : NodeId) (link : Link) : Compile (Option Fragment) := do
  if (← mapping env link.index).alwaysVisible then return none
  else
    let draft := (← get).draft
    match draft.find? (·.kind.isParent) with
    | none => return none
    | some scope =>
      if draft.arena.isWithin id scope then return none else return some (← scanQuery recur scope)

/-- The scan for the values of a field in the documents that satisfy a compiled query. -/
def scanRequest (index field : String) (query : Fragment) (postFilter : Option Fragment) :
    ScanRequest :=
  let settings := env.settings
  { index, query := .constantScore query none, postFilter, field
    batchSize := settings.scan.batchSize, keepAlive := settings.scan.keepAlive
    continuationKeepAlive := settings.scan.continuationKeepAlive
    preference := settings.searchPreference }

/-- Whether the query of an expansion only asks for the primary key of the linked index, and the
join is between primary keys. -/
def isKeyQuery (query : Label) (linked leftOwner rightOwner : Schema.Mapping)
    (left right : String) : Bool :=
  query.kind = .notNull && query.field = some linked.primaryKey && leftOwner.isPrimaryKey left
    && rightOwner.isPrimaryKey right

/-- **Join values**: a new node that requires `left` to be one of the values of `right` in the
documents of the linked index that satisfy the query of the expansion. Where both are primary keys
and the query only asks for the key, every value qualifies. -/
def joinValues (id : NodeId) (link : Link) (left right : String) : Compile NodeId := do
  let queryId ← queryOf id
  let query ← labelOf queryId
  -- read before the query is compiled, which may change the arena
  let tree := (← arena).treeAt queryId
  let linked ← mapping env link.index
  let leftOwner ← mappingOf env left
  let rightOwner ← mappingOf env right
  if isKeyQuery query linked leftOwner rightOwner left right then
    report id link tree .keys
    push { kind := .notNull, field := some left }
  else
    let filter ← scanQuery recur queryId
    let postFilter ← visibility env recur id link
    let request := scanRequest env link.index right filter postFilter
    -- on record before it is known whether the scan is answered
    report id link tree (.scan request)
    let (values, hits) ← scan env request
    push { kind := .array (.external values hits) false, field := some left }

/-- Whether a hop is the primary key of its index. -/
def isKeyHop (hop : String) : Compile Bool := do
  let index := Hop.index hop
  if index.isEmpty then return false
  else return (← mapping env index).isPrimaryKey (Hop.field hop)

/-- The fields at both ends of a join path, and whether they are primary keys right next to each
other. -/
def joinFields (path : List String) : Compile (String × String × Bool) := do
  match path with
  | [left, right] =>
    let keys ← if ← isKeyHop env left then isKeyHop env right else pure false
    return (Hop.field left, Hop.field right, keys)
  | [left, middle, right] =>
    -- the hop in between is passed over if its values are those of both ends
    if env.resolver.equivalent left middle && env.resolver.equivalent middle right then
      return (Hop.field left, Hop.field right, false)
    else throw (.unrelatedHops left middle right)
  | _ => throw (.unsupportedIndirection path.length)

/-- The query of an expansion, which takes its place. -/
def substitute (id : NodeId) (link : Link) (own : Bool) : Compile NodeId := do
  let query ← queryOf id
  report id link ((← arena).treeAt query) (.inPlace own)
  return query

/-- What an expansion over a join path resolves to. Its own query takes its place when documents
correspond one to one and the whole query is sent to a single index. -/
def resolveLink (id : NodeId) (link target : Link) : Compile NodeId := do
  let path ← ofExcept (env.resolver.joinPath target link)
  let (left, right, oneToOne) ← joinFields env path
  if oneToOne && (← get).metadata.used.length == 1 && env.settings.allowSingleIndex then
    substitute id link false
  else joinValues env recur id link left right

/-- What an expansion over a synthesized link resolves to: the values of the link, and, when the
field of the expansion belongs to another index, the primary keys that have them. -/
def resolveGenerated (id : NodeId) (label : Label) (link primary : Link) : Compile NodeId := do
  let values ← joinValues env recur id link link.leftField link.rightField
  let owner ← ownerOf env (label.field.getD link.rightField)
  if owner = primary then return values
  else
    -- the values become the query of the expansion, which is joined once more
    modifyArena fun arena => arena.setChild id 0 values
    let key := (← mapping env link.index).primaryKey
    joinValues env recur id link primary.rightField key

/-- **Resolution** of an expansion in place, for a query on the primary link that is evaluated from
`target`. The boost of the expansion stays. -/
def resolve (primary target : Link) (id : NodeId) : Compile Unit := do
  let label ← labelOf id
  let link ← linkOf id
  let resolved ←
    if (← get).generated.isEmpty && link == primary then substitute id link true
    else if label.kind.isGenerated then resolveGenerated env recur id label link primary
    else resolveLink env recur id link target
  modifyArena fun arena => arena.replace id resolved
  -- without a boost of its own the expansion leaves that of its query alone
  if label.boost.isSome then
    modifyArena fun arena => arena.modifyLabel id fun new => { new with boost := label.boost }

/-- The compiled expansion, whose stack of expansions is resolved first. -/
def expand (id : NodeId) : Compile Fragment := do
  let link ← linkOf id
  let stack := (← arena).expansions id
  let primary := (← get).metadata.primary
  let target := if (← get).generated.isEmpty then primary else link
  if let some name := link.name then
    modifyArena fun arena => arena.stripName id name
  -- from the end of the stack, where the innermost expansions are
  stack.reverse.forM (resolve env recur primary target)
  recur id

/-- **Compiled expansion.** One over a synthesized link is on record while it is resolved. -/
def expansion (id : NodeId) (generated : Bool) : Compile Fragment :=
  if generated then
    within (fun progress => { progress with generated := id :: progress.generated })
      (fun progress => { progress with generated := progress.generated.tail })
      (expand env recur id)
  else expand env recur id

end LinkedSearch.Compile
