import LinkedSearch.Compile.Expansion
import LinkedSearch.Compile.Proximity

/-!
# Compiling nodes

Conjunctions, disjunctions and negations become conditions with one clause per child. A scope puts
all of its leaves into one and the same nested object, so they must agree on the nested path. Parent
and child scopes become joins if the settings ask for it, and are left out otherwise.

In the filter of an aggregate, negations and parent scopes admit everything.

* `sharedPath`: the nested path of the leaves of a scope.
* `node`: a compiled node, given how its parts are compiled.
* `query`: the compiled query below a node.
-/

namespace LinkedSearch.Compile

open Query (Kind Label NodeId)

variable (env : Environment)

/-! ## Scopes -/

/-- The nested path shared so far, after one more leaf. -/
def sharePath (shared : Option String) (label : Label) : Compile (Option String) := do
  match ← nestedPathOf env label, shared with
  | none, _ => return shared
  | some path, none => return some path
  | some path, some active =>
    if active = path then return shared else throw (.nestedPathConflict path active)

/-- **Shared path** of a scope: the nested path of those leaves below it that have one. -/
def sharedPath (id : NodeId) : Compile (Option String) := do
  let labels := ((← arena).descendants id).map (← arena).label
  (labels.filter (·.kind.isLeaf)).foldlM (sharePath env) none

/-- A compiled scope. Only the outermost one has a nested path. -/
def scope (recur : NodeId → Compile Fragment) (id : NodeId) : Compile Fragment := do
  let children ← childrenOf id
  if (← get).scopeDepth = 0 then
    let path ← sharedPath env id
    modify fun progress => { progress with scopePath := path }
  let fragments ←
    within (fun progress => { progress with scopeDepth := progress.scopeDepth + 1 })
      (fun progress => { progress with scopeDepth := progress.scopeDepth - 1 })
      (children.mapM recur)
  let progress ← get
  -- only the outermost scope is nested, and its path is forgotten behind it
  if 0 < progress.scopeDepth then return .all fragments
  else
    set { progress with scopePath := none }
    match progress.scopePath with
    | some path => return .nested path (.all fragments) none
    | none => return .all fragments

/-! ## Nodes -/

/-- The compiled first child of a parent or child scope, joined if the settings ask for it. -/
def joined (recur : NodeId → Compile Fragment) (join : Fragment → Fragment) (id : NodeId) :
    Compile Fragment := do
  match ← childrenOf id with
  | [] => return .matchAll none
  | child :: _ =>
    let fragment ← recur child
    return if env.settings.useParentChild then join fragment else fragment

/-- **Compiled node**, where `recur` compiles the nodes it is made of. -/
def node (recur : NodeId → Compile Fragment) (id : NodeId) : Compile Fragment := do
  let label ← labelOf id
  match label.kind with
  | .conjunction => return .all (← (← childrenOf id).mapM recur)
  | .disjunction => return .any (← (← childrenOf id).mapM recur)
  -- a clause of a filter may admit everything, and its negation would admit nothing
  | .negation =>
    if (← get).aggregating then return .matchAll none
    else return .bool [] [] (← (← childrenOf id).mapM recur) none none
  | .scope => scope env recur id
  | .child typeName => joined env recur (.hasChild typeName · none) id
  | .parent typeName =>
    if (← get).aggregating then return .matchAll none
    else joined env recur (.hasParent typeName · none) id
  | .expansion _ generated => expansion env recur id generated
  -- the boosts of connectives, scopes and joins have no place in what they become
  | .proximity .. => return (← proximity env label id).weighted label.boost
  | _ => return (← leaf env label).weighted label.boost

/-- A compiled node, at most `fuel` calls deep. -/
def nodeWithin : Nat → NodeId → Compile Fragment
  | 0, _ => throw .boundReached
  | fuel + 1, id => node env (nodeWithin fuel) id

/-- How deep a compilation may go. A branch of the tree is followed at most once for the node
itself, once for a scan and once for the visibility of that scan; this is far more. -/
def depthBound (size : Nat) : Nat := (size + 4) * (size + 4)

/-- **Compiled query** below a node. -/
def query (id : NodeId) : Compile Fragment := do
  nodeWithin env (depthBound (← arena).size) id

end LinkedSearch.Compile
