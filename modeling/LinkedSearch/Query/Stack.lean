import LinkedSearch.Query.Arena

/-!
# Expansions in an arena

The expansions of a query are resolved from the inside out. Only the query of an expansion, its
first child, is searched for further ones.

* `Arena.expansions`: the expansions at or below a node, outer ones before inner ones.
* `Arena.stripName`: the fields below a node without the name of a link.
-/

namespace LinkedSearch.Query.Arena

/-- The expansions at most `depth` levels below a node. -/
def expansionsWithin (arena : Arena) : Nat → NodeId → List NodeId
  | 0, id => if (arena.label id).kind.isExpansion then [id] else []
  | depth + 1, id =>
    if (arena.label id).kind.isExpansion then
      id :: (arena.child? id 0).elim [] (arena.expansionsWithin depth)
    else (arena.children id).flatMap (arena.expansionsWithin depth)

/-- **Expansions** at or below a node in document order, so that each comes before those in its
query. -/
def expansions (arena : Arena) (root : NodeId) : List NodeId :=
  arena.expansionsWithin arena.size root

/-- A field without the name of a link and the dot after it, if it starts with them. -/
def withoutName (name field : String) : String :=
  match List.isPrefixOf? (name.toList ++ ['.']) field.toList with
  | some rest => String.ofList rest
  | none => field

/-- **Stripping**: the fields at or below a node without the name of a link. -/
def stripName (arena : Arena) (root : NodeId) (name : String) : Arena :=
  (arena.descendants root).foldl
    (fun arena id => arena.modifyLabel id fun label =>
      { label with field := label.field.map (withoutName name) })
    arena

/-- Whether a node is another one or lies below it. -/
def isWithin (arena : Arena) (id scope : NodeId) : Bool :=
  id == scope || (arena.ancestors id).contains scope

end LinkedSearch.Query.Arena
