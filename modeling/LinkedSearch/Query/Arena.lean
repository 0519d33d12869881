import LinkedSearch.Query.Tree

/-!
# Arenas of query nodes

An arena holds the nodes of query trees in numbered slots. A slot knows the ids of its children and
of its parent, so that a node can be replaced in place: every id that referred to the old node then
refers to the new one. Slots are never removed; what is cut off stays behind, out of reach.

* `Arena.push`, `addChild`, `setChild`, `replace`: the operations.
* `Arena.insert`: the nodes of a tree in document order.
* `Arena.descendants`: the ids below a node in document order.
* `Arena.treeAt`: the tree read back from a node.
* `Arena.WellFormed`: what the operations keep, that child and parent edges agree and form trees.
-/

namespace LinkedSearch.Query

/-- The number of a slot. -/
abbrev NodeId := Nat

/-- A node of an arena. -/
structure Slot where
  label : Label
  children : List NodeId := []
  parent : Option NodeId := none
  deriving DecidableEq, Inhabited

/-- Numbered slots. -/
structure Arena where
  slots : Array Slot := #[]
  deriving DecidableEq, Inhabited

namespace Arena

/-- The arena without slots. -/
def empty : Arena := {}

/-- The number of slots. -/
def size (arena : Arena) : Nat := arena.slots.size

/-- The slot with an id. -/
def slot? (arena : Arena) (id : NodeId) : Option Slot := arena.slots[id]?

/-- The label of a node. -/
def label (arena : Arena) (id : NodeId) : Label := (arena.slot? id).elim default (·.label)

/-- The children of a node. -/
def children (arena : Arena) (id : NodeId) : List NodeId := (arena.slot? id).elim [] (·.children)

/-- The child of a node at an edge. -/
def child? (arena : Arena) (id : NodeId) (index : Nat) : Option NodeId :=
  (arena.children id)[index]?

/-- The parent of a node. -/
def parent? (arena : Arena) (id : NodeId) : Option NodeId := (arena.slot? id).bind (·.parent)

/-! ## Operations -/

/-- A change of one slot. -/
def modify (arena : Arena) (id : NodeId) (change : Slot → Slot) : Arena :=
  ⟨arena.slots.modify id change⟩

@[simp] theorem size_modify (arena : Arena) (id : NodeId) (change : Slot → Slot) :
    (arena.modify id change).size = arena.size := by simp [modify, size]

/-- A slot after a change. -/
theorem slot?_modify (arena : Arena) (id other : NodeId) (change : Slot → Slot) :
    (arena.modify id change).slot? other =
      if id = other then (arena.slot? other).map change else arena.slot? other := by
  simp [modify, slot?, Array.getElem?_modify]

/-- A new node without edges, and its id. -/
def push (arena : Arena) (label : Label) : Arena × NodeId :=
  (⟨arena.slots.push { label }⟩, arena.size)

@[simp] theorem push_snd (arena : Arena) (label : Label) : (arena.push label).2 = arena.size := rfl

@[simp] theorem size_push (arena : Arena) (label : Label) :
    (arena.push label).1.size = arena.size + 1 := by simp [push, size]

/-- Earlier slots are untouched by a push, and the new slot has no edges. -/
theorem slot?_push (arena : Arena) (label : Label) (id : NodeId) :
    (arena.push label).1.slot? id =
      if id = arena.size then some { label } else arena.slot? id := by
  by_cases last : id = arena.slots.size <;> simp [push, slot?, size, Array.getElem?_push, last]

/-- Append a child; the edge from an earlier parent stays. -/
def addChild (arena : Arena) (parent child : NodeId) : Arena :=
  (arena.modify child fun slot => { slot with parent := some parent }).modify parent fun slot =>
    { slot with children := slot.children ++ [child] }

@[simp] theorem size_addChild (arena : Arena) (parent child : NodeId) :
    (arena.addChild parent child).size = arena.size := by simp [addChild]

/-- Point a child edge at another node, or append it where there is no such edge. -/
def setChild (arena : Arena) (parent : NodeId) (index : Nat) (child : NodeId) : Arena :=
  (arena.modify child fun slot => { slot with parent := some parent }).modify parent fun slot =>
    { slot with
      children :=
        if index < slot.children.length then slot.children.set index child
        else slot.children ++ [child] }

@[simp] theorem size_setChild (arena : Arena) (parent : NodeId) (index : Nat) (child : NodeId) :
    (arena.setChild parent index child).size = arena.size := by simp [setChild]

/-- Make some nodes children of `parent` as seen from them. -/
def adopt (arena : Arena) (parent : NodeId) (ids : List NodeId) : Arena :=
  ids.foldl (fun arena id => arena.modify id fun slot => { slot with parent := some parent }) arena

@[simp] theorem size_adopt (arena : Arena) (parent : NodeId) (ids : List NodeId) :
    (arena.adopt parent ids).size = arena.size := by
  induction ids generalizing arena with
  | nil => rfl
  | cons id rest ih =>
    rw [adopt, List.foldl_cons, ← adopt, ih, size_modify]

/-- **Replacement**: the slot of `target` takes over the label and the children of `source` and
keeps its parent; the slot of `source` is left without edges. -/
def replace (arena : Arena) (target source : NodeId) : Arena :=
  if target = source then arena
  else
    match arena.slot? source with
    | none => arena
    | some replacement =>
      let parent := arena.parent? target
      ((arena.adopt target replacement.children).modify target fun _ =>
        { replacement with parent }).modify source fun slot =>
          { slot with children := [], parent := none }

@[simp] theorem size_replace (arena : Arena) (target source : NodeId) :
    (arena.replace target source).size = arena.size := by
  unfold replace
  split
  · rfl
  · split <;> simp

/-- A change of a label. -/
def modifyLabel (arena : Arena) (id : NodeId) (change : Label → Label) : Arena :=
  arena.modify id fun slot => { slot with label := change slot.label }

@[simp] theorem size_modifyLabel (arena : Arena) (id : NodeId) (change : Label → Label) :
    (arena.modifyLabel id change).size = arena.size := by simp [modifyLabel]

mutual

/-- **Insertion**: a node gets the next free slot, and its subtrees follow it one after the other.
The second component is the id of the root. -/
def insert (arena : Arena) : Tree → Arena × NodeId
  | .node label children =>
    let (arena, id) := arena.push label
    (insertChildren arena id children, id)

/-- Insert subtrees as the last children of a node. -/
def insertChildren (arena : Arena) (parent : NodeId) : List Tree → Arena
  | [] => arena
  | tree :: rest =>
    let (arena, id) := insert arena tree
    insertChildren (arena.addChild parent id) parent rest

end

/-! ## Traversals -/

/-- The ids at most `depth` levels below a node, in document order. -/
def descendantsWithin (arena : Arena) : Nat → NodeId → List NodeId
  | 0, id => [id]
  | depth + 1, id => id :: (arena.children id).flatMap (arena.descendantsWithin depth)

/-- **Descendants** of a node, itself included, in document order. A path without repetition has
no more nodes than there are slots, so the number of slots bounds the depth. -/
def descendants (arena : Arena) (root : NodeId) : List NodeId :=
  arena.descendantsWithin arena.size root

/-- The first node at or below a root that satisfies a condition, in document order. -/
def find? (arena : Arena) (root : NodeId) (condition : Label → Bool) : Option NodeId :=
  (arena.descendants root).find? fun id => condition (arena.label id)

/-- The tree read at a node, at most `depth` levels deep. -/
def treeWithin (arena : Arena) : Nat → NodeId → Tree
  | 0, id => .node (arena.label id) []
  | depth + 1, id => .node (arena.label id) ((arena.children id).map (arena.treeWithin depth))

/-- **Reading back**: the tree below a node. -/
def treeAt (arena : Arena) (root : NodeId) : Tree := arena.treeWithin arena.size root

/-- The parents of a node, nearest first, at most as many as there are slots. -/
def ancestorsWithin (arena : Arena) : Nat → NodeId → List NodeId
  | 0, _ => []
  | fuel + 1, id =>
    match arena.parent? id with
    | none => []
    | some parent => parent :: arena.ancestorsWithin fuel parent

/-- The nodes above a node, nearest first. -/
def ancestors (arena : Arena) (id : NodeId) : List NodeId :=
  arena.ancestorsWithin arena.size id

/-- One indented line. -/
def indentedLine (depth : Nat) (text : String) : String :=
  String.join (List.replicate depth "   ") ++ text ++ "\n"

/-- The lines of the nodes below a node, at most `fuel` levels deep. -/
def dumpWithin (arena : Arena) : Nat → Nat → NodeId → String
  | 0, depth, id => indentedLine depth (arena.label id).description
  | fuel + 1, depth, id =>
    indentedLine depth (arena.label id).description
      ++ String.join ((arena.children id).map (arena.dumpWithin fuel (depth + 1)))

/-- **Dump**: a line per node in document order, indented by its depth below the root. -/
def dump (arena : Arena) (root : NodeId) : String := arena.dumpWithin arena.size 1 root

/-! ## Well-formedness -/

/-- Child and parent edges agree and form trees: children exist and know their parent, no node is
a child twice, and along parent edges some rank strictly falls. -/
structure WellFormed (arena : Arena) : Prop where
  child_lt : ∀ id child, child ∈ arena.children id → child < arena.size
  parent_of_child : ∀ id child, child ∈ arena.children id → arena.parent? child = some id
  nodup_children : ∀ id, (arena.children id).Nodup
  ranked : ∃ rank : NodeId → Nat, ∀ id child, child ∈ arena.children id → rank child < rank id

end Arena

end LinkedSearch.Query
