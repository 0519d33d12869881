import LinkedSearch.Proofs.Arena.Relabeling

/-! # Queries without their boosts

Leaving out every boost of a query changes its labels mildly, so that it commutes with everything that is
done with its nodes: what is read from them, inserted, replaced or relabelled is the same up to boosts.

* `Label.unweighted`, `Tree.unweighted`, `Arena.unweighted`: the boosts left out, as a change of labels.
* `label_unweighted`, `children_unweighted`: what is read at a node.
* `unweighted_push`, `unweighted_replace`, …: the operations.
* `descendants_unweighted`, `treeAt_unweighted`, `expansions_unweighted`, …: the traversals. -/

namespace LinkedSearch.Query

/-- A label without its boost. -/
def Label.unweighted (label : Label) : Label := { label with boost := none }

@[simp] theorem Label.kind_unweighted (label : Label) : label.unweighted.kind = label.kind := rfl

@[simp] theorem Label.field_unweighted (label : Label) : label.unweighted.field = label.field := rfl

mutual

/-- A query without its boosts. -/
def Tree.unweighted : Tree → Tree
  | .node label children => .node label.unweighted (Tree.unweightedAll children)

/-- Some queries without their boosts. -/
def Tree.unweightedAll : List Tree → List Tree
  | [] => []
  | tree :: rest => tree.unweighted :: Tree.unweightedAll rest

end

@[simp] theorem Tree.unweightedAll_eq_map (trees : List Tree) :
    unweightedAll trees = trees.map unweighted := by
  induction trees with
  | nil => simp [unweightedAll]
  | cons tree rest ih => simp [unweightedAll, ih]

mutual

/-- Leaving out the boosts changes the labels. -/
theorem Tree.unweighted_eq_relabel : ∀ tree : Tree, tree.unweighted = tree.relabel Label.unweighted
  | .node label children => by rw [unweighted, relabel, Tree.unweightedAll_eq_relabelAll children]

/-- Leaving out the boosts of some queries changes the labels. -/
theorem Tree.unweightedAll_eq_relabelAll : ∀ trees : List Tree,
    Tree.unweightedAll trees = Tree.relabelAll Label.unweighted trees
  | [] => by rw [unweightedAll, relabelAll]
  | tree :: rest => by
    rw [unweightedAll, relabelAll, Tree.unweighted_eq_relabel tree, Tree.unweightedAll_eq_relabelAll rest]

end

/-- Boosts are left out without touching anything else. -/
theorem Label.mild_unweighted : Label.Mild Label.unweighted :=
  ⟨rfl, fun _ => rfl, fun _ _ => rfl, fun _ => rfl⟩

/-- A slot without the boost of its label. -/
def Slot.unweighted (slot : Slot) : Slot := { slot with label := slot.label.unweighted }

namespace Arena

/-- An arena without the boosts of its labels. -/
def unweighted (arena : Arena) : Arena := ⟨arena.slots.map Slot.unweighted⟩

/-- Leaving out the boosts changes the labels. -/
theorem unweighted_eq_relabel (arena : Arena) : arena.unweighted = arena.relabel Label.unweighted := rfl

/-! ## Reading -/

@[simp] theorem size_unweighted (arena : Arena) : arena.unweighted.size = arena.size := size_relabel arena

theorem slot?_unweighted (arena : Arena) (id : NodeId) :
    arena.unweighted.slot? id = (arena.slot? id).map Slot.unweighted := slot?_relabel arena id

@[simp] theorem label_unweighted (arena : Arena) (id : NodeId) :
    arena.unweighted.label id = (arena.label id).unweighted :=
  label_relabel Label.mild_unweighted.default_eq arena id

@[simp] theorem children_unweighted (arena : Arena) (id : NodeId) :
    arena.unweighted.children id = arena.children id := children_relabel arena id

@[simp] theorem child?_unweighted (arena : Arena) (id : NodeId) (index : Nat) :
    arena.unweighted.child? id index = arena.child? id index := child?_relabel arena id index

/-! ## Operations -/

theorem unweighted_push (arena : Arena) (label : Label) :
    (arena.push label).1.unweighted = (arena.unweighted.push label.unweighted).1 := relabel_push arena label

theorem unweighted_setChild (arena : Arena) (parent : NodeId) (index : Nat) (child : NodeId) :
    (arena.setChild parent index child).unweighted = arena.unweighted.setChild parent index child :=
  relabel_setChild arena parent index child

/-- A change of the boost leaves no trace. -/
theorem unweighted_modifyLabel_boost (arena : Arena) (id : NodeId) (boost : Option Number.Binary) :
    (arena.modifyLabel id fun label => { label with boost }).unweighted = arena.unweighted := by
  refine ext_slot? fun i => ?_
  rw [slot?_unweighted, slot?_modifyLabel, slot?_unweighted]
  split <;> cases arena.slot? i <;> rfl

theorem unweighted_replace (arena : Arena) (target source : NodeId) :
    (arena.replace target source).unweighted = arena.unweighted.replace target source :=
  relabel_replace arena target source

/-- Names are stripped from fields, which have no boosts. -/
theorem unweighted_stripName (arena : Arena) (root : NodeId) (name : String) :
    (arena.stripName root name).unweighted = arena.unweighted.stripName root name :=
  relabel_stripName Label.mild_unweighted arena root name

/-! ## Traversals -/

@[simp] theorem descendants_unweighted (arena : Arena) (root : NodeId) :
    arena.unweighted.descendants root = arena.descendants root := descendants_relabel arena root

@[simp] theorem treeAt_unweighted (arena : Arena) (root : NodeId) :
    arena.unweighted.treeAt root = (arena.treeAt root).unweighted :=
  (treeAt_relabel Label.mild_unweighted arena root).trans (Tree.unweighted_eq_relabel _).symm

@[simp] theorem ancestors_unweighted (arena : Arena) (id : NodeId) :
    arena.unweighted.ancestors id = arena.ancestors id := ancestors_relabel arena id

@[simp] theorem isWithin_unweighted (arena : Arena) (id scope : NodeId) :
    arena.unweighted.isWithin id scope = arena.isWithin id scope := isWithin_relabel arena id scope

@[simp] theorem expansions_unweighted (arena : Arena) (root : NodeId) :
    arena.unweighted.expansions root = arena.expansions root :=
  expansions_relabel Label.mild_unweighted arena root

end Arena

/-! ## Requests and drafts -/

/-- A request without the boosts of its query. -/
def Request.unweighted (request : Request) : Request :=
  { request with query := request.query.map Tree.unweighted }

namespace Draft

/-- A draft without the boosts of its query. -/
def unweighted (draft : Draft) : Draft := { draft with arena := draft.arena.unweighted }

@[simp] theorem fieldNames_unweighted (draft : Draft) :
    draft.unweighted.fieldNames = draft.fieldNames := fieldNames_relabel Label.mild_unweighted draft

/-- A search for what does not depend on boosts. -/
theorem find?_unweighted (draft : Draft) {condition : Label → Bool}
    (h : ∀ label, condition label.unweighted = condition label) :
    draft.unweighted.find? condition = draft.find? condition :=
  find?_relabel Label.mild_unweighted draft h

end Draft

/-- **Draft** of a request without boosts. -/
theorem Request.draft_unweighted (request : Request) :
    request.unweighted.draft = request.draft.unweighted := by
  have hrequest : request.unweighted = request.relabel Label.unweighted := by
    rw [Request.unweighted, Request.relabel, show Tree.unweighted = Tree.relabel Label.unweighted from
      funext Tree.unweighted_eq_relabel]
  rw [hrequest, Request.draft_relabel]
  rfl

end LinkedSearch.Query
