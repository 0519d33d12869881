import LinkedSearch.Proofs.Arena.Edges
import LinkedSearch.Query.Request

/-! # Relabelled queries

Changing every label of a query in the same way commutes with everything that is done with its nodes: they
keep their numbers and their edges, so that what is read from them, inserted, replaced or relabelled is the
same up to the change.

* `Tree.relabel`, `Arena.relabel`, `Draft.relabel`: other labels in the same shape.
* `Label.Mild`: changes that are hardly noticed, which leave fields alone and keep expansions apart.
* `label_relabel`, `children_relabel`, `parent?_relabel`: what is read at a node.
* `relabel_modify`, `relabel_replace`, `relabel_insert`, …: the operations.
* `descendants_relabel`, `treeAt_relabel`, `expansions_relabel`, …: the traversals. -/

namespace LinkedSearch.Query

/-- **Mild changes** of labels: they leave fields alone and keep expansions apart from other nodes, and they
leave the label alone that stands for nodes that do not exist. -/
structure Label.Mild (f : Label → Label) : Prop where
  default_eq : f default = default
  field_eq : ∀ label, (f label).field = label.field
  withField_eq : ∀ (label : Label) field, f { label with field } = { f label with field }
  isExpansion_eq : ∀ label, (f label).kind.isExpansion = label.kind.isExpansion

variable {f : Label → Label}

namespace Tree

mutual

/-- A query of the same shape with other labels. -/
def relabel (change : Label → Label) : Tree → Tree
  | node label children => node (change label) (relabelAll change children)

/-- Queries of the same shape with other labels. -/
def relabelAll (change : Label → Label) : List Tree → List Tree
  | [] => []
  | tree :: rest => tree.relabel change :: relabelAll change rest

end

theorem relabelAll_eq_map (trees : List Tree) :
    relabelAll f trees = trees.map (relabel f) := by
  induction trees with
  | nil => rw [relabelAll, List.map_nil]
  | cons tree rest ih => rw [relabelAll, List.map_cons, ih]

@[simp] theorem relabel_node (label : Label) (children : List Tree) :
    (node label children).relabel f = node (f label) (children.map (relabel f)) := by
  rw [relabel, relabelAll_eq_map]

mutual

@[simp] theorem size_relabel : ∀ tree : Tree, (tree.relabel f).size = tree.size
  | node label children => by rw [relabel, size_node, size_node, sizes_relabelAll]

@[simp] theorem sizes_relabelAll : ∀ trees : List Tree, sizes (relabelAll f trees) = sizes trees
  | [] => by rw [relabelAll]
  | tree :: rest => by rw [relabelAll, sizes_cons, sizes_cons, size_relabel, sizes_relabelAll]

end

mutual

/-- The labels of a query are changed one by one. -/
theorem preorder_relabel : ∀ tree : Tree, (tree.relabel f).preorder = tree.preorder.map f
  | node label children => by
    rw [relabel, preorder_node, preorder_node, List.map_cons, preorders_relabel children]

/-- The labels of some queries are changed one by one. -/
theorem preorders_relabel : ∀ trees : List Tree,
    preorders (relabelAll f trees) = (preorders trees).map f
  | [] => by rw [relabelAll, preorders_nil, List.map_nil]
  | tree :: rest => by
    rw [relabelAll, preorders_cons, preorders_cons, List.map_append, preorder_relabel tree,
      preorders_relabel rest]

end

mutual

/-- A query whose labels do not change stays what it is. -/
theorem relabel_of_forall : ∀ {tree : Tree}, (∀ label ∈ tree.preorder, f label = label) →
    tree.relabel f = tree
  | node label children, h => by
    rw [preorder_node] at h
    rw [relabel, h label List.mem_cons_self,
      relabelAll_of_forall fun l hl => h l (List.mem_cons_of_mem _ hl)]

/-- Queries whose labels do not change stay what they are. -/
theorem relabelAll_of_forall : ∀ {trees : List Tree},
    (∀ label ∈ preorders trees, f label = label) → relabelAll f trees = trees
  | [], _ => by rw [relabelAll]
  | tree :: rest, h => by
    rw [preorders_cons] at h
    rw [relabelAll, relabel_of_forall fun l hl => h l (List.mem_append_left _ hl),
      relabelAll_of_forall fun l hl => h l (List.mem_append_right _ hl)]

end

end Tree

/-- A slot with a changed label. -/
def Slot.relabel (f : Label → Label) (slot : Slot) : Slot := { slot with label := f slot.label }

namespace Arena

variable {arena other : Arena}

/-- An arena with changed labels. -/
def relabel (f : Label → Label) (arena : Arena) : Arena := ⟨arena.slots.map (Slot.relabel f)⟩

@[simp] theorem relabel_empty : empty.relabel f = empty := by simp [relabel, empty]

/-- Arenas are the same if their slots are. -/
theorem ext_slot? (h : ∀ id, arena.slot? id = other.slot? id) : arena = other := by
  obtain ⟨slots⟩ := arena
  obtain ⟨slots'⟩ := other
  exact congrArg Arena.mk (Array.ext_getElem? h)

/-! ## Reading -/

@[simp] theorem size_relabel (arena : Arena) : (arena.relabel f).size = arena.size := by
  simp [relabel, size]

theorem slot?_relabel (arena : Arena) (id : NodeId) :
    (arena.relabel f).slot? id = (arena.slot? id).map (Slot.relabel f) := by
  simp [relabel, slot?]

theorem label_relabel (hdefault : f default = default) (arena : Arena) (id : NodeId) :
    (arena.relabel f).label id = f (arena.label id) := by
  rw [label, label, slot?_relabel]
  cases arena.slot? id with
  | none => exact hdefault.symm
  | some slot => rfl

@[simp] theorem children_relabel (arena : Arena) (id : NodeId) :
    (arena.relabel f).children id = arena.children id := by
  rw [children, children, slot?_relabel]
  cases arena.slot? id <;> rfl

@[simp] theorem parent?_relabel (arena : Arena) (id : NodeId) :
    (arena.relabel f).parent? id = arena.parent? id := by
  rw [parent?, parent?, slot?_relabel]
  cases arena.slot? id <;> rfl

@[simp] theorem child?_relabel (arena : Arena) (id : NodeId) (index : Nat) :
    (arena.relabel f).child? id index = arena.child? id index := by
  rw [child?, child?, children_relabel]

/-! ## Operations -/

/-- A change of a slot that does the same to a slot with a changed label. -/
theorem relabel_modify (arena : Arena) (id : NodeId) {change change' : Slot → Slot}
    (h : ∀ slot, (change slot).relabel f = change' (slot.relabel f)) :
    (arena.modify id change).relabel f = (arena.relabel f).modify id change' := by
  refine ext_slot? fun i => ?_
  rw [slot?_relabel, slot?_modify, slot?_modify, slot?_relabel]
  split
  · cases arena.slot? i with
    | none => rfl
    | some slot => exact congrArg some (h slot)
  · rfl

theorem relabel_push (arena : Arena) (label : Label) :
    (arena.push label).1.relabel f = ((arena.relabel f).push (f label)).1 := by
  refine ext_slot? fun i => ?_
  rw [slot?_relabel, slot?_push, slot?_push, slot?_relabel, size_relabel]
  split <;> rfl

theorem relabel_addChild (arena : Arena) (parent child : NodeId) :
    (arena.addChild parent child).relabel f = (arena.relabel f).addChild parent child := by
  refine (relabel_modify _ _ ?_).trans (congrArg (modify · parent _) (relabel_modify _ _ ?_))
  all_goals exact fun _ => rfl

theorem relabel_setChild (arena : Arena) (parent : NodeId) (index : Nat) (child : NodeId) :
    (arena.setChild parent index child).relabel f = (arena.relabel f).setChild parent index child := by
  refine (relabel_modify _ _ ?_).trans (congrArg (modify · parent _) (relabel_modify _ _ ?_))
  all_goals exact fun _ => rfl

theorem relabel_adopt (arena : Arena) (parent : NodeId) (ids : List NodeId) :
    (arena.adopt parent ids).relabel f = (arena.relabel f).adopt parent ids := by
  induction ids generalizing arena with
  | nil => rfl
  | cons id rest ih =>
    unfold adopt at ih ⊢
    rw [List.foldl_cons, List.foldl_cons, ih]
    refine congrArg (rest.foldl _) (relabel_modify _ _ ?_)
    exact fun _ => rfl

/-- A change of a label that does the same to a changed label. -/
theorem relabel_modifyLabel (arena : Arena) (id : NodeId) {change change' : Label → Label}
    (h : ∀ label, f (change label) = change' (f label)) :
    (arena.modifyLabel id change).relabel f = (arena.relabel f).modifyLabel id change' :=
  relabel_modify _ _ fun slot => congrArg (fun label => { slot with label }) (h slot.label)

theorem relabel_replace (arena : Arena) (target source : NodeId) :
    (arena.replace target source).relabel f = (arena.relabel f).replace target source := by
  unfold replace
  split
  · rfl
  · rw [slot?_relabel, parent?_relabel]
    cases arena.slot? source with
    | none => rfl
    | some replacement =>
      refine (relabel_modify _ _ ?_).trans (congrArg (modify · source _) ((relabel_modify _ _ ?_).trans
        (congrArg (modify · target _) (relabel_adopt ..))))
      all_goals exact fun _ => rfl

mutual

/-- **Insertion** of a query with changed labels. -/
theorem relabel_insert (arena : Arena) : ∀ tree : Tree,
    (arena.insert tree).1.relabel f = ((arena.relabel f).insert (tree.relabel f)).1 ∧
      ((arena.relabel f).insert (tree.relabel f)).2 = (arena.insert tree).2
  | .node label children => by
    rw [Tree.relabel]
    unfold insert
    refine ⟨?_, size_relabel arena⟩
    show (insertChildren _ _ children).relabel f = insertChildren _ _ _
    rw [relabel_insertChildren _ _ children, relabel_push, push_snd, push_snd, size_relabel]

/-- Insertion of children with changed labels. -/
theorem relabel_insertChildren (arena : Arena) (parent : NodeId) : ∀ trees : List Tree,
    (arena.insertChildren parent trees).relabel f =
      (arena.relabel f).insertChildren parent (Tree.relabelAll f trees)
  | [] => by
    rw [Tree.relabelAll]
    unfold insertChildren
    rfl
  | tree :: rest => by
    obtain ⟨hinsert, hid⟩ := relabel_insert arena tree
    rw [Tree.relabelAll]
    unfold insertChildren
    simp only
    rw [relabel_insertChildren _ _ rest, relabel_addChild, hinsert, hid]

end

/-! ## Traversals -/

theorem descendantsWithin_relabel (arena : Arena) (depth : Nat) (id : NodeId) :
    (arena.relabel f).descendantsWithin depth id = arena.descendantsWithin depth id := by
  induction depth generalizing id with
  | zero => rfl
  | succ depth ih =>
    rw [descendantsWithin, descendantsWithin, children_relabel]
    rw [show (arena.relabel f).descendantsWithin depth = arena.descendantsWithin depth from funext ih]

@[simp] theorem descendants_relabel (arena : Arena) (root : NodeId) :
    (arena.relabel f).descendants root = arena.descendants root := by
  rw [descendants, descendants, size_relabel, descendantsWithin_relabel]

theorem ancestorsWithin_relabel (arena : Arena) (fuel : Nat) (id : NodeId) :
    (arena.relabel f).ancestorsWithin fuel id = arena.ancestorsWithin fuel id := by
  induction fuel generalizing id with
  | zero => rfl
  | succ fuel ih =>
    rw [ancestorsWithin, ancestorsWithin, parent?_relabel]
    cases arena.parent? id with
    | none => rfl
    | some parent => exact congrArg (parent :: ·) (ih parent)

@[simp] theorem ancestors_relabel (arena : Arena) (id : NodeId) :
    (arena.relabel f).ancestors id = arena.ancestors id := by
  rw [ancestors, ancestors, size_relabel, ancestorsWithin_relabel]

@[simp] theorem isWithin_relabel (arena : Arena) (id scope : NodeId) :
    (arena.relabel f).isWithin id scope = arena.isWithin id scope := by
  rw [isWithin, isWithin, ancestors_relabel]

section Mild

variable (h : Label.Mild f)

include h

/-- A search for what does not depend on the change. -/
theorem find?_relabel (arena : Arena) (root : NodeId) {condition : Label → Bool}
    (hcondition : ∀ label, condition (f label) = condition label) :
    (arena.relabel f).find? root condition = arena.find? root condition := by
  rw [find?, find?, descendants_relabel]
  simp only [label_relabel h.default_eq, hcondition]

theorem treeWithin_relabel (arena : Arena) (depth : Nat) (id : NodeId) :
    (arena.relabel f).treeWithin depth id = (arena.treeWithin depth id).relabel f := by
  induction depth generalizing id with
  | zero => rw [treeWithin, treeWithin, label_relabel h.default_eq, Tree.relabel_node, List.map_nil]
  | succ depth ih =>
    rw [treeWithin, treeWithin, label_relabel h.default_eq, children_relabel, Tree.relabel_node, List.map_map]
    exact congrArg (Tree.node _) (List.map_congr_left fun child _ => ih child)

theorem treeAt_relabel (arena : Arena) (root : NodeId) :
    (arena.relabel f).treeAt root = (arena.treeAt root).relabel f := by
  rw [treeAt, treeAt, size_relabel, treeWithin_relabel h]

theorem expansionsWithin_relabel (arena : Arena) (depth : Nat) (id : NodeId) :
    (arena.relabel f).expansionsWithin depth id = arena.expansionsWithin depth id := by
  induction depth generalizing id with
  | zero => rw [expansionsWithin, expansionsWithin, label_relabel h.default_eq, h.isExpansion_eq]
  | succ depth ih =>
    rw [expansionsWithin, expansionsWithin, label_relabel h.default_eq, h.isExpansion_eq, children_relabel,
      child?_relabel,
      show (arena.relabel f).expansionsWithin depth = arena.expansionsWithin depth from funext ih]

theorem expansions_relabel (arena : Arena) (root : NodeId) :
    (arena.relabel f).expansions root = arena.expansions root := by
  rw [expansions, expansions, size_relabel, expansionsWithin_relabel h]

/-- Names are stripped from fields, which do not change. -/
theorem relabel_stripName (arena : Arena) (root : NodeId) (name : String) :
    (arena.stripName root name).relabel f = (arena.relabel f).stripName root name := by
  unfold stripName
  rw [descendants_relabel]
  generalize arena.descendants root = ids
  induction ids generalizing arena with
  | nil => rfl
  | cons id rest ih =>
    rw [List.foldl_cons, List.foldl_cons, ih]
    refine congrArg (rest.foldl _) (relabel_modifyLabel _ _ fun label => ?_)
    rw [h.withField_eq, h.field_eq]

end Mild

end Arena

/-! ## Requests and drafts -/

/-- A request with changed labels in its query. -/
def Request.relabel (f : Label → Label) (request : Request) : Request :=
  { request with query := request.query.map (Tree.relabel f) }

namespace Draft

/-- A draft with changed labels in its query. -/
def relabel (f : Label → Label) (draft : Draft) : Draft := { draft with arena := draft.arena.relabel f }

@[simp] theorem nodes_relabel (draft : Draft) : (draft.relabel f).nodes = draft.nodes := by
  obtain ⟨arena, root⟩ := draft
  cases root with
  | none => rfl
  | some root => exact Arena.descendants_relabel arena root

variable (h : Label.Mild f)

include h

theorem fieldNames_relabel (draft : Draft) : (draft.relabel f).fieldNames = draft.fieldNames := by
  have hfields (id : NodeId) : ((draft.relabel f).arena.label id).field = (draft.arena.label id).field := by
    rw [relabel, Arena.label_relabel h.default_eq, h.field_eq]
  rw [fieldNames, nodes_relabel]
  exact congrArg (draft.nodes.filterMap ·) (funext hfields)

/-- A search for what does not depend on the change. -/
theorem find?_relabel (draft : Draft) {condition : Label → Bool}
    (hcondition : ∀ label, condition (f label) = condition label) :
    (draft.relabel f).find? condition = draft.find? condition := by
  unfold find?
  exact congrArg draft.root.bind (funext fun root => Arena.find?_relabel h draft.arena root hcondition)

end Draft

/-- **Draft** of a request with changed labels. -/
theorem Request.draft_relabel (request : Request) :
    (request.relabel f).draft = request.draft.relabel f := by
  obtain ⟨links, query, aggregate, suggestion, arrayData⟩ := request
  cases query with
  | none => simp only [Request.draft, Request.relabel, Draft.relabel, Option.map_none, Arena.relabel_empty]
  | some tree =>
    obtain ⟨hinsert, hid⟩ := Arena.relabel_insert (f := f) Arena.empty tree
    rw [Arena.relabel_empty] at hinsert hid
    simp only [Request.draft, Request.relabel, Draft.relabel, Option.map_some, hinsert, hid]

end LinkedSearch.Query
