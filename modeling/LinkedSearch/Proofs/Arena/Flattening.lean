import LinkedSearch.Proofs.Arena.Holding

/-! # Trees flattened into slots

The insertion of a tree writes its nodes one after the other behind the slots that are there:

* `Tree.slots`: the slots of a tree in document order, with the ids at which they are stored.
* `slot?_insert`: an insertion appends these slots, whatever the arena is.
* `Stores`: the slots from an id on are those of a tree.
* `Stores.treeWithin`, `Stores.descendantsWithin`: what is read where a tree is stored.
* `popped`: the traversal that keeps the pending ids on a stack, and `Stores.popped`.
* `insert_flattens`: the parts put together. -/

namespace LinkedSearch.Query

namespace Tree

/-! ## The slots of a tree -/

/-- The ids of the roots of a forest whose trees are stored one after the other. -/
def starts (first : NodeId) : List Tree → List NodeId
  | [] => []
  | tree :: rest => first :: starts (first + tree.size) rest

@[simp] theorem starts_nil (first : NodeId) : starts first [] = [] := rfl

@[simp] theorem starts_cons (first : NodeId) (tree : Tree) (rest : List Tree) :
    starts first (tree :: rest) = first :: starts (first + tree.size) rest := rfl

mutual

/-- **Slots** of a tree in document order, stored from an id on below a parent. -/
def slots (parent : Option NodeId) (first : NodeId) : Tree → List Slot
  | node label children =>
    { label, children := starts (first + 1) children, parent }
      :: slotsAll first (first + 1) children

/-- The slots of a forest stored below a parent. -/
def slotsAll (parent first : NodeId) : List Tree → List Slot
  | [] => []
  | tree :: rest => tree.slots (some parent) first ++ slotsAll parent (first + tree.size) rest

end

theorem slots_node (parent : Option NodeId) (first : NodeId) (l : Label) (children : List Tree) :
    (node l children).slots parent first =
      { label := l, children := starts (first + 1) children, parent }
        :: slotsAll first (first + 1) children := by
  rw [slots]

@[simp] theorem slotsAll_nil (parent first : NodeId) : slotsAll parent first [] = [] := by
  rw [slotsAll]

theorem slotsAll_cons (parent first : NodeId) (tree : Tree) (rest : List Tree) :
    slotsAll parent first (tree :: rest) =
      tree.slots (some parent) first ++ slotsAll parent (first + tree.size) rest := by
  rw [slotsAll]

mutual

/-- A tree has a slot for each of its nodes. -/
@[simp] theorem length_slots (parent : Option NodeId) :
    ∀ (first : NodeId) (tree : Tree), (tree.slots parent first).length = tree.size
  | first, node label children => by
    rw [slots_node, List.length_cons, length_slotsAll, size_node]

/-- A forest has a slot for each of its nodes. -/
@[simp] theorem length_slotsAll (parent : NodeId) :
    ∀ (first : NodeId) (trees : List Tree), (slotsAll parent first trees).length = sizes trees
  | _, [] => by rw [slotsAll_nil, sizes_nil, List.length_nil]
  | first, tree :: rest => by
    rw [slotsAll_cons, List.length_append, length_slots, length_slotsAll, sizes_cons]

end

/-- Only the first slot of a tree knows what the tree hangs from. -/
theorem getElem?_slots_some (tree : Tree) (parent first i : Nat) :
    (tree.slots (some parent) first)[i]? =
      if i = 0 then ((tree.slots none first)[i]?).map fun slot => { slot with parent := some parent }
      else (tree.slots none first)[i]? := by
  cases tree with
  | node label children =>
    rw [slots_node, slots_node]
    cases i with
    | zero => rfl
    | succ i => rfl

mutual

/-- **Outline**: the labels of a tree in document order, each with the level of its node. -/
def outline (level : Nat) : Tree → List (Nat × Label)
  | node label children => (level, label) :: outlines (level + 1) children

/-- The outline of a forest. -/
def outlines (level : Nat) : List Tree → List (Nat × Label)
  | [] => []
  | tree :: rest => tree.outline level ++ outlines level rest

end

@[simp] theorem outline_node (level : Nat) (l : Label) (children : List Tree) :
    (node l children).outline level = (level, l) :: outlines (level + 1) children := by
  rw [outline]

@[simp] theorem outlines_nil (level : Nat) : outlines level [] = [] := by
  rw [outlines]

@[simp] theorem outlines_cons (level : Nat) (tree : Tree) (rest : List Tree) :
    outlines level (tree :: rest) = tree.outline level ++ outlines level rest := by
  rw [outlines]

mutual

/-- An outline has the labels in document order. -/
@[simp] theorem map_snd_outline : ∀ (level : Nat) (tree : Tree),
    (tree.outline level).map Prod.snd = tree.preorder
  | level, node label children => by
    rw [outline_node, List.map_cons, map_snd_outlines, preorder_node]

/-- The outline of a forest has its labels in document order. -/
@[simp] theorem map_snd_outlines : ∀ (level : Nat) (trees : List Tree),
    (outlines level trees).map Prod.snd = preorders trees
  | _, [] => by rw [outlines_nil, preorders_nil, List.map_nil]
  | level, tree :: rest => by
    rw [outlines_cons, List.map_append, map_snd_outline, map_snd_outlines, preorders_cons]

end

/-- The text of an outline, a line per node. -/
def outlineText (entries : List (Nat × Label)) : String :=
  String.join (entries.map fun entry => Arena.indentedLine entry.1 entry.2.description)

@[simp] theorem outlineText_nil : outlineText [] = "" := rfl

@[simp] theorem outlineText_cons (entry : Nat × Label) (entries : List (Nat × Label)) :
    outlineText (entry :: entries) =
      Arena.indentedLine entry.1 entry.2.description ++ outlineText entries := by
  rw [outlineText, List.map_cons, String.join_cons, outlineText]

@[simp] theorem outlineText_append (entries entries' : List (Nat × Label)) :
    outlineText (entries ++ entries') = outlineText entries ++ outlineText entries' := by
  rw [outlineText, List.map_append, String.join_append, outlineText, outlineText]

end Tree

namespace Arena

variable {arena : Arena}

/-! ## Insertion -/

mutual

/-- An insertion appends a slot per node. -/
@[simp] theorem size_insert : ∀ (tree : Tree) (arena : Arena),
    (arena.insert tree).1.size = arena.size + tree.size
  | .node label children, arena => by
    rw [Arena.insert]
    simp only
    rw [size_insertChildren children, size_push, Tree.size_node]
    omega

/-- An insertion of a forest appends a slot per node. -/
@[simp] theorem size_insertChildren : ∀ (trees : List Tree) (arena : Arena) (parent : NodeId),
    (arena.insertChildren parent trees).size = arena.size + Tree.sizes trees
  | [], arena, parent => by rw [Arena.insertChildren, Tree.sizes_nil, Nat.add_zero]
  | tree :: rest, arena, parent => by
    rw [Arena.insertChildren]
    simp only
    rw [size_insertChildren rest, size_addChild, size_insert tree, Tree.sizes_cons]
    omega

end

/-- An inserted tree gets the next free id. -/
@[simp] theorem insert_snd (tree : Tree) (arena : Arena) : (arena.insert tree).2 = arena.size := by
  cases tree with
  | node label children => rw [Arena.insert]; rfl

mutual

/-- **Slots after an insertion**: the slots of the tree follow the earlier ones. -/
theorem slot?_insert : ∀ (tree : Tree) (arena : Arena) (i : Nat),
    (arena.insert tree).1.slot? i =
      if i < arena.size then arena.slot? i else (tree.slots none arena.size)[i - arena.size]?
  | .node label children, arena, i => by
    have hparent : arena.size < (arena.push label).1.size := by rw [size_push]; omega
    rw [Arena.insert]
    simp only [push_snd]
    rw [slot?_insertChildren children _ _ hparent, size_push, Tree.slots_node]
    rcases Nat.lt_trichotomy i arena.size with hlt | rfl | hgt
    · rw [if_neg (Nat.ne_of_lt hlt), if_pos (Nat.lt_trans hlt (Nat.lt_succ_self _)), if_pos hlt,
        slot?_push_of_lt label hlt]
    · rw [if_pos rfl, if_neg (Nat.lt_irrefl _), slot?_push_size, Nat.sub_self]
      rfl
    · obtain ⟨k, rfl⟩ : ∃ k, i = arena.size + 1 + k := Nat.exists_eq_add_of_le hgt
      rw [if_neg (Nat.ne_of_gt hgt), if_neg (by omega), if_neg (by omega),
        show arena.size + 1 + k - (arena.size + 1) = k by omega,
        show arena.size + 1 + k - arena.size = k + 1 by omega, List.getElem?_cons_succ]

/-- **Slots after an insertion of a forest**: the slots of its trees follow the earlier ones, of which
only the parent changes. -/
theorem slot?_insertChildren : ∀ (trees : List Tree) (arena : Arena) (parent : NodeId),
    parent < arena.size → ∀ i : Nat, (arena.insertChildren parent trees).slot? i =
      if i = parent then (arena.slot? i).map fun slot =>
        { slot with children := slot.children ++ Tree.starts arena.size trees }
      else if i < arena.size then arena.slot? i
      else (Tree.slotsAll parent arena.size trees)[i - arena.size]?
  | [], arena, parent, hparent, i => by
    rw [Arena.insertChildren, Tree.slotsAll_nil, Tree.starts_nil]
    by_cases hp : i = parent
    · rw [if_pos hp]
      cases arena.slot? i with
      | none => rfl
      | some slot => simp
    · rw [if_neg hp]
      split
      · rfl
      · next hi => exact slot?_eq_none_iff.mpr (Nat.le_of_not_lt hi)
  | tree :: rest, arena, parent, hparent, i => by
    have hne : parent ≠ arena.size := Nat.ne_of_lt hparent
    have hsize : ((arena.insert tree).1.addChild parent arena.size).size = arena.size + tree.size := by
      rw [size_addChild, size_insert]
    have htree := tree.size_pos
    rw [Arena.insertChildren]
    simp only [insert_snd]
    rw [slot?_insertChildren rest _ _ (hsize ▸ Nat.lt_add_right _ hparent), hsize, slot?_addChild _ hne,
      slot?_insert tree]
    by_cases hp : i = parent
    · subst hp
      -- the parent gets the new root as its next child, and the later roots after it
      rw [if_pos rfl, if_pos rfl, if_pos rfl, if_pos hparent, Option.map_map]
      simp only [Function.comp_def, Tree.starts_cons, List.append_assoc, List.singleton_append]
    · rw [if_neg hp, if_neg hp, if_neg hp]
      by_cases hold : i < arena.size
      · rw [if_pos (Nat.lt_add_right _ hold), if_neg (Nat.ne_of_lt hold), if_pos hold, if_pos hold]
      · rw [if_neg hold, if_neg hold, Tree.slotsAll_cons]
        obtain ⟨k, rfl⟩ : ∃ k, i = arena.size + k := Nat.exists_eq_add_of_le (Nat.le_of_not_lt hold)
        rw [Nat.add_sub_cancel_left]
        by_cases hfirst : k < tree.size
        · rw [if_pos (by omega), List.getElem?_append_left (by rwa [Tree.length_slots]),
            Tree.getElem?_slots_some]
          -- of the slots of the tree only the root's is changed, when it is hung below its parent
          by_cases hk : k = 0
          · rw [if_pos hk, if_pos (by omega)]
          · rw [if_neg hk, if_neg (by omega)]
        · rw [if_neg (by omega), List.getElem?_append_right (by rw [Tree.length_slots]; omega),
            Tree.length_slots, Nat.sub_add_eq, Nat.add_sub_cancel_left]

end

/-! ## Stored slots -/

/-- **Storing**: some slots stand one after the other from an id on. -/
def Stores (arena : Arena) (first : NodeId) (slots : List Slot) : Prop :=
  ∀ i < slots.length, arena.slot? (first + i) = slots[i]?

namespace Stores

variable {first parent : NodeId} {slots slots' : List Slot}

/-- What is stored at the first id. -/
theorem head {slot : Slot} (h : arena.Stores first (slot :: slots)) : arena.slot? first = some slot :=
  h 0 (Nat.succ_pos _)

/-- What is stored behind the first id. -/
theorem tail {slot : Slot} (h : arena.Stores first (slot :: slots)) : arena.Stores (first + 1) slots := by
  intro i hi
  have hslot := h (i + 1) (by rw [List.length_cons]; omega)
  rwa [List.getElem?_cons_succ, ← Nat.add_assoc, Nat.add_right_comm] at hslot

/-- What is stored first. -/
theorem left (h : arena.Stores first (slots ++ slots')) : arena.Stores first slots := by
  intro i hi
  rw [h i (by rw [List.length_append]; omega), List.getElem?_append_left hi]

/-- What is stored last. -/
theorem right (h : arena.Stores first (slots ++ slots')) :
    arena.Stores (first + slots.length) slots' := by
  intro i hi
  rw [Nat.add_assoc, h _ (by rw [List.length_append]; omega),
    List.getElem?_append_right (Nat.le_add_right _ _), Nat.add_sub_cancel_left]

/-- The trees of a stored forest are stored one after the other. -/
theorem cons {tree : Tree} {rest : List Tree} (h : arena.Stores first (Tree.slotsAll parent first (tree :: rest))) :
    arena.Stores first (tree.slots (some parent) first)
      ∧ arena.Stores (first + tree.size) (Tree.slotsAll parent (first + tree.size) rest) := by
  rw [Tree.slotsAll_cons] at h
  refine ⟨h.left, ?_⟩
  have hright := h.right
  rwa [Tree.length_slots] at hright

mutual

/-- **Reading back**: where a tree is stored, it is read. -/
theorem treeWithin : ∀ {tree : Tree} {parent : Option NodeId} {first fuel : Nat},
    arena.Stores first (tree.slots parent first) → tree.size ≤ fuel + 1 →
      arena.treeWithin fuel first = tree
  | .node label children, parent, first, fuel, h, hfuel => by
    rw [Tree.slots_node] at h
    rw [Tree.size_node] at hfuel
    cases fuel with
    | zero =>
      -- the bound stops at a node that has no children anyway
      rw [Arena.treeWithin, label_of_slot? h.head,
        Tree.eq_nil_of_sizes (Nat.le_of_succ_le_succ hfuel)]
    | succ fuel =>
      rw [Arena.treeWithin, label_of_slot? h.head, children_of_slot? h.head]
      exact congrArg _ (treesWithin h.tail (Nat.le_of_succ_le_succ hfuel))

/-- Reading back a forest. -/
theorem treesWithin : ∀ {trees : List Tree} {parent first fuel : Nat},
    arena.Stores first (Tree.slotsAll parent first trees) → Tree.sizes trees ≤ fuel + 1 →
      (Tree.starts first trees).map (arena.treeWithin fuel) = trees
  | [], _, _, _, _, _ => rfl
  | tree :: rest, parent, first, fuel, h, hfuel => by
    rw [Tree.sizes_cons] at hfuel
    rw [Tree.starts_cons, List.map_cons, treeWithin h.cons.1 (by omega),
      treesWithin h.cons.2 (by omega)]

end

mutual

/-- **Descendants**: where a tree is stored, they are the ids of its slots in ascending order. -/
theorem descendantsWithin : ∀ {tree : Tree} {parent : Option NodeId} {first fuel : Nat},
    arena.Stores first (tree.slots parent first) → tree.size ≤ fuel + 1 →
      arena.descendantsWithin fuel first = List.range' first tree.size
  | .node label children, parent, first, fuel, h, hfuel => by
    rw [Tree.slots_node] at h
    rw [Tree.size_node] at hfuel
    rw [Tree.size_node, List.range'_succ]
    cases fuel with
    | zero =>
      rw [Arena.descendantsWithin, Tree.eq_nil_of_sizes (Nat.le_of_succ_le_succ hfuel)]
      rfl
    | succ fuel =>
      rw [Arena.descendantsWithin, children_of_slot? h.head]
      exact congrArg _ (descendantsWithinAll h.tail (Nat.le_of_succ_le_succ hfuel))

/-- Descendants where a forest is stored. -/
theorem descendantsWithinAll : ∀ {trees : List Tree} {parent first fuel : Nat},
    arena.Stores first (Tree.slotsAll parent first trees) → Tree.sizes trees ≤ fuel + 1 →
      (Tree.starts first trees).flatMap (arena.descendantsWithin fuel) =
        List.range' first (Tree.sizes trees)
  | [], _, _, _, _, _ => rfl
  | tree :: rest, parent, first, fuel, h, hfuel => by
    rw [Tree.sizes_cons] at hfuel
    rw [Tree.starts_cons, List.flatMap_cons, descendantsWithin h.cons.1 (by omega),
      descendantsWithinAll h.cons.2 (by omega), Tree.sizes_cons, List.range'_append_1]

end

end Stores

/-! ## Traversals -/

/-- **Traversal with a stack**: the ids that come off the stack when each one that does leaves its
children in its place, first child on top; the stack has to be empty after some number of passes. -/
def popped (arena : Arena) : Nat → List NodeId → Option (List NodeId)
  | _, [] => some []
  | 0, _ :: _ => none
  | passes + 1, id :: rest => (arena.popped passes (arena.children id ++ rest)).map (id :: ·)

theorem popped_nil (passes : Nat) : arena.popped passes [] = some [] := by
  cases passes <;> rfl

mutual

/-- **A stored tree on the stack**: it takes a pass for each node, in the order of the slots. -/
theorem Stores.popped : ∀ {tree : Tree} {parent : Option NodeId} {first : Nat},
    arena.Stores first (tree.slots parent first) → ∀ (passes : Nat) (rest : List NodeId),
      arena.popped (tree.size + passes) (first :: rest) =
        (arena.popped passes rest).map (List.range' first tree.size ++ ·)
  | .node label children, parent, first, h, passes, rest => by
    rw [Tree.slots_node] at h
    rw [Tree.size_node, Nat.add_right_comm, Arena.popped, children_of_slot? h.head,
      h.tail.poppedAll, Option.map_map, List.range'_succ]
    rfl

/-- A stored forest on the stack. -/
theorem Stores.poppedAll : ∀ {trees : List Tree} {parent first : Nat},
    arena.Stores first (Tree.slotsAll parent first trees) → ∀ (passes : Nat) (rest : List NodeId),
      arena.popped (Tree.sizes trees + passes) (Tree.starts first trees ++ rest) =
        (arena.popped passes rest).map (List.range' first (Tree.sizes trees) ++ ·)
  | [], _, _, _, passes, rest => by simp
  | tree :: later, parent, first, h, passes, rest => by
    rw [Tree.sizes_cons, Tree.starts_cons, List.cons_append, Nat.add_assoc, h.cons.1.popped,
      h.cons.2.poppedAll, Option.map_map]
    simp only [Function.comp_def, ← List.append_assoc, List.range'_append_1]

end

/-- The labels along a traversal are those of the tree that is read, in document order. -/
theorem map_label_descendantsWithin (arena : Arena) (fuel : Nat) (id : NodeId) :
    (arena.descendantsWithin fuel id).map arena.label = (arena.treeWithin fuel id).preorder := by
  induction fuel generalizing id with
  | zero => rw [descendantsWithin, treeWithin, Tree.preorder_node, Tree.preorders_nil]; rfl
  | succ fuel ih =>
    have hforest : ∀ ids : List NodeId,
        (ids.flatMap (arena.descendantsWithin fuel)).map arena.label =
          Tree.preorders (ids.map (arena.treeWithin fuel)) := by
      intro ids
      induction ids with
      | nil => rw [List.flatMap_nil, List.map_nil, List.map_nil, Tree.preorders_nil]
      | cons child rest ihr =>
        rw [List.flatMap_cons, List.map_append, ih, ihr, List.map_cons, Tree.preorders_cons]
    rw [descendantsWithin, List.map_cons, hforest, treeWithin, Tree.preorder_node]

/-- The lines of a dump are those of the outline of the tree that is read. -/
theorem dumpWithin_eq (arena : Arena) (fuel level : Nat) (id : NodeId) :
    arena.dumpWithin fuel level id = Tree.outlineText ((arena.treeWithin fuel id).outline level) := by
  induction fuel generalizing level id with
  | zero =>
    rw [dumpWithin, treeWithin, Tree.outline_node, Tree.outlines_nil, Tree.outlineText_cons,
      Tree.outlineText_nil, String.append_empty]
  | succ fuel ih =>
    have hforest : ∀ ids : List NodeId,
        String.join (ids.map (arena.dumpWithin fuel (level + 1))) =
          Tree.outlineText (Tree.outlines (level + 1) (ids.map (arena.treeWithin fuel))) := by
      intro ids
      induction ids with
      | nil => rw [List.map_nil, List.map_nil, Tree.outlines_nil, Tree.outlineText_nil]; rfl
      | cons child rest ihr =>
        rw [List.map_cons, String.join_cons, ih, ihr, List.map_cons, Tree.outlines_cons,
          Tree.outlineText_append]
    rw [dumpWithin, hforest, treeWithin, Tree.outline_node, Tree.outlineText_cons]

/-- An inserted tree is stored behind the earlier slots. -/
theorem stores_insert (tree : Tree) (arena : Arena) :
    (arena.insert tree).1.Stores arena.size (tree.slots none arena.size) := by
  intro i hi
  rw [slot?_insert, if_neg (Nat.not_lt_of_le (Nat.le_add_right _ _)), Nat.add_sub_cancel_left]

/-- **Flattening loses nothing.** A tree inserted into any arena adds a slot per node behind the
earlier slots, which stay as they are, and its root gets the first new id. The descendants of the
root are the new ids in ascending order, and the traversal with a stack ends with the same ids. Their
labels are the labels of the tree in document order, which is also the order of the lines of the
dump, and the tree that is read back is the inserted one. -/
theorem insert_flattens (tree : Tree) (arena : Arena) :
    let after := (arena.insert tree).1
    let root := (arena.insert tree).2
    after.size = arena.size + tree.size
      ∧ (∀ id < arena.size, after.slot? id = arena.slot? id)
      ∧ root = arena.size
      ∧ after.descendants root = List.range' arena.size tree.size
      ∧ (∀ passes, tree.size ≤ passes →
          after.popped passes [root] = some (after.descendants root))
      ∧ (after.descendants root).map after.label = tree.preorder
      ∧ after.dump root = Tree.outlineText (tree.outline 1)
      ∧ (tree.outline 1).map Prod.snd = (after.descendants root).map after.label
      ∧ after.treeAt root = tree := by
  intro after root
  have hsize : after.size = arena.size + tree.size := size_insert tree arena
  have hroot : root = arena.size := insert_snd tree arena
  have hstores : after.Stores root (tree.slots none root) := hroot ▸ stores_insert tree arena
  have hfuel : tree.size ≤ after.size + 1 := by omega
  have htree : after.treeAt root = tree := hstores.treeWithin hfuel
  have hids : after.descendants root = List.range' root tree.size := hstores.descendantsWithin hfuel
  have hlabels : (after.descendants root).map after.label = tree.preorder := by
    rw [descendants, map_label_descendantsWithin, ← treeAt, htree]
  refine ⟨hsize, fun id hid => ?_, hroot, hroot ▸ hids, fun passes hpasses => ?_, hlabels, ?_, ?_, htree⟩
  · exact (slot?_insert tree arena id).trans (if_pos hid)
  · obtain ⟨spare, rfl⟩ := Nat.exists_eq_add_of_le hpasses
    rw [hstores.popped, popped_nil, Option.map_some, List.append_nil, hids]
  · rw [dump, dumpWithin_eq, ← treeAt, htree]
  · rw [hlabels, Tree.map_snd_outline]

end Arena
end LinkedSearch.Query
