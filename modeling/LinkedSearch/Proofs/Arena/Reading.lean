import LinkedSearch.Proofs.Arena.Ascending

/-! # Trees held by an arena

An arena holds a tree at a node if the labels and child edges below that node spell the tree:

* `Arena.Holds`: the relation, by recursion on the tree.
* `Holds.congr`: it only depends on the nodes below.
* `insert_spec`: an inserted tree is held at the next free slot, and nothing else changes.
* `labels_insert`: the labels of the arena grow by the labels of the tree in document order.
* `Ascending.holds_treeAt`: the tree read back at a node is the one that is held there. -/

namespace LinkedSearch.Query.Arena

variable {arena other : Arena} {n : Nat}

mutual

/-- **Holding**: the nodes below an id spell a tree. -/
def Holds (arena : Arena) (id : NodeId) : Tree → Prop
  | .node label children =>
    arena.label id = label ∧ HoldsAll arena (arena.children id) children

/-- The nodes below some ids spell a forest. -/
def HoldsAll (arena : Arena) (ids : List NodeId) : List Tree → Prop
  | [] => ids = []
  | tree :: rest => ∃ id later, ids = id :: later ∧ Holds arena id tree ∧ HoldsAll arena later rest

end

theorem holds_node {label : Label} {children : List Tree} :
    arena.Holds n (.node label children) ↔
      arena.label n = label ∧ arena.HoldsAll (arena.children n) children := by
  rw [Holds]

@[simp] theorem holdsAll_nil {ids : List NodeId} : arena.HoldsAll ids [] ↔ ids = [] := by
  rw [HoldsAll]

theorem holdsAll_cons {ids : List NodeId} {tree : Tree} {rest : List Tree} :
    arena.HoldsAll ids (tree :: rest) ↔
      ∃ id later, ids = id :: later ∧ arena.Holds id tree ∧ arena.HoldsAll later rest := by
  rw [HoldsAll]

/-- The label of a held tree is the label of its node. -/
theorem Holds.label_eq {tree : Tree} (h : arena.Holds n tree) : arena.label n = tree.label := by
  cases tree with
  | node label children => exact (holds_node.mp h).1

/-- The subtrees of a held tree are held by the children of its node. -/
theorem Holds.children {tree : Tree} (h : arena.Holds n tree) :
    arena.HoldsAll (arena.children n) tree.children := by
  cases tree with
  | node label children => exact (holds_node.mp h).2

mutual

/-- **Locality**: a tree is still held if labels and child edges below its node are the same. -/
theorem Holds.congr {n : Nat} : ∀ {tree : Tree}, arena.Holds n tree →
    (∀ x, arena.Below n x → other.label x = arena.label x) →
    (∀ x, arena.Below n x → other.children x = arena.children x) → other.Holds n tree
  | .node label children, h, hlabel, hchildren => by
    obtain ⟨hl, hc⟩ := holds_node.mp h
    refine holds_node.mpr ⟨(hlabel n (.refl n)).trans hl, ?_⟩
    rw [hchildren n (.refl n)]
    exact hc.congr (fun c hmem x hx => hlabel x (.of_child hmem hx))
      (fun c hmem x hx => hchildren x (.of_child hmem hx))

/-- Locality for a forest. -/
theorem HoldsAll.congr {ids : List NodeId} : ∀ {trees : List Tree}, arena.HoldsAll ids trees →
    (∀ c ∈ ids, ∀ x, arena.Below c x → other.label x = arena.label x) →
    (∀ c ∈ ids, ∀ x, arena.Below c x → other.children x = arena.children x) →
    other.HoldsAll ids trees
  | [], h, _, _ => holdsAll_nil.mpr (holdsAll_nil.mp h)
  | tree :: rest, h, hlabel, hchildren => by
    obtain ⟨id, later, rfl, ht, hrest⟩ := holdsAll_cons.mp h
    refine holdsAll_cons.mpr ⟨id, later, rfl, ?_, ?_⟩
    · exact ht.congr (hlabel id List.mem_cons_self) (hchildren id List.mem_cons_self)
    · exact hrest.congr (fun c hc => hlabel c (List.mem_cons_of_mem id hc))
        fun c hc => hchildren c (List.mem_cons_of_mem id hc)

end

/-- Forests held side by side. -/
theorem HoldsAll.append {ids ids' : List NodeId} {trees trees' : List Tree}
    (h : arena.HoldsAll ids trees) (h' : arena.HoldsAll ids' trees') :
    arena.HoldsAll (ids ++ ids') (trees ++ trees') := by
  induction trees generalizing ids with
  | nil =>
    rw [holdsAll_nil.mp h]
    exact h'
  | cons tree rest ih =>
    obtain ⟨id, later, rfl, ht, hrest⟩ := holdsAll_cons.mp h
    exact holdsAll_cons.mpr ⟨id, later ++ ids', rfl, ht, ih hrest⟩

/-! ## Insertion -/

/-- What the insertion of a tree does. -/
structure Inserted (arena other : Arena) (id : Nat) (tree : Tree) : Prop where
  ascending : other.Ascending
  id_eq : id = arena.size
  size_lt : arena.size < other.size
  holds : other.Holds id tree
  before : ∀ i : Nat, i < arena.size → other.slot? i = arena.slot? i
  loose : ∀ i, id ∉ other.children i

/-- What the insertion of a forest below a node does. -/
structure InsertedAll (arena other : Arena) (parent : Nat) (trees : List Tree) : Prop where
  ascending : other.Ascending
  size_le : arena.size ≤ other.size
  held : ∃ ids, other.children parent = arena.children parent ++ ids ∧ other.HoldsAll ids trees
  label_eq : other.label parent = arena.label parent
  before : ∀ i : Nat, i < arena.size → i ≠ parent → other.slot? i = arena.slot? i
  loose : ∀ i : Nat, i < arena.size → (∀ j, i ∉ arena.children j) → ∀ j, i ∉ other.children j

/-- A slot after a child was appended. -/
theorem slot?_addChild (arena : Arena) {parent child : Nat} (hne : parent ≠ child) (i : Nat) :
    (arena.addChild parent child).slot? i =
      if i = parent then
        (arena.slot? i).map fun slot => { slot with children := slot.children ++ [child] }
      else if i = child then (arena.slot? i).map fun slot => { slot with parent := some parent }
      else arena.slot? i := by
  rw [addChild, slot?_modify, slot?_modify]
  by_cases hp : i = parent
  · subst hp
    rw [if_pos rfl, if_pos rfl, if_neg (Ne.symm hne)]
  · rw [if_neg (Ne.symm hp), if_neg hp]
    by_cases hc : i = child
    · rw [if_pos hc, if_pos hc.symm]
    · rw [if_neg hc, if_neg (Ne.symm hc)]

/-- Appending a child gives the same arena as setting the edge after the last one. -/
theorem addChild_eq_setChild (arena : Arena) {parent child : Nat} (hne : parent ≠ child) :
    arena.addChild parent child =
      arena.setChild parent (arena.children parent).length child := by
  have hslots : ∀ i, (arena.addChild parent child).slot? i =
      (arena.setChild parent (arena.children parent).length child).slot? i := by
    intro i
    rw [slot?_addChild arena hne, slot?_setChild arena parent _ child i hne]
    split
    · next heq =>
      cases hslot : arena.slot? i with
      | none => rfl
      | some slot =>
        rw [← heq, children_of_slot? hslot]
        simp
    · rfl
  have heq := Array.ext_getElem? hslots
  calc arena.addChild parent child = ⟨(arena.addChild parent child).slots⟩ := rfl
    _ = arena.setChild parent (arena.children parent).length child := by rw [heq]

/-- An inserted tree becomes the last child of a node. -/
theorem Inserted.addChild {id parent : Nat} {tree : Tree} (h : Inserted arena other id tree)
    (hparent : parent < arena.size) :
    InsertedAll arena (other.addChild parent id) parent [tree] := by
  obtain ⟨hasc, rfl, hsize, hholds, hbefore, hloose⟩ := h
  have hne := Nat.ne_of_lt hparent
  have hother := Nat.lt_trans hparent hsize
  have hslot := slot?_addChild other hne
  have hpslot := hbefore parent hparent
  -- adding a child only touches the parent and the new root
  have hchildren : ∀ i, (other.addChild parent arena.size).children i =
      if i = parent then arena.children i ++ [arena.size] else other.children i := by
    intro i
    rw [addChild_eq_setChild other hne, children_setChild _ _ _ _ _ hother]
    split
    · next heq => rw [heq, if_neg (Nat.lt_irrefl _), children_congr hpslot]
    · rfl
  have hlabel : ∀ i, (other.addChild parent arena.size).label i = other.label i := by
    intro i
    rw [addChild_eq_setChild other hne, label_setChild]
  constructor
  · rw [addChild_eq_setChild other hne]
    exact hasc.setChild _ hparent hsize hloose
  · rw [size_addChild]
    exact Nat.le_of_lt hsize
  · refine ⟨[arena.size], by rw [hchildren, if_pos rfl], ?_⟩
    refine holdsAll_cons.mpr ⟨arena.size, [], rfl, ?_, holdsAll_nil.mpr rfl⟩
    refine hholds.congr (fun x _ => hlabel x) fun x hx => ?_
    have hle := hasc.le_of_below hx
    rw [hchildren, if_neg (Nat.ne_of_gt (Nat.lt_of_lt_of_le hparent hle))]
  · rw [hlabel, label_congr hpslot]
  · intro i hi hip
    rw [hslot, if_neg hip, if_neg (Nat.ne_of_lt hi), hbefore i hi]
  · intro i hi hl j hj
    rw [hchildren] at hj
    split at hj
    · rcases List.mem_append.mp hj with hj | hj
      · exact hl j hj
      · exact Nat.ne_of_lt hi (List.mem_singleton.mp hj)
    · by_cases hlt : j < arena.size
      · rw [children_congr (hbefore j hlt)] at hj
        exact hl j hj
      · exact hlt (Nat.lt_trans (hasc.lt_child j i hj) hi)

/-- **Insertions one after the other.** -/
theorem InsertedAll.trans {last : Arena} {parent : Nat} {trees trees' : List Tree}
    (h : InsertedAll arena other parent trees) (h' : InsertedAll other last parent trees') :
    InsertedAll arena last parent (trees ++ trees') := by
  obtain ⟨ids, hids, hheld⟩ := h.held
  obtain ⟨ids', hids', hheld'⟩ := h'.held
  -- what was inserted first comes after the parent, which is all that changes
  have hsame : ∀ c ∈ ids, ∀ x, other.Below c x → last.slot? x = other.slot? x := by
    intro c hc x hx
    have hchild : c ∈ other.children parent := by simp [hids, hc]
    have hlt := h.ascending.lt_child parent c hchild
    have hle := h.ascending.le_of_below hx
    exact h'.before x (h.ascending.below_lt_size hx (h.ascending.child_lt parent c hchild))
      (by omega)
  constructor
  · exact h'.ascending
  · exact Nat.le_trans h.size_le h'.size_le
  · refine ⟨ids ++ ids', by rw [hids', hids, List.append_assoc], ?_⟩
    refine (hheld.congr ?_ ?_).append hheld'
    · exact fun c hc x hx => label_congr (hsame c hc x hx)
    · exact fun c hc x hx => children_congr (hsame c hc x hx)
  · exact h'.label_eq.trans h.label_eq
  · intro i hi hip
    rw [h'.before i (Nat.lt_of_lt_of_le hi h.size_le) hip, h.before i hi hip]
  · exact fun i hi hl => h'.loose i (Nat.lt_of_lt_of_le hi h.size_le) (h.loose i hi hl)

mutual

/-- **Insertion of a tree**: it is held at the next free slot, and earlier slots are as before. -/
theorem insert_spec : ∀ (tree : Tree) (arena : Arena), arena.Ascending →
    Inserted arena (arena.insert tree).1 (arena.insert tree).2 tree
  | .node label children, arena, h => by
    have hsize : arena.size < (arena.push label).1.size := by rw [size_push]; omega
    have hins := insertChildren_spec children (arena.push label).1 (h.push label) arena.size hsize
    rw [Arena.insert]
    simp only [push_snd]
    constructor
    · exact hins.ascending
    · rfl
    · exact Nat.lt_of_lt_of_le hsize hins.size_le
    · obtain ⟨ids, hids, hheld⟩ := hins.held
      rw [children_push, children_of_size_le (Nat.le_refl _), List.nil_append] at hids
      exact holds_node.mpr ⟨hins.label_eq.trans (label_push_size label), hids ▸ hheld⟩
    · intro i hi
      rw [hins.before i (Nat.lt_trans hi hsize) (Nat.ne_of_lt hi), slot?_push_of_lt label hi]
    · refine hins.loose arena.size hsize fun j hj => ?_
      rw [children_push] at hj
      exact Nat.lt_irrefl _ (h.child_lt j _ hj)

/-- **Insertion of a forest**: its trees are held by new last children of the node. -/
theorem insertChildren_spec : ∀ (trees : List Tree) (arena : Arena), arena.Ascending →
    ∀ parent : Nat, parent < arena.size →
      InsertedAll arena (arena.insertChildren parent trees) parent trees
  | [], arena, h, parent, _ => by
    rw [Arena.insertChildren]
    exact ⟨h, Nat.le_refl _, ⟨[], by simp, by simp⟩, rfl, fun _ _ _ => rfl, fun _ _ h => h⟩
  | tree :: rest, arena, h, parent, hparent => by
    have hfirst := (insert_spec tree arena h).addChild hparent
    have hrest := insertChildren_spec rest _ hfirst.ascending parent
      (Nat.lt_of_lt_of_le hparent hfirst.size_le)
    rw [Arena.insertChildren]
    exact hfirst.trans hrest

end

/-- The labels of all slots. -/
def labels (arena : Arena) : List Label := arena.slots.toList.map (·.label)

/-- The labels of all slots, one by one. -/
theorem labels_eq (arena : Arena) : arena.labels = (List.range arena.size).map arena.label := by
  refine List.ext_getElem? fun i => ?_
  simp only [labels, List.getElem?_map, Array.getElem?_toList]
  by_cases hi : i < arena.size
  · obtain ⟨slot, hslot⟩ := slot?_of_lt hi
    rw [List.getElem?_range hi, Option.map_some, label_of_slot? hslot]
    exact congrArg (Option.map Slot.label) hslot
  · have hnone := slot?_eq_none_iff.mpr (Nat.le_of_not_lt hi)
    rw [List.getElem?_eq_none (by rw [List.length_range]; exact Nat.le_of_not_lt hi)]
    exact congrArg (Option.map Slot.label) hnone

/-- The label of a slot is one of them. -/
theorem label_mem_labels {i : Nat} (h : i < arena.size) : arena.label i ∈ arena.labels := by
  rw [labels_eq]
  exact List.mem_map_of_mem (List.mem_range.mpr h)

/-- Nodes that do not exist have the default label. -/
theorem label_mem_labels_or (arena : Arena) (i : Nat) :
    arena.label i ∈ arena.labels ∨ arena.label i = default := by
  by_cases hi : i < arena.size
  · exact .inl (label_mem_labels hi)
  · exact .inr (label_of_size_le (Nat.le_of_not_lt hi))

@[simp] theorem labels_push (arena : Arena) (label : Label) :
    (arena.push label).1.labels = arena.labels ++ [label] := by
  simp [labels, Arena.push]

@[simp] theorem labels_addChild (arena : Arena) (parent child : NodeId) :
    (arena.addChild parent child).labels = arena.labels := by
  refine List.ext_getElem? fun i => ?_
  simp only [labels, addChild, modify, List.getElem?_map, Array.getElem?_toList,
    Array.getElem?_modify]
  split <;> split <;> cases arena.slots[i]? <;> rfl

mutual

/-- **Labels of an inserted tree**, in document order. -/
theorem labels_insert : ∀ (tree : Tree) (arena : Arena),
    (arena.insert tree).1.labels = arena.labels ++ tree.preorder
  | .node label children, arena => by
    rw [Arena.insert]
    simp only
    rw [labels_insertChildren children, labels_push, Tree.preorder_node, List.append_assoc]
    rfl

/-- Labels of an inserted forest, in document order. -/
theorem labels_insertChildren : ∀ (trees : List Tree) (arena : Arena) (parent : NodeId),
    (arena.insertChildren parent trees).labels = arena.labels ++ Tree.preorders trees
  | [], arena, parent => by simp [Arena.insertChildren]
  | tree :: rest, arena, parent => by
    rw [Arena.insertChildren]
    simp only
    rw [labels_insertChildren rest, labels_addChild, labels_insert tree, Tree.preorders_cons,
      List.append_assoc]

end

/-! ## Reading back -/

namespace Ascending

variable (h : arena.Ascending)

include h

/-- With a bound that reaches the end of the arena, the tree that is read is the one that is held. -/
theorem holds_treeWithin (fuel : Nat) (hfuel : arena.size ≤ fuel + n) :
    arena.Holds n (arena.treeWithin fuel n) := by
  induction fuel generalizing n with
  | zero =>
    refine holds_node.mpr ⟨rfl, ?_⟩
    rw [children_of_size_le (by omega), holdsAll_nil]
  | succ fuel ih =>
    refine holds_node.mpr ⟨rfl, ?_⟩
    have hlater : ∀ c ∈ arena.children n, arena.Holds c (arena.treeWithin fuel c) := by
      intro c hc
      have hlt := h.lt_child n c hc
      exact ih (by omega)
    generalize arena.children n = ids at hlater
    induction ids with
    | nil => exact holdsAll_nil.mpr rfl
    | cons c rest ihr =>
      refine holdsAll_cons.mpr ⟨c, rest, rfl, hlater c List.mem_cons_self, ihr ?_⟩
      exact fun c' hc' => hlater c' (List.mem_cons_of_mem c hc')

/-- With a bound that reaches the end of the arena, the labels of the descendants are the labels of
the tree. -/
theorem labels_descendantsWithin (fuel : Nat) (hfuel : arena.size ≤ fuel + n) {tree : Tree}
    (hheld : arena.Holds n tree) :
    (arena.descendantsWithin fuel n).map arena.label = tree.preorder := by
  induction fuel generalizing n tree with
  | zero =>
    obtain ⟨label, children⟩ := tree
    obtain ⟨hlabel, hchildren⟩ := holds_node.mp hheld
    rw [children_of_size_le (by omega)] at hchildren
    cases children with
    | nil => simp [descendantsWithin, hlabel]
    | cons tree rest =>
      obtain ⟨_, _, heq, _⟩ := holdsAll_cons.mp hchildren
      exact absurd heq (by simp)
  | succ fuel ih =>
    obtain ⟨label, children⟩ := tree
    obtain ⟨hlabel, hchildren⟩ := holds_node.mp hheld
    rw [descendantsWithin, List.map_cons, hlabel, Tree.preorder_node]
    have hlater : ∀ c ∈ arena.children n, arena.size ≤ fuel + c := by
      intro c hc
      have hlt := h.lt_child n c hc
      omega
    -- the siblings are listed one after the other, for which their ids have to be arbitrary
    generalize arena.children n = ids at hchildren hlater
    congr 1
    clear hheld
    induction children generalizing ids with
    | nil => simp [holdsAll_nil.mp hchildren]
    | cons tree rest ihr =>
      obtain ⟨c, later, rfl, htree, hrest⟩ := holdsAll_cons.mp hchildren
      rw [List.flatMap_cons, List.map_append, Tree.preorders_cons,
        ih (hlater c List.mem_cons_self) htree]
      rw [ihr later hrest fun c' hc' => hlater c' (List.mem_cons_of_mem c hc')]

/-- **Labels of the descendants** of a node that holds a tree: its labels in document order. -/
theorem labels_descendants {tree : Tree} (hheld : arena.Holds n tree) :
    (arena.descendants n).map arena.label = tree.preorder :=
  h.labels_descendantsWithin arena.size (by omega) hheld

/-- **Reading back** gives the tree that is held. -/
theorem holds_treeAt (n : Nat) : arena.Holds n (arena.treeAt n) :=
  h.holds_treeWithin arena.size (by omega)

end Ascending

end LinkedSearch.Query.Arena
