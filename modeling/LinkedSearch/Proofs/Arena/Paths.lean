import LinkedSearch.Proofs.Arena.Holding
import LinkedSearch.Proofs.Arena.Relabeling

/-! # Paths in queries

A path leads from the root of a query to one of its nodes, one child after the other. In an arena that
holds the query it leads to the node where the subtree is held:

* `Tree.subtree?`, `Arena.descend`: where a path leads, in a query and in an arena.
* `Holds.subtree`, `Holds.descend`: the two agree.
* `descend_congr`: where a path leads depends on the child edges below its start only.
* `Tree.stripped`: a query without the name of a link.
* `Holds.stripName`, `holds_substituted_leaf`: what is held after stripping and after a new node has
  taken the place of an expansion. -/

namespace LinkedSearch.Query

namespace Tree

/-- **Subtree** at a path, the number of a child at every step. -/
def subtree? : Tree → List Nat → Option Tree
  | tree, [] => some tree
  | node _ children, i :: path => children[i]?.bind (·.subtree? path)

@[simp] theorem subtree?_nil (tree : Tree) : tree.subtree? [] = some tree := by
  cases tree
  rfl

@[simp] theorem subtree?_cons (label : Label) (children : List Tree) (i : Nat) (path : List Nat) :
    (node label children).subtree? (i :: path) = children[i]?.bind (·.subtree? path) := rfl

/-- Paths one after the other. -/
theorem subtree?_append (tree : Tree) (path later : List Nat) :
    tree.subtree? (path ++ later) = (tree.subtree? path).bind (·.subtree? later) := by
  induction path generalizing tree with
  | nil => simp
  | cons i path ih =>
    obtain ⟨label, children⟩ := tree
    rw [List.cons_append, subtree?_cons, subtree?_cons]
    cases children[i]? with
    | none => rfl
    | some child => exact ih child

/-- The labels of a subtree are labels of the tree. -/
theorem mem_preorder_of_subtree? {tree sub : Tree} {path : List Nat}
    (h : tree.subtree? path = some sub) {label : Label} (hmem : label ∈ sub.preorder) :
    label ∈ tree.preorder := by
  induction path generalizing tree with
  | nil =>
    obtain rfl := Option.some.inj ((subtree?_nil tree).symm.trans h)
    exact hmem
  | cons i path ih =>
    obtain ⟨root, children⟩ := tree
    rw [subtree?_cons] at h
    obtain ⟨child, hchild, h⟩ := Option.bind_eq_some_iff.mp h
    rw [preorder_node]
    exact List.mem_cons_of_mem _
      (mem_preorders.mpr ⟨child, List.mem_of_getElem? hchild, ih h⟩)

/-- The label at the root is one of the labels. -/
theorem label_mem_preorder (tree : Tree) : tree.label ∈ tree.preorder := by
  obtain ⟨label, children⟩ := tree
  simp

/-- The subtrees of a bare query are bare. -/
theorem IsBare.subtree {tree sub : Tree} {path : List Nat} (h : tree.IsBare)
    (hsub : tree.subtree? path = some sub) : sub.IsBare :=
  fun _ hmem => h _ (mem_preorder_of_subtree? hsub hmem)

/-- A path leads to an expansion. -/
def ExpansionAt (tree : Tree) (path : List Nat) : Prop :=
  ∃ sub, tree.subtree? path = some sub ∧ sub.label.kind.isExpansion = true

/-- There is no expansion in a bare query. -/
theorem IsBare.not_expansionAt {tree : Tree} (h : tree.IsBare) (path : List Nat) :
    ¬tree.ExpansionAt path := by
  rintro ⟨sub, hsub, hkind⟩
  rw [h.subtree hsub _ sub.label_mem_preorder] at hkind
  exact absurd hkind (by simp)

/-- Of an expansion whose query is a node for values, what is left are the expansions behind the query. -/
theorem expansionAt_requeried {label values : Label} {rest : List Tree}
    (hvalues : values.kind.isExpansion = false) {path : List Nat}
    (h : (node label (node values [] :: rest)).ExpansionAt path) :
    path = [] ∨ ∃ i later, path = (i + 1) :: later := by
  obtain ⟨sub, hsub, hkind⟩ := h
  cases path with
  | nil => exact .inl rfl
  | cons i path =>
    rw [subtree?_cons] at hsub
    cases i with
    | zero =>
      have hleaf : (node values []).IsBare := isBare_node.mpr ⟨hvalues, by simp⟩
      exact absurd ⟨sub, hsub, hkind⟩ (hleaf.not_expansionAt path)
    | succ i => exact .inr ⟨i, path, rfl⟩

/-! ## Other labels -/

variable {change : Label → Label}

/-- A subtree of a relabelled query is a relabelled subtree. -/
theorem subtree?_relabel (tree : Tree) (path : List Nat) :
    (tree.relabel change).subtree? path = (tree.subtree? path).map (relabel change) := by
  induction path generalizing tree with
  | nil => simp
  | cons i path ih =>
    obtain ⟨label, children⟩ := tree
    rw [relabel_node, subtree?_cons, subtree?_cons, List.getElem?_map]
    cases children[i]? with
    | none => rfl
    | some child => exact ih child

end Tree

/-- The label of a field without the name of a link. -/
def Label.stripped (name : String) (label : Label) : Label :=
  { label with field := label.field.map (Arena.withoutName name) }

/-- **A stripped query**, without the name of a link if that has one. -/
def Tree.stripped (name : Option String) (tree : Tree) : Tree :=
  match name with
  | none => tree
  | some name => tree.relabel (Label.stripped name)

namespace Tree

@[simp] theorem stripped_none : stripped none = id := rfl

/-- Stripping changes neither kinds nor boosts. -/
theorem stripped_node (name : Option String) (label : Label) (children : List Tree) :
    ∃ field, (node label children).stripped name =
      node { label with field } (children.map (stripped name)) := by
  cases name with
  | none => exact ⟨label.field, by simp⟩
  | some name => exact ⟨label.field.map (Arena.withoutName name), relabel_node label children⟩

@[simp] theorem size_stripped (name : Option String) (tree : Tree) :
    (tree.stripped name).size = tree.size := by
  cases name with
  | none => rfl
  | some name => exact size_relabel tree

/-- A subtree of a stripped query is a stripped subtree. -/
theorem subtree?_stripped (name : Option String) (tree : Tree) (path : List Nat) :
    (tree.stripped name).subtree? path = (tree.subtree? path).map (stripped name) := by
  cases name with
  | none => simp
  | some name => exact subtree?_relabel tree path

end Tree

namespace Arena

variable {arena other : Arena} {n x : Nat}

/-! ## Paths in an arena -/

/-- **Descent** along a path of child edges. -/
def descend (arena : Arena) : NodeId → List Nat → Option NodeId
  | id, [] => some id
  | id, i :: path => (arena.child? id i).bind fun child => arena.descend child path

@[simp] theorem descend_nil (arena : Arena) (id : NodeId) : arena.descend id [] = some id := rfl

@[simp] theorem descend_cons (arena : Arena) (id : NodeId) (i : Nat) (path : List Nat) :
    arena.descend id (i :: path) =
      (arena.child? id i).bind fun child => arena.descend child path := rfl

/-- Descent along paths one after the other. -/
theorem descend_append (id : NodeId) (path later : List Nat) :
    arena.descend id (path ++ later) =
      (arena.descend id path).bind fun child => arena.descend child later := by
  induction path generalizing id with
  | nil => rfl
  | cons i path ih =>
    rw [List.cons_append, descend_cons, descend_cons]
    cases arena.child? id i with
    | none => rfl
    | some child => exact ih child

/-- A descent leads to a node below. -/
theorem below_of_descend {path : List Nat} (h : arena.descend n path = some x) :
    arena.Below n x := by
  induction path generalizing n with
  | nil =>
    obtain rfl := Option.some.inj h
    exact .refl n
  | cons i path ih =>
    obtain ⟨child, hchild, h⟩ := Option.bind_eq_some_iff.mp h
    exact .of_child (List.mem_of_getElem? hchild) (ih h)

/-- **Locality**: a descent depends on the child edges below its start only. -/
theorem descend_congr {n : Nat} (path : List Nat)
    (h : ∀ x, arena.Below n x → other.children x = arena.children x) :
    other.descend n path = arena.descend n path := by
  induction path generalizing n with
  | nil => rfl
  | cons i path ih =>
    rw [descend_cons, descend_cons, child?, child?, h n (.refl n)]
    cases hchild : (arena.children n)[i]? with
    | none => rfl
    | some child =>
      exact ih fun x hx => h x (.of_child (List.mem_of_getElem? hchild) hx)

/-- The trees that are held at some nodes, one by one. -/
theorem HoldsAll.getElem? {ids : List NodeId} {trees : List Tree} (h : arena.HoldsAll ids trees)
    (i : Nat) :
    (∀ x, ids[i]? = some x → ∃ tree, trees[i]? = some tree ∧ arena.Holds x tree) ∧
      ∀ tree, trees[i]? = some tree → ∃ x, ids[i]? = some x ∧ arena.Holds x tree := by
  induction trees generalizing ids i with
  | nil => simp [holdsAll_nil.mp h]
  | cons tree rest ih =>
    obtain ⟨id, later, rfl, htree, hrest⟩ := holdsAll_cons.mp h
    cases i with
    | zero => simpa using htree
    | succ i => simpa using ih hrest i

/-- Where a descent leads, the subtree is held. -/
theorem Holds.subtree {tree : Tree} (h : arena.Holds n tree) {path : List Nat}
    (hpath : arena.descend n path = some x) :
    ∃ sub, tree.subtree? path = some sub ∧ arena.Holds x sub := by
  induction path generalizing n tree with
  | nil =>
    obtain rfl := Option.some.inj hpath
    exact ⟨tree, tree.subtree?_nil, h⟩
  | cons i path ih =>
    obtain ⟨label, children⟩ := tree
    obtain ⟨child, hchild, hpath⟩ := Option.bind_eq_some_iff.mp hpath
    obtain ⟨sub, hsub, hheld⟩ := ((holds_node.mp h).2.getElem? i).1 child hchild
    rw [Tree.subtree?_cons, hsub]
    exact ih hheld hpath

/-- Every subtree is held somewhere. -/
theorem Holds.descend {tree sub : Tree} (h : arena.Holds n tree) {path : List Nat}
    (hpath : tree.subtree? path = some sub) :
    ∃ x, arena.descend n path = some x ∧ arena.Holds x sub := by
  induction path generalizing n tree with
  | nil =>
    obtain rfl := Option.some.inj ((Tree.subtree?_nil tree).symm.trans hpath)
    exact ⟨n, rfl, h⟩
  | cons i path ih =>
    obtain ⟨label, children⟩ := tree
    rw [Tree.subtree?_cons] at hpath
    obtain ⟨child, hchild, hpath⟩ := Option.bind_eq_some_iff.mp hpath
    obtain ⟨c, hc, hheld⟩ := ((holds_node.mp h).2.getElem? i).2 child hchild
    rw [descend_cons, child?, hc]
    exact ih hheld hpath

/-! ## Held queries after a change -/

/-- The label of a descendant is stripped. -/
theorem label_stripName (arena : Arena) (name : String) {root i : Nat}
    (hnodup : (arena.descendants root).Nodup) (hlt : i < arena.size) :
    (arena.stripName root name).label i =
      if i ∈ arena.descendants root then (arena.label i).stripped name else arena.label i := by
  unfold stripName
  generalize arena.descendants root = ids at hnodup
  induction ids generalizing arena with
  | nil => simp
  | cons id rest ih =>
    obtain ⟨hnot, hrest⟩ := List.nodup_cons.mp hnodup
    rw [List.foldl_cons, ih _ (by simpa using hlt) hrest]
    by_cases heq : id = i
    · subst heq
      rw [if_neg hnot, label_modifyLabel _ id id hlt, if_pos rfl, if_pos List.mem_cons_self]
      rfl
    · have hmem : i ∈ id :: rest ↔ i ∈ rest := by simp [Ne.symm heq]
      rw [label_congr (slot?_modifyLabel_of_ne _ (Ne.symm heq))]
      simp only [hmem]

mutual

/-- What is held below a root that is stripped. -/
theorem Holds.stripName (h : arena.Ascending) (name : String) {root n : Nat}
    (hbelow : arena.Below root n) (hlt : n < arena.size) : ∀ {tree : Tree}, arena.Holds n tree →
      (arena.stripName root name).Holds n (tree.relabel (Label.stripped name))
  | .node label children, hheld => by
    obtain ⟨hlabel, hchildren⟩ := holds_node.mp hheld
    rw [Tree.relabel_node]
    refine holds_node.mpr ⟨?_, ?_⟩
    · rw [label_stripName arena name (h.nodup_descendants _) hlt,
        if_pos (h.mem_descendants.mpr hbelow), hlabel]
    · rw [(stripName_spec arena root name).2.2.1, ← Tree.relabelAll_eq_map]
      exact HoldsAll.stripName h name
        (fun c hc => ⟨hbelow.tail hc, h.child_lt n c hc⟩) hchildren

/-- What is held by some nodes below a root that is stripped. -/
theorem HoldsAll.stripName (h : arena.Ascending) (name : String) {root : Nat} {ids : List NodeId}
    (hids : ∀ c ∈ ids, arena.Below root c ∧ c < arena.size) :
    ∀ {trees : List Tree}, arena.HoldsAll ids trees →
      (arena.stripName root name).HoldsAll ids (Tree.relabelAll (Label.stripped name) trees)
  | [], hheld => by
    rw [Tree.relabelAll]
    exact holdsAll_nil.mpr (holdsAll_nil.mp hheld)
  | tree :: rest, hheld => by
    obtain ⟨id, later, rfl, htree, hrest⟩ := holdsAll_cons.mp hheld
    obtain ⟨hbelow, hlt⟩ := hids id List.mem_cons_self
    rw [Tree.relabelAll]
    exact HoldsAll.cons (Holds.stripName h name hbelow hlt htree)
      (HoldsAll.stripName h name (fun c hc => hids c (List.mem_cons_of_mem id hc)) hrest)

end

/-- **A new node** in the place of an expansion is a query of its own, with the boost of the
expansion. -/
theorem Ascending.holds_substituted_leaf (h : arena.Ascending) {v : Nat} (hn : n < arena.size)
    (hv : v < arena.size) (hne : n ≠ v) (hslot : arena.slot? v = some { label := arena.label v }) (boost : Boost) :
    (Compile.substituted arena n v boost).Holds n
      ((Tree.node (arena.label v) []).boosted boost) := by
  have hloop := h.not_mem_children_self v
  have hchildren : (Compile.substituted arena n v boost).children n = [] := by
    rw [(substituted_boost arena n v boost).2.1, children_replace hne hn hv hloop, if_neg hne,
      if_pos rfl, children_of_slot? hslot]
  have hreplaced : (arena.replace n v).label n = arena.label v := by
    rw [label_replace hne hn hv hloop, if_pos rfl]
  have hnlt : n < (arena.replace n v).size := by rwa [size_replace]
  cases boost with
  | none => exact holds_node.mpr ⟨hreplaced, holdsAll_nil.mpr hchildren⟩
  | some boost =>
    refine holds_node.mpr ⟨?_, holdsAll_nil.mpr hchildren⟩
    show ((arena.replace n v).modifyLabel n fun l => { l with boost := some boost }).label n = _
    rw [label_modifyLabel _ n n hnlt, if_pos rfl, hreplaced]

/-- What is held is still held after a push. -/
theorem Ascending.holds_push (h : arena.Ascending) (label : Label) (hn : n < arena.size) {tree : Tree}
    (hheld : arena.Holds n tree) : (arena.push label).1.Holds n tree :=
  hheld.congr (fun _ hx => label_push_of_lt label (h.below_lt_size hx hn))
    fun _ _ => children_push label _

/-- **A new node** as the query of an expansion. -/
theorem Ascending.holds_requeried (h : arena.Ascending) (values : Label) {label : Label} {query : Tree}
    {rest : List Tree} (hheld : arena.Holds n (.node label (query :: rest))) :
    ((arena.push values).1.setChild n 0 arena.size).Holds n
      (.node label (.node values [] :: rest)) := by
  obtain ⟨hlabel, hall⟩ := holds_node.mp hheld
  obtain ⟨c, later, hchildren, -, hrest⟩ := holdsAll_cons.mp hall
  have hmem : c ∈ arena.children n := by simp [hchildren]
  have hn := lt_size_of_mem_children hmem
  refine holds_node.mpr ⟨(label_push_setChild values hn).trans hlabel, ?_⟩
  rw [children_setChild _ _ _ _ _ (by rw [size_push]; omega), if_pos rfl, children_push, hchildren,
    if_pos (by simp), List.set_cons_zero]
  refine HoldsAll.cons (holds_node.mpr ⟨?_, holdsAll_nil.mpr ?_⟩) (hrest.congr ?_ ?_)
  · rw [label_setChild, label_push_size]
  · exact children_push_setChild_size values hn
  · intro d hd x hx
    exact label_push_setChild values
      (h.below_lt_size hx (h.child_lt n d (by simp [hchildren, hd])))
  · intro d hd x hx
    have hlt := h.lt_child n d (by simp [hchildren, hd])
    have hle := h.le_of_below hx
    exact children_push_setChild values hn (Nat.ne_of_gt (Nat.lt_of_lt_of_le hlt hle))

end Arena

end LinkedSearch.Query
