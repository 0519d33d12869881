import Mathlib.Data.List.Perm.Subperm
import LinkedSearch.Proofs.Arena.Rewriting
import LinkedSearch.Proofs.Following

/-! # Held trees and substitutions

What an arena holds at a node determines the tree, and the tree determines how much of the arena lies
below the node:

* `Holds.unique`, `size_le_of_holds`, `Holds.dumpWithin_eq`: the tree that is held, its size, and its dump.
* `Tree.IsBare`: a query without expansions, as a tree.
* `Tree.boosted`: what a query is once it has taken the place of an expansion.
* `holds_substituted_child`: the query of an expansion is held in the place of the expansion. -/

namespace LinkedSearch.Query

/-- **Bare queries** have no expansions. -/
def Tree.IsBare (tree : Tree) : Prop := ∀ label ∈ tree.preorder, label.kind.isExpansion = false

/-- A query with the boost of an expansion, if that has one. -/
def Tree.boosted (boost : Boost) (tree : Tree) : Tree :=
  match boost with
  | some boost => tree.withBoost boost
  | none => tree

namespace Tree

variable {tree : Tree} {label : Label} {children : List Tree}

theorem isBare_node : (node label children).IsBare ↔
    label.kind.isExpansion = false ∧ ∀ tree ∈ children, tree.IsBare := by
  unfold IsBare
  rw [preorder_node]
  constructor
  · intro h
    refine ⟨h label List.mem_cons_self, fun tree htree l hl => ?_⟩
    exact h l (List.mem_cons_of_mem label (mem_preorders.mpr ⟨tree, htree, hl⟩))
  · rintro ⟨hlabel, hchildren⟩ l hl
    rcases List.mem_cons.mp hl with rfl | hl
    · exact hlabel
    · obtain ⟨tree, htree, hl⟩ := mem_preorders.mp hl
      exact hchildren tree htree l hl

theorem size_pos (tree : Tree) : 0 < tree.size := by
  cases tree with
  | node label children => rw [size_node]; omega

/-- A forest without nodes has no trees. -/
theorem eq_nil_of_sizes {trees : List Tree} (h : sizes trees ≤ 0) : trees = [] := by
  cases trees with
  | nil => rfl
  | cons tree rest =>
    have htree := tree.size_pos
    rw [sizes_cons] at h
    omega

/-- A boost changes neither the kinds nor the size of a query. -/
theorem isBare_boosted (boost : Boost) : (tree.boosted boost).IsBare ↔ tree.IsBare := by
  cases tree with
  | node label children =>
    cases boost with
    | none => rfl
    | some boost =>
      show (node { label with boost := some boost } children).IsBare ↔ _
      rw [isBare_node, isBare_node]

@[simp] theorem size_boosted (boost : Boost) : (tree.boosted boost).size = tree.size := by
  cases tree with
  | node label children =>
    cases boost with
    | none => rfl
    | some boost =>
      show (node { label with boost := some boost } children).size = _
      rw [size_node, size_node]

end Tree

namespace Arena

variable {arena other : Arena} {n c : Nat}

mutual

/-- **There is one tree** that an arena holds at a node. -/
theorem Holds.unique {n : Nat} : ∀ {tree tree' : Tree}, arena.Holds n tree → arena.Holds n tree' →
    tree = tree'
  | .node label children, .node label' children', h, h' => by
    obtain ⟨hlabel, hchildren⟩ := holds_node.mp h
    obtain ⟨hlabel', hchildren'⟩ := holds_node.mp h'
    rw [← hlabel, ← hlabel', hchildren.unique hchildren']

/-- There is one forest that an arena holds at some nodes. -/
theorem HoldsAll.unique {ids : List NodeId} : ∀ {trees trees' : List Tree},
    arena.HoldsAll ids trees → arena.HoldsAll ids trees' → trees = trees'
  | [], [], _, _ => rfl
  | [], tree :: rest, h, h' => by
    obtain ⟨_, _, heq, _⟩ := holdsAll_cons.mp h'
    rw [holdsAll_nil.mp h] at heq
    exact absurd heq (by simp)
  | tree :: rest, [], h, h' => by
    obtain ⟨_, _, heq, _⟩ := holdsAll_cons.mp h
    rw [holdsAll_nil.mp h'] at heq
    exact absurd heq (by simp)
  | tree :: rest, tree' :: rest', h, h' => by
    obtain ⟨id, later, rfl, htree, hrest⟩ := holdsAll_cons.mp h
    obtain ⟨id', later', heq, htree', hrest'⟩ := holdsAll_cons.mp h'
    obtain ⟨rfl, rfl⟩ := List.cons.inj heq
    rw [htree.unique htree', hrest.unique hrest']

end

mutual

/-- **A dump shows what is held**, and nothing else. -/
theorem Holds.dumpWithin_eq : ∀ {tree : Tree} {fuel fuel' : Nat} (depth : Nat) {n m : Nat},
    arena.Holds n tree → other.Holds m tree → tree.size ≤ fuel → tree.size ≤ fuel' →
      arena.dumpWithin fuel depth n = other.dumpWithin fuel' depth m
  | .node label children, fuel, fuel', depth, n, m, h, h', hfuel, hfuel' => by
    obtain ⟨hlabel, hchildren⟩ := holds_node.mp h
    obtain ⟨hlabel', hchildren'⟩ := holds_node.mp h'
    rw [Tree.size_node] at hfuel hfuel'
    obtain ⟨fuel, rfl⟩ := Nat.exists_eq_succ_of_ne_zero (Nat.ne_of_gt (Nat.zero_lt_of_lt hfuel))
    obtain ⟨fuel', rfl⟩ := Nat.exists_eq_succ_of_ne_zero (Nat.ne_of_gt (Nat.zero_lt_of_lt hfuel'))
    rw [dumpWithin, dumpWithin, hlabel, hlabel',
      hchildren.map_dumpWithin_eq (depth + 1) hchildren' (Nat.le_of_succ_le_succ hfuel)
        (Nat.le_of_succ_le_succ hfuel')]

theorem HoldsAll.map_dumpWithin_eq : ∀ {trees : List Tree} {fuel fuel' : Nat} (depth : Nat)
    {ids ids' : List NodeId}, arena.HoldsAll ids trees → other.HoldsAll ids' trees →
      Tree.sizes trees ≤ fuel → Tree.sizes trees ≤ fuel' →
        ids.map (arena.dumpWithin fuel depth) = ids'.map (other.dumpWithin fuel' depth)
  | [], _, _, _, ids, ids', h, h', _, _ => by
    rw [holdsAll_nil.mp h, holdsAll_nil.mp h', List.map_nil, List.map_nil]
  | tree :: rest, fuel, fuel', depth, ids, ids', h, h', hfuel, hfuel' => by
    obtain ⟨id, later, rfl, htree, hrest⟩ := holdsAll_cons.mp h
    obtain ⟨id', later', rfl, htree', hrest'⟩ := holdsAll_cons.mp h'
    rw [Tree.sizes_cons] at hfuel hfuel'
    have hfirst : arena.dumpWithin fuel depth id = other.dumpWithin fuel' depth id' :=
      htree.dumpWithin_eq depth htree' (by omega) (by omega)
    have hlater : later.map (arena.dumpWithin fuel depth) = later'.map (other.dumpWithin fuel' depth) :=
      hrest.map_dumpWithin_eq depth hrest' (by omega) (by omega)
    rw [List.map_cons, List.map_cons, hfirst, hlater]

end

/-- The children of a node hold as many trees as there are of them. -/
theorem HoldsAll.cons {tree : Tree} {id : NodeId} {ids : List NodeId} {rest : List Tree}
    (h : arena.Holds id tree) (hrest : arena.HoldsAll ids rest) :
    arena.HoldsAll (id :: ids) (tree :: rest) :=
  holdsAll_cons.mpr ⟨id, ids, rfl, h, hrest⟩

namespace Ascending

variable (h : arena.Ascending)

include h

/-- **Size of a held tree**: it is no larger than the arena. -/
theorem size_le_of_holds (hn : n < arena.size) {tree : Tree} (hheld : arena.Holds n tree) :
    tree.size ≤ arena.size := by
  have hlength : (arena.descendants n).length = tree.size := by
    rw [← tree.length_preorder, ← h.labels_descendants hheld, List.length_map]
  have hsub : arena.descendants n ⊆ List.range arena.size := fun x hx =>
    List.mem_range.mpr (h.below_lt_size (h.mem_descendants.mp hx) hn)
  have hnodup := h.nodup_descendants n
  have hle := (List.subperm_of_subset hnodup hsub).length_le
  rw [List.length_range] at hle
  rw [← hlength]
  exact hle

/-- A held tree is compiled with room to spare. -/
theorem size_le_depthBound (hn : n < arena.size) {tree : Tree} (hheld : arena.Holds n tree) :
    tree.size ≤ Compile.depthBound arena.size :=
  Nat.le_trans (h.size_le_of_holds hn hheld)
    (Nat.le_trans (Nat.le_add_right _ 4) (Nat.le_mul_self _))

/-- A node is bare if the tree that is held there is. -/
theorem bare_iff {tree : Tree} (hheld : arena.Holds n tree) : arena.Bare n ↔ tree.IsBare := by
  unfold Bare Tree.IsBare
  rw [← h.labels_descendants hheld]
  simp only [List.mem_map, forall_exists_index, and_imp, forall_apply_eq_imp_iff₂,
    h.mem_descendants]

/-- **The query of an expansion** is held in the place of the expansion, with the boost of it. -/
theorem holds_substituted_child (hn : n < arena.size) (hc : arena.child? n 0 = some c) {tree : Tree}
    (hheld : arena.Holds c tree) (boost : Boost) :
    (Compile.substituted arena n c boost).Holds n (tree.boosted boost) := by
  have hmem := List.mem_of_getElem? hc
  have hlt := h.lt_child n c hmem
  have hne := Nat.ne_of_lt hlt
  have hclt := h.child_lt n c hmem
  have hloop := h.not_mem_children_self c
  obtain ⟨-, hedges, -, -, hslots⟩ := substituted_boost arena n c boost
  have hchildren := fun i => (hedges i).trans (children_replace hne hn hclt hloop i)
  have hlabels : ∀ i, i ≠ n → (Compile.substituted arena n c boost).label i = arena.label i := by
    intro i hi
    rw [label_congr (hslots i hi), label_replace hne hn hclt hloop, if_neg hi]
  obtain ⟨label, children⟩ := tree
  obtain ⟨hlabel, hall⟩ := holds_node.mp hheld
  -- what is below the children of the query comes after both of them
  have hlater : ∀ i ∈ arena.children c, ∀ x : Nat, arena.Below i x → x ≠ n ∧ x ≠ c := by
    intro i hi x hx
    have hci := h.lt_child c i hi
    have hix := h.le_of_below hx
    omega
  have hheldAll : (Compile.substituted arena n c boost).HoldsAll
      ((Compile.substituted arena n c boost).children n) children := by
    rw [hchildren, if_neg hne, if_pos rfl]
    refine hall.congr (fun i hi x hx => hlabels x (hlater i hi x hx).1) fun i hi x hx => ?_
    rw [hchildren, if_neg (hlater i hi x hx).2, if_neg (hlater i hi x hx).1]
  have hreplaced : (arena.replace n c).label n = label := by
    rw [label_replace hne hn hclt hloop, if_pos rfl, hlabel]
  have hnlt : n < (arena.replace n c).size := by rwa [size_replace]
  cases boost with
  | none => exact holds_node.mpr ⟨hreplaced, hheldAll⟩
  | some boost =>
    refine holds_node.mpr ⟨?_, hheldAll⟩
    show ((arena.replace n c).modifyLabel n fun l => { l with boost := some boost }).label n = _
    rw [label_modifyLabel _ n n hnlt, if_pos rfl, hreplaced]

end Ascending

end Arena

end LinkedSearch.Query
