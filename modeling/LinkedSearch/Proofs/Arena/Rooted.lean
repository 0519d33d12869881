import Mathlib.Data.Finset.Card
import Mathlib.Data.Finset.Range
import LinkedSearch.Proofs.Treelike

/-! # Trees below a node without parent

Whatever else an arena holds, the nodes below one of them form a tree if that node has no parent and
child edges agree with parent edges below it. No order of the slots is needed: a path that came back
to where it was would have two ways up, and so none that ends.

* `Rooted`: the local conditions, one node at a time.
* `Depth`: the number of steps from the root, unique by `Rooted.depth_unique` and less than the
  number of slots by `Rooted.depth_lt_size`.
* `Rooted.treeFrom`: the nodes below the root form a tree. -/

namespace LinkedSearch.Query.Arena

variable {arena : Arena} {root a b n x k l : Nat}

/-- **Rooted**: the root exists and has no parent, and the children of the nodes below it exist, know
their parent and differ from each other. -/
structure Rooted (arena : Arena) (root : NodeId) : Prop where
  lt_size : root < arena.size
  parent_root : arena.parent? root = none
  child_lt : ∀ x, arena.Below root x → ∀ c ∈ arena.children x, c < arena.size
  parent_of_child : ∀ x, arena.Below root x → ∀ c ∈ arena.children x, arena.parent? c = some x
  nodup_children : ∀ x, arena.Below root x → (arena.children x).Nodup

/-- **Depth**: a node is reached from the root in some number of steps. -/
inductive Depth (arena : Arena) (root : NodeId) : Nat → NodeId → Prop where
  | root : Depth arena root 0 root
  | child (k : Nat) (x c : NodeId) (hx : Depth arena root k x) (hc : c ∈ arena.children x) :
      Depth arena root (k + 1) c

namespace Depth

theorem reached (h : arena.Depth root k x) : arena.Below root x := by
  induction h with
  | root => exact .refl root
  | child k x c _ hc ih => exact ih.tail hc

theorem exists_of_below (h : arena.Below root x) : ∃ k, arena.Depth root k x := by
  induction h with
  | refl => exact ⟨0, .root⟩
  | @tail y x _ hstep ih =>
    obtain ⟨k, hk⟩ := ih
    exact ⟨k + 1, .child k y x hk hstep⟩

/-- On the way to a node there is one at each lesser depth. -/
theorem exists_of_le (h : arena.Depth root k x) : ∀ j ≤ k, ∃ y, arena.Depth root j y := by
  induction h with
  | root =>
    intro j hj
    exact ⟨root, Nat.le_zero.mp hj ▸ .root⟩
  | child k x c hx hc ih =>
    intro j hj
    rcases Nat.lt_or_eq_of_le hj with hlt | rfl
    · exact ih j (Nat.le_of_lt_succ hlt)
    · exact ⟨c, .child k x c hx hc⟩

/-- A node below another one lies deeper, unless it is the same. -/
theorem of_below (h : arena.Depth root k n) (hx : arena.Below n x) :
    ∃ l, arena.Depth root l x ∧ k ≤ l ∧ (l = k → x = n) := by
  induction hx with
  | refl => exact ⟨k, h, Nat.le_refl k, fun _ => rfl⟩
  | @tail y x _ hstep ih =>
    obtain ⟨l, hl, hle, -⟩ := ih
    exact ⟨l + 1, .child l y x hl hstep, Nat.le_succ_of_le hle, by omega⟩

end Depth

namespace Rooted

variable (h : arena.Rooted root)

include h

/-- **Only one depth**: the way up from a node is determined, and at the root it ends. -/
theorem depth_unique (hk : arena.Depth root k x) (hl : arena.Depth root l x) : k = l := by
  induction hk generalizing l with
  | root =>
    cases hl with
    | root => rfl
    | child l y _ hy hc =>
      have hparent := h.parent_of_child y hy.reached root hc
      rw [h.parent_root] at hparent
      exact absurd hparent (by simp)
  | child k y c hy hc ih =>
    have hparent := h.parent_of_child y hy.reached c hc
    cases hl with
    | root =>
      rw [h.parent_root] at hparent
      exact absurd hparent (by simp)
    | child l z _ hz hcz =>
      rw [h.parent_of_child z hz.reached c hcz] at hparent
      cases hparent
      exact congrArg (· + 1) (ih hz)

/-- Nodes that are reached exist. -/
theorem below_lt_size (hx : arena.Below root x) : x < arena.size := by
  induction hx with
  | refl => exact h.lt_size
  | @tail y x hy hstep _ => exact h.child_lt y hy x hstep

/-- **Depths are bounded** by the number of slots: the nodes on a way down are distinct. -/
theorem depth_lt_size (hk : arena.Depth root k x) : k < arena.size := by
  by_contra hle
  -- a way with more steps than slots passes some node twice, which then has two depths
  have hway : ∀ j, ∃ y, j ≤ k → arena.Depth root j y := by
    intro j
    by_cases hj : j ≤ k
    · exact (hk.exists_of_le j hj).imp fun y hy _ => hy
    · exact ⟨0, fun hj' => absurd hj' hj⟩
  choose node hnode using hway
  have hmaps : ∀ j ∈ Finset.range (k + 1), node j ∈ Finset.range arena.size := by
    intro j hj
    exact Finset.mem_range.mpr (h.below_lt_size (hnode j (Finset.mem_range_succ_iff.mp hj)).reached)
  have hcard : (Finset.range arena.size).card < (Finset.range (k + 1)).card := by
    rw [Finset.card_range, Finset.card_range]
    omega
  obtain ⟨i, hi, j, hj, hne, heq⟩ := Finset.exists_ne_map_eq_of_card_lt_of_maps_to hcard hmaps
  have hdepth := hnode j (Finset.mem_range_succ_iff.mp hj)
  rw [← heq] at hdepth
  exact hne (h.depth_unique (hnode i (Finset.mem_range_succ_iff.mp hi)) hdepth)

/-- **Nodes of one depth** have nothing below them in common. -/
theorem eq_of_depth (ha : arena.Depth root k a) (hb : arena.Depth root k b)
    (hax : arena.Below a x) (hbx : arena.Below b x) : a = b := by
  induction hax with
  | refl =>
    obtain ⟨l, hl, -, hsame⟩ := hb.of_below hbx
    exact hsame (h.depth_unique hl ha)
  | @tail y x hay hstep ih =>
    rcases Relation.ReflTransGen.cases_tail hbx with rfl | ⟨z, hbz, hzx⟩
    · obtain ⟨l, hl, -, hsame⟩ := ha.of_below (hay.tail hstep)
      exact (hsame (h.depth_unique hl hb)).symm
    · -- the last steps of both ways lead from the only parent, so the ways have met before
      have hy := ha.reached.trans hay
      have hz := hb.reached.trans hbz
      have hparent := (h.parent_of_child y hy x hstep).symm.trans (h.parent_of_child z hz x hzx)
      cases hparent
      exact ih hbz

/-- With a bound that allows for all slots on the way, the descendants are all the nodes below. -/
theorem mem_descendantsWithin (hk : arena.Depth root k n) (fuel : Nat)
    (hfuel : arena.size ≤ fuel + k + 1) : x ∈ arena.descendantsWithin fuel n ↔ arena.Below n x := by
  refine ⟨Ascending.below_of_mem_descendantsWithin fuel, ?_⟩
  induction fuel generalizing k n with
  | zero =>
    intro hx
    have hleaf : arena.children n = [] := by
      refine List.eq_nil_iff_forall_not_mem.mpr fun c hc => ?_
      have hlt := h.depth_lt_size (.child k n c hk hc)
      omega
    rw [hx.eq_of_childless hleaf]
    exact List.mem_cons_self
  | succ fuel ih =>
    intro hx
    rw [descendantsWithin, List.mem_cons, List.mem_flatMap]
    rcases Below.iff_self_or_child.mp hx with heq | ⟨c, hc, hcx⟩
    · exact .inl heq
    · exact .inr ⟨c, hc, ih (.child k n c hk hc) (by omega) hcx⟩

/-- No node is listed twice among the descendants of another one. -/
theorem nodup_descendantsWithin (hk : arena.Depth root k n) (fuel : Nat) :
    (arena.descendantsWithin fuel n).Nodup := by
  induction fuel generalizing k n with
  | zero => exact List.nodup_singleton n
  | succ fuel ih =>
    have hchild : ∀ c ∈ arena.children n, arena.Depth root (k + 1) c := fun c hc =>
      .child k n c hk hc
    rw [descendantsWithin, List.nodup_cons, List.nodup_flatMap]
    refine ⟨fun hmem => ?_, fun c hc => ih (hchild c hc), ?_⟩
    · -- below one of its children the node would have another depth
      obtain ⟨c, hc, hn⟩ := List.mem_flatMap.mp hmem
      obtain ⟨l, hl, hle, -⟩ :=
        (hchild c hc).of_below (Ascending.below_of_mem_descendantsWithin fuel hn)
      have heq := h.depth_unique hl hk
      omega
    · refine (h.nodup_children n hk.reached).imp_of_mem fun {a b} ha hb hne x hxa hxb => hne ?_
      exact h.eq_of_depth (hchild a ha) (hchild b hb)
        (Ascending.below_of_mem_descendantsWithin fuel hxa)
        (Ascending.below_of_mem_descendantsWithin fuel hxb)

/-- **The way up** from a node below the root ends at the root. -/
theorem getLast?_ancestorsWithin (hk : arena.Depth root k x) (fuel : Nat) (hfuel : k ≤ fuel) :
    (x :: arena.ancestorsWithin fuel x).getLast? = some root := by
  induction hk generalizing fuel with
  | root =>
    cases fuel with
    | zero => rfl
    | succ fuel => rw [ancestorsWithin, h.parent_root]; rfl
  | child k y c hy hc ih =>
    obtain ⟨fuel, rfl⟩ : ∃ m, fuel = m + 1 := ⟨fuel - 1, by omega⟩
    rw [ancestorsWithin, h.parent_of_child y hy.reached c hc]
    simp only [List.getLast?_cons_cons]
    exact ih fuel (by omega)

/-- **A rooted arena is a tree** from its root on. -/
theorem treeFrom : arena.TreeFrom root := by
  have hmem : ∀ x, x ∈ arena.descendants root ↔ arena.Below root x := fun x =>
    h.mem_descendantsWithin .root arena.size (by omega)
  refine ⟨fun x hx => h.below_lt_size ((hmem x).mp hx), hmem, h.nodup_descendantsWithin .root _, ?_,
    h.parent_root, ?_⟩
  · intro x hx c hc
    have hbelow := (hmem x).mp hx
    exact ⟨(hmem c).mpr (hbelow.tail hc), h.parent_of_child x hbelow c hc⟩
  · intro x hx
    obtain ⟨k, hk⟩ := Depth.exists_of_below ((hmem x).mp hx)
    exact h.getLast?_ancestorsWithin hk _ (Nat.le_of_lt (h.depth_lt_size hk))

end Rooted

end LinkedSearch.Query.Arena
