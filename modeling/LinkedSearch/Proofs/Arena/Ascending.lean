import Mathlib.Data.List.Nodup
import Mathlib.Logic.Relation
import LinkedSearch.Proofs.Arena.Edges
import LinkedSearch.Query.Stack

/-! # Ascending arenas

The shape that every operation of the compiler keeps:

* `Arena.Ascending`: child edges lead to later slots and agree with parent edges, which lead to earlier
  slots, so that they form trees and a path has no more nodes than there are slots.
* `Arena.Below`: one node is reached from another one along child edges.
* `WellFormed.linear`: the nodes above a node form a chain, so that siblings have nothing in common.
* `Ascending.mem_descendants`: the descendants of a node are exactly the nodes below it.
* `Arena.First`, `Ascending.find?_eq_some_iff`: the first node below another one that satisfies a
  condition, without a bound on the depth. -/

namespace LinkedSearch.Query.Arena

variable {arena : Arena} {id target source parent child : Nat}

/-! ## The invariant -/

/-- **Ascending**: children exist and come after their parent, which they know; no node is a child
twice. A node that is nobody's child any more may still know a parent, but one that comes before it. -/
structure Ascending (arena : Arena) : Prop where
  lt_child : ∀ id child : Nat, child ∈ arena.children id → id < child
  child_lt : ∀ id child : Nat, child ∈ arena.children id → child < arena.size
  parent_of_child : ∀ id child : Nat, child ∈ arena.children id → arena.parent? child = some id
  nodup_children : ∀ id : Nat, (arena.children id).Nodup
  parent_lt : ∀ id parent : Nat, arena.parent? id = some parent → parent < id

/-- A node has only one parent. -/
theorem WellFormed.parent_unique (h : arena.WellFormed) {a b : Nat} (ha : child ∈ arena.children a)
    (hb : child ∈ arena.children b) : a = b :=
  Option.some.inj ((h.parent_of_child a child ha).symm.trans (h.parent_of_child b child hb))

namespace Ascending

/-- An ascending arena is well-formed, ranked by the distance to its end. -/
theorem wellFormed (h : arena.Ascending) : arena.WellFormed where
  child_lt := h.child_lt
  parent_of_child := h.parent_of_child
  nodup_children := h.nodup_children
  ranked := by
    refine ⟨fun id => arena.size - id, ?_⟩
    intro id child hchild
    have hlt := h.lt_child id child hchild
    have hsize := h.child_lt id child hchild
    show arena.size - child < arena.size - id
    omega

theorem empty : Arena.empty.Ascending where
  lt_child := by intro id child h; simp [Arena.empty, children, slot?] at h
  child_lt := by intro id child h; simp [Arena.empty, children, slot?] at h
  parent_of_child := by intro id child h; simp [Arena.empty, children, slot?] at h
  nodup_children := by intro id; simp [Arena.empty, children, slot?]
  parent_lt := by intro id parent h; simp [Arena.empty, parent?, slot?] at h

theorem parent_unique (h : arena.Ascending) {a b : Nat} (ha : child ∈ arena.children a)
    (hb : child ∈ arena.children b) : a = b := h.wellFormed.parent_unique ha hb

theorem not_mem_children_self (h : arena.Ascending) (id : Nat) : id ∉ arena.children id := by
  intro hmem
  exact Nat.lt_irrefl id (h.lt_child id id hmem)

/-- A pushed node changes no edge. -/
theorem push (h : arena.Ascending) (label : Label) : (arena.push label).1.Ascending where
  lt_child := by simpa using h.lt_child
  child_lt := by
    intro id child hchild
    rw [children_push] at hchild
    rw [size_push]
    exact Nat.lt_succ_of_lt (h.child_lt id child hchild)
  parent_of_child := by simpa using h.parent_of_child
  nodup_children := by simpa using h.nodup_children
  parent_lt := by simpa using h.parent_lt

/-- An arena with the same edges. -/
theorem of_edges {other : Arena} (h : arena.Ascending) (hsize : other.size = arena.size)
    (hchildren : ∀ id, other.children id = arena.children id)
    (hparent : ∀ id, other.parent? id = arena.parent? id) : other.Ascending where
  lt_child := by simpa [hchildren] using h.lt_child
  child_lt := by simpa [hchildren, hsize] using h.child_lt
  parent_of_child := by simpa [hchildren, hparent] using h.parent_of_child
  nodup_children := by simpa [hchildren] using h.nodup_children
  parent_lt := by simpa [hparent] using h.parent_lt

/-- A changed label changes no edge. -/
theorem modifyLabel (h : arena.Ascending) (id : Nat) (change : Label → Label) :
    (arena.modifyLabel id change).Ascending :=
  h.of_edges (by simp) (by simp) (by simp)

/-- **A child edge to a loose node.** A node that comes later and is nobody's child may become one. -/
theorem setChild (h : arena.Ascending) (index : Nat) (hparent : parent < child)
    (hchild : child < arena.size) (hloose : ∀ id, child ∉ arena.children id) :
    (arena.setChild parent index child).Ascending := by
  have hchildren := fun i =>
    children_setChild arena parent index child i (Nat.lt_trans hparent hchild)
  -- the only new edge is the one to the loose node
  have hmem : ∀ id c, c ∈ (arena.setChild parent index child).children id →
      c ∈ arena.children id ∨ id = parent ∧ c = child := fun _ _ =>
    mem_children_setChild (Nat.lt_trans hparent hchild)
  constructor
  · intro id c hc
    obtain hc | ⟨rfl, rfl⟩ := hmem id c hc
    · exact h.lt_child id c hc
    · exact hparent
  · intro id c hc
    rw [size_setChild]
    obtain hc | ⟨rfl, rfl⟩ := hmem id c hc
    · exact h.child_lt id c hc
    · exact hchild
  · intro id c hc
    rw [parent?_setChild _ _ _ _ _ hchild]
    obtain hold | ⟨rfl, rfl⟩ := hmem id c hc
    · rw [if_neg (ne_of_mem_of_not_mem hold (hloose id))]
      exact h.parent_of_child id c hold
    · rw [if_pos rfl]
  · intro id
    rw [hchildren]
    split
    · split
      · exact (h.nodup_children id).set (hloose id)
      · refine List.Nodup.append (h.nodup_children id) (List.nodup_singleton child) ?_
        intro c hc hc'
        exact hloose id (List.mem_singleton.mp hc' ▸ hc)
    · exact h.nodup_children id
  · intro id p hp
    rw [parent?_setChild _ _ _ _ _ hchild] at hp
    split at hp
    · next heq =>
      cases hp
      exact heq ▸ hparent
    · exact h.parent_lt id p hp

/-- **Replacement** of a node by a later one that is nobody else's child. -/
theorem replace (h : arena.Ascending) (htarget : target < arena.size)
    (hlater : ∀ child ∈ arena.children source, target < child)
    (howned : ∀ id, source ∈ arena.children id → id = target) :
    (arena.replace target source).Ascending := by
  by_cases hne : target = source
  · rwa [← hne, replace_self]
  by_cases hsource : arena.size ≤ source
  · rwa [replace_of_size_le hsource]
  have hsource : source < arena.size := Nat.lt_of_not_le hsource
  have hloop := h.not_mem_children_self source
  have hinner : target ∉ arena.children source := fun hmem =>
    Nat.lt_irrefl target (hlater target hmem)
  have hchildren := children_replace hne htarget hsource hloop
  -- the edges of the source leave from the target now; all others are edges from before
  have hmem : ∀ id c, c ∈ (arena.replace target source).children id →
      id = target ∧ c ∈ arena.children source ∨
        id ≠ target ∧ id ≠ source ∧ c ∈ arena.children id := by
    intro id c hc
    rw [hchildren] at hc
    split at hc
    · exact absurd hc (by simp)
    · next hs =>
      split at hc
      · next ht => exact .inl ⟨ht, hc⟩
      · next ht => exact .inr ⟨ht, hs, hc⟩
  constructor
  · intro id c hc
    obtain ⟨rfl, hnew⟩ | ⟨-, -, hold⟩ := hmem id c hc
    · exact hlater c hnew
    · exact h.lt_child id c hold
  · intro id c hc
    rw [size_replace]
    obtain ⟨-, hnew⟩ | ⟨-, -, hold⟩ := hmem id c hc
    · exact h.child_lt source c hnew
    · exact h.child_lt id c hold
  · intro id c hc
    rw [parent?_replace hne htarget hsource hloop hinner (h.child_lt source)]
    obtain ⟨rfl, hnew⟩ | ⟨ht, hs, hold⟩ := hmem id c hc
    · rw [if_neg (ne_of_mem_of_not_mem hnew hloop), if_pos hnew]
    · have hcs : c ≠ source := by
        rintro rfl
        exact ht (howned id hold)
      rw [if_neg hcs, if_neg fun hnew => hs (h.parent_unique hold hnew)]
      exact h.parent_of_child id c hold
  · intro id
    rw [hchildren]
    split
    · exact List.nodup_nil
    · split
      · exact h.nodup_children source
      · exact h.nodup_children id
  · intro id p hp
    rw [parent?_replace hne htarget hsource hloop hinner (h.child_lt source)] at hp
    split at hp
    · exact absurd hp (by simp)
    · split at hp
      · next hnew =>
        cases hp
        exact hlater id hnew
      · exact h.parent_lt id p hp

/-- Replacement by a child. -/
theorem replace_child (h : arena.Ascending) (hchild : child ∈ arena.children id) :
    (arena.replace id child).Ascending := by
  refine h.replace (lt_size_of_mem_children hchild) ?_ fun _ hmem => h.parent_unique hmem hchild
  intro c hc
  exact Nat.lt_trans (h.lt_child id child hchild) (h.lt_child child c hc)

/-- After a replacement every label is one that was there before. -/
theorem label_replace_or (h : arena.Ascending) (htarget : target < arena.size) (i : Nat) :
    (arena.replace target source).label i = arena.label i ∨
      (arena.replace target source).label i = arena.label source := by
  by_cases hne : target = source
  · rw [← hne, replace_self]
    exact .inl rfl
  by_cases hsource : arena.size ≤ source
  · rw [replace_of_size_le hsource]
    exact .inl rfl
  rw [label_replace hne htarget (Nat.lt_of_not_le hsource) (h.not_mem_children_self source)]
  split
  · exact .inr rfl
  · exact .inl rfl

end Ascending

/-! ## Below a node -/

/-- **Below**: reached along child edges, in any number of steps. -/
def Below (arena : Arena) : NodeId → NodeId → Prop :=
  Relation.ReflTransGen fun parent child => child ∈ arena.children parent

variable {a b c n x : Nat}

namespace Below

@[refl] theorem refl (n : NodeId) : arena.Below n n := Relation.ReflTransGen.refl

theorem trans (hab : arena.Below a b) (hbc : arena.Below b c) : arena.Below a c :=
  Relation.ReflTransGen.trans hab hbc

theorem of_mem (h : b ∈ arena.children a) : arena.Below a b := Relation.ReflTransGen.single h

/-- What is below a child is below its parent. -/
theorem of_child (hchild : c ∈ arena.children n) (h : arena.Below c x) : arena.Below n x :=
  (of_mem hchild).trans h

/-- With more edges there are more paths. -/
theorem mono {other : Arena} (hedges : ∀ a b, b ∈ arena.children a → b ∈ other.children a)
    (h : arena.Below a b) : other.Below a b :=
  Relation.ReflTransGen.mono hedges a b h

/-- A node is below another one if it is that node, or below one of its children. -/
theorem iff_self_or_child :
    arena.Below n x ↔ x = n ∨ ∃ c ∈ arena.children n, arena.Below c x := by
  constructor
  · intro h
    rcases Relation.ReflTransGen.cases_head h with rfl | ⟨c, hc, hcx⟩
    · exact .inl rfl
    · exact .inr ⟨c, hc, hcx⟩
  · rintro (rfl | ⟨c, hc, hcx⟩)
    · rfl
    · exact .of_child hc hcx

/-- Nothing else is below a node without children. -/
theorem eq_of_childless (h : arena.Below n x) (hnil : arena.children n = []) : x = n := by
  rcases iff_self_or_child.mp h with heq | ⟨c, hc, -⟩
  · exact heq
  · rw [hnil] at hc
    exact absurd hc (by simp)

end Below

namespace WellFormed

variable (h : arena.WellFormed)

include h

/-- No node is below its own child. -/
theorem not_below_parent (hc : c ∈ arena.children n) : ¬arena.Below c n := by
  obtain ⟨rank, hrank⟩ := h.ranked
  have hfalls : ∀ {x}, arena.Below c x → rank x ≤ rank c := by
    intro x hx
    induction hx with
    | refl => exact Nat.le_refl _
    | @tail y x _ hstep ih => exact Nat.le_trans (Nat.le_of_lt (hrank y x hstep)) ih
  exact fun hbelow => absurd (hrank n c hc) (Nat.not_lt_of_le (hfalls hbelow))

/-- A node that is strictly above a child is above its parent. -/
theorem below_parent (hbelow : arena.Below a c) (hc : c ∈ arena.children n) (hne : a ≠ c) :
    arena.Below a n := by
  rcases Relation.ReflTransGen.cases_tail hbelow with heq | ⟨y, hay, hstep⟩
  · exact absurd heq.symm hne
  · rwa [h.parent_unique hc hstep]

/-- Nodes below each other are the same. -/
theorem below_antisymm (hab : arena.Below a b) (hba : arena.Below b a) : a = b := by
  rcases Below.iff_self_or_child.mp hab with heq | ⟨c, hc, hcb⟩
  · exact heq.symm
  · exact absurd (hcb.trans hba) (h.not_below_parent hc)

/-- **Chains**: of two nodes above the same node, one is below the other. -/
theorem linear (ha : arena.Below a x) (hb : arena.Below b x) :
    arena.Below a b ∨ arena.Below b a := by
  induction ha with
  | refl => exact .inr hb
  | @tail y x hay hstep ih =>
    by_cases hbx : b = x
    · exact .inl (hbx ▸ hay.tail hstep)
    · exact ih (h.below_parent hb hstep hbx)

/-- **Siblings** have nothing below them in common. -/
theorem siblings_disjoint (ha : a ∈ arena.children n) (hb : b ∈ arena.children n) (hne : a ≠ b)
    (hax : arena.Below a x) : ¬arena.Below b x := by
  intro hbx
  rcases h.linear hax hbx with hab | hba
  · exact h.not_below_parent ha (h.below_parent hab hb hne)
  · exact h.not_below_parent hb (h.below_parent hba ha hne.symm)

end WellFormed

namespace Ascending

variable (h : arena.Ascending)

include h

/-- Nodes below another one come after it. -/
theorem le_of_below (hbelow : arena.Below a b) : a ≤ b := by
  induction hbelow with
  | refl => exact Nat.le_refl a
  | tail _ hstep ih => exact Nat.le_trans ih (Nat.le_of_lt (h.lt_child _ _ hstep))

theorem not_below_parent (hchild : c ∈ arena.children n) : ¬arena.Below c n :=
  h.wellFormed.not_below_parent hchild

/-- Nodes below an existing one exist. -/
theorem below_lt_size (hbelow : arena.Below a b) (ha : a < arena.size) : b < arena.size := by
  induction hbelow with
  | refl => exact ha
  | tail _ hstep _ => exact h.child_lt _ _ hstep

theorem below_parent (hbelow : arena.Below a c) (hchild : c ∈ arena.children n) (hne : a ≠ c) :
    arena.Below a n :=
  h.wellFormed.below_parent hbelow hchild hne

theorem linear (ha : arena.Below a x) (hb : arena.Below b x) : arena.Below a b ∨ arena.Below b a :=
  h.wellFormed.linear ha hb

theorem siblings_disjoint (ha : a ∈ arena.children n) (hb : b ∈ arena.children n) (hne : a ≠ b)
    (hax : arena.Below a x) : ¬arena.Below b x :=
  h.wellFormed.siblings_disjoint ha hb hne hax

/-- The nodes strictly above a node are among its ancestors. -/
theorem mem_ancestorsWithin (hbelow : arena.Below a b) (hne : a ≠ b) (fuel : Nat)
    (hfuel : b ≤ fuel) : a ∈ arena.ancestorsWithin fuel b := by
  induction hbelow generalizing fuel with
  | refl => exact absurd rfl hne
  | @tail y b hay hstep ih =>
    have hlt := h.lt_child y b hstep
    obtain ⟨fuel, rfl⟩ : ∃ k, fuel = k + 1 := ⟨fuel - 1, by omega⟩
    rw [ancestorsWithin, h.parent_of_child y b hstep]
    by_cases heq : a = y
    · exact heq ▸ List.mem_cons_self
    · exact List.mem_cons_of_mem y (ih heq fuel (by omega))

/-- A node below a scope lies within it. -/
theorem isWithin_of_below (hbelow : arena.Below a b) (hb : b < arena.size) :
    arena.isWithin b a = true := by
  by_cases heq : a = b
  · simp [isWithin, heq]
  · have hmem := h.mem_ancestorsWithin hbelow heq arena.size (Nat.le_of_lt hb)
    simp [isWithin, ancestors, hmem]

/-- The first node has no parent. -/
theorem parent?_zero : arena.parent? 0 = none := by
  cases hparent : arena.parent? 0 with
  | none => rfl
  | some p => exact absurd (h.parent_lt 0 p hparent) (Nat.not_lt_zero p)

/-- A node that is reached from the first one lies within a scope only if it is below it. -/
theorem below_of_isWithin (hx : arena.Below 0 x) (hwithin : arena.isWithin x a = true) :
    arena.Below a x := by
  suffices hall : ∀ fuel, a ∈ arena.ancestorsWithin fuel x → arena.Below a x by
    rcases Bool.or_eq_true_iff.mp hwithin with heq | hmem
    · rw [beq_iff_eq.mp heq]
    · exact hall _ (List.contains_iff_mem.mp hmem)
  clear hwithin
  induction hx with
  | refl =>
    intro fuel hmem
    cases fuel with
    | zero => exact absurd hmem (by simp [ancestorsWithin])
    | succ fuel =>
      rw [ancestorsWithin, h.parent?_zero] at hmem
      exact absurd hmem (by simp)
  | @tail y x _ hstep ih =>
    intro fuel hmem
    cases fuel with
    | zero => exact absurd hmem (by simp [ancestorsWithin])
    | succ fuel =>
      rw [ancestorsWithin, h.parent_of_child y x hstep] at hmem
      rcases List.mem_cons.mp hmem with rfl | hmem
      · exact .of_mem hstep
      · exact (ih fuel hmem).tail hstep

omit h in
/-- Whatever the bound, descendants are below their node. -/
theorem below_of_mem_descendantsWithin (fuel : Nat) (hmem : x ∈ arena.descendantsWithin fuel n) :
    arena.Below n x := by
  induction fuel generalizing n with
  | zero =>
    rw [List.mem_singleton.mp hmem]
  | succ fuel ih =>
    rcases List.mem_cons.mp hmem with rfl | hmem
    · rfl
    · obtain ⟨c, hc, hx⟩ := List.mem_flatMap.mp hmem
      exact .of_child hc (ih hx)

/-- Whatever the bound, no node is listed twice among the descendants of another one. -/
theorem nodup_descendantsWithin (fuel : Nat) (n : Nat) : (arena.descendantsWithin fuel n).Nodup := by
  induction fuel generalizing n with
  | zero => exact List.nodup_singleton n
  | succ fuel ih =>
    rw [descendantsWithin, List.nodup_cons, List.nodup_flatMap]
    refine ⟨fun hmem => ?_, fun c _ => ih c, ?_⟩
    · obtain ⟨c, hc, hn⟩ := List.mem_flatMap.mp hmem
      exact h.not_below_parent hc (below_of_mem_descendantsWithin fuel hn)
    · -- siblings have nothing below them in common
      refine (h.nodup_children n).imp_of_mem fun {a b} ha hb hne x hxa hxb => ?_
      exact h.siblings_disjoint ha hb hne (below_of_mem_descendantsWithin fuel hxa)
        (below_of_mem_descendantsWithin fuel hxb)

/-- No node is listed twice among the descendants of another one. -/
theorem nodup_descendants (n : Nat) : (arena.descendants n).Nodup := h.nodup_descendantsWithin _ n

/-- With a bound that reaches the end of the arena, the descendants are all the nodes below. -/
theorem mem_descendantsWithin (fuel : Nat) (hfuel : arena.size ≤ fuel + n) :
    x ∈ arena.descendantsWithin fuel n ↔ arena.Below n x := by
  refine ⟨below_of_mem_descendantsWithin fuel, ?_⟩
  induction fuel generalizing n with
  | zero =>
    rw [Below.iff_self_or_child, children_of_size_le (by omega)]
    simp [descendantsWithin]
  | succ fuel ih =>
    intro hbelow
    rw [descendantsWithin, List.mem_cons, List.mem_flatMap]
    rcases Below.iff_self_or_child.mp hbelow with heq | ⟨c, hc, hcx⟩
    · exact .inl heq
    · have hlt := h.lt_child n c hc
      exact .inr ⟨c, hc, ih (by omega) hcx⟩

/-- A bound that reaches the end of the arena does so for the children, with one step less. -/
theorem reach_children {depth m : Nat} (hdepth : arena.size ≤ depth + 1 + m) :
    ∀ c ∈ arena.children m, (c : Nat) < arena.size ∧ arena.size ≤ depth + c := by
  intro c hc
  have hlt := h.lt_child m c hc
  exact ⟨h.child_lt m c hc, by omega⟩

/-- **Descendants** are the nodes below. -/
theorem mem_descendants : x ∈ arena.descendants n ↔ arena.Below n x :=
  h.mem_descendantsWithin arena.size (by omega)

end Ascending

/-- The expansions below a node only depend on the kinds and child edges below it. -/
theorem expansionsWithin_congr {other : Arena} (fuel : Nat)
    (hkind : ∀ x, arena.Below n x →
      (other.label x).kind.isExpansion = (arena.label x).kind.isExpansion)
    (hchildren : ∀ x, arena.Below n x → other.children x = arena.children x) :
    other.expansionsWithin fuel n = arena.expansionsWithin fuel n := by
  induction fuel generalizing n with
  | zero => rw [expansionsWithin, expansionsWithin, hkind n (.refl n)]
  | succ fuel ih =>
    have hrec : ∀ c ∈ arena.children n,
        other.expansionsWithin fuel c = arena.expansionsWithin fuel c := fun c hc =>
      ih (fun x hx => hkind x (.of_child hc hx)) fun x hx => hchildren x (.of_child hc hx)
    have hfirst : other.child? n 0 = arena.child? n 0 := by
      rw [child?, child?, hchildren n (.refl n)]
    rw [expansionsWithin, expansionsWithin, hkind n (.refl n), hfirst, hchildren n (.refl n)]
    split
    · cases hc : arena.child? n 0 with
      | none => rfl
      | some c => rw [Option.elim_some, Option.elim_some, hrec c (List.mem_of_getElem? hc)]
    · exact List.flatMap_congr hrec

/-! ## The first node that satisfies a condition -/

/-- **First** node at or below another one, in document order, whose label satisfies a condition. -/
inductive First (arena : Arena) (condition : Label → Bool) : NodeId → NodeId → Prop where
  | here (n : NodeId) (hn : condition (arena.label n) = true) : First arena condition n n
  | inside (n c x : NodeId) (before after : List NodeId) (hn : condition (arena.label n) = false)
      (hchildren : arena.children n = before ++ c :: after)
      (hbefore : ∀ b ∈ before, ∀ y, arena.Below b y → condition (arena.label y) = false)
      (hfirst : First arena condition c x) : First arena condition n x

variable {condition : Label → Bool}

namespace First

theorem below_root (hfirst : arena.First condition n x) : arena.Below n x := by
  induction hfirst with
  | here => rfl
  | inside n c x before after _ hchildren _ _ ih => exact .of_child (by simp [hchildren]) ih

theorem condition_eq (hfirst : arena.First condition n x) : condition (arena.label x) = true := by
  induction hfirst with
  | here _ hn => exact hn
  | inside _ _ _ _ _ _ _ _ _ ih => exact ih

end First

namespace Ascending

variable (h : arena.Ascending)

include h

/-- Searching the descendants finds the first node that satisfies the condition. -/
theorem find?_descendantsWithin (fuel : Nat) (hfuel : arena.size ≤ fuel + n) :
    ((arena.descendantsWithin fuel n).find? fun id => condition (arena.label id)) = some x ↔
      arena.First condition n x := by
  constructor
  -- the search goes into the children one after the other, and so does the inductive definition of the
  -- first node
  · induction fuel generalizing n with
    | zero =>
      intro hfind
      have hx := List.find?_some hfind
      rw [List.mem_singleton.mp (List.mem_of_find?_eq_some hfind)] at hx ⊢
      exact .here n hx
    | succ fuel ih =>
      intro hfind
      rw [descendantsWithin, List.find?_cons] at hfind
      split at hfind
      · next hn => exact Option.some.inj hfind ▸ .here n hn
      · next hn =>
        rw [List.find?_flatMap, List.findSome?_eq_some_iff] at hfind
        obtain ⟨before, c, after, hchildren, hc, hbefore⟩ := hfind
        have hlater : ∀ m ∈ arena.children n, arena.size ≤ fuel + m := by
          intro m hm
          have hlt := h.lt_child n m hm
          omega
        refine .inside n c x before after hn hchildren ?_ (ih (hlater c (by simp [hchildren])) hc)
        intro b hb y hy
        have hmem := (h.mem_descendantsWithin fuel (hlater b (by simp [hchildren, hb]))).mpr hy
        exact eq_false_of_ne_true (List.find?_eq_none.mp (hbefore b hb) y hmem)
  · intro hfirst
    induction hfirst generalizing fuel with
    | here n hn =>
      cases fuel <;> simp [descendantsWithin, hn]
    | inside n c x before after hn hchildren hbefore _ ih =>
      have hc : c ∈ arena.children n := by simp [hchildren]
      have hlt := h.lt_child n c hc
      have hsize := h.child_lt n c hc
      obtain ⟨fuel, rfl⟩ : ∃ k, fuel = k + 1 := ⟨fuel - 1, by omega⟩
      rw [descendantsWithin, List.find?_cons_of_neg (by simp [hn]), List.find?_flatMap, hchildren,
        List.findSome?_append, List.findSome?_eq_none_iff.mpr ?_, Option.none_or,
        List.findSome?_cons, ih fuel (by omega)]
      intro b hb
      rw [List.find?_eq_none]
      intro y hy
      rw [hbefore b hb y (below_of_mem_descendantsWithin fuel hy)]
      exact Bool.false_ne_true

/-- **Search**: the first node at or below a root that satisfies a condition. -/
theorem find?_eq_some_iff : arena.find? n condition = some x ↔ arena.First condition n x :=
  h.find?_descendantsWithin arena.size (by omega)

/-- The child through which a node is reached is the one below which it is. -/
theorem below_of_siblings (hc : c ∈ arena.children n) (hcx : arena.Below c x)
    (hna : arena.Below n a) (hne : a ≠ n) (hax : arena.Below a x) : arena.Below c a := by
  obtain ⟨d, hd, hda⟩ := (Below.iff_self_or_child.mp hna).resolve_left hne
  by_cases heq : d = c
  · rwa [← heq]
  · exact absurd hcx (h.siblings_disjoint hd hc heq (hda.trans hax))

/-- From a node on the way to the first one, the same node is the first. -/
theorem first_of_below (hfirst : arena.First condition n x) (hna : arena.Below n a)
    (hax : arena.Below a x) : arena.First condition a x := by
  induction hfirst with
  | here n hn =>
    have heq : a = n := Nat.le_antisymm (h.le_of_below hax) (h.le_of_below hna)
    exact heq ▸ .here n hn
  | inside n c x before after hn hchildren hbefore hfirst ih =>
    by_cases heq : a = n
    · exact heq ▸ .inside n c x before after hn hchildren hbefore hfirst
    · exact ih (h.below_of_siblings (by simp [hchildren]) hfirst.below_root hna heq hax) hax

/-- **After a change** that adds no node with the condition below any other, what comes first below a
node on the way to the former first one comes first, if nothing changes on the way there. -/
theorem first_of_change {other : Arena} {m t : Nat}
    (hquiet : ∀ a y : Nat, other.Below a y → condition (other.label y) = true →
      ∃ z : Nat, arena.Below a z ∧ condition (arena.label z) = true)
    (hfirst : arena.First condition n x) (hnm : arena.Below n m) (hmx : arena.Below m x)
    (hway : ∀ y : Nat, arena.Below n y → arena.Below y m → y ≠ m →
      condition (other.label y) = condition (arena.label y) ∧ other.children y = arena.children y)
    (hlast : other.First condition m t) : other.First condition n t := by
  induction hfirst with
  | here n hn =>
    have heq : m = n := Nat.le_antisymm (h.le_of_below hmx) (h.le_of_below hnm)
    exact heq ▸ hlast
  | inside n c x before after hn hchildren hbefore hfirst ih =>
    by_cases heq : m = n
    · exact heq ▸ hlast
    have hc : c ∈ arena.children n := by simp [hchildren]
    obtain ⟨hlabel, hsame⟩ := hway n (.refl n) hnm (Ne.symm heq)
    refine .inside n c t before after (hlabel.trans hn) (hsame.trans hchildren) (fun b hb y hy => ?_) ?_
    · by_contra hcondition
      obtain ⟨z, hz, hcondition'⟩ := hquiet b y hy (eq_true_of_ne_false hcondition)
      rw [hbefore b hb z hz] at hcondition'
      exact absurd hcondition' (by simp)
    · exact ih (h.below_of_siblings hc hfirst.below_root hnm heq hmx) hmx
        fun y hy => hway y (.of_child hc hy)

end Ascending

end LinkedSearch.Query.Arena
