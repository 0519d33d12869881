import LinkedSearch.Proofs.Arena.Rooted

/-! # Replacement as substitution

A replacement overwrites the slot of a node by a copy of another one and clears that one in place. What
was below the target stays behind with its edges, some of which now lead nowhere. On trees it is a
substitution all the same, since nothing that stays behind is reached from a root.

* `Kept`: the nodes that are not dropped; `Kept.step`: their children after the replacement.
* `rooted_replace`: below every root there is a tree again.
* `replace_substitutes`: the parts put together. -/

namespace LinkedSearch.Query.Arena

variable {arena : Arena} {target source root a b c n p x : Nat}

/-- The tree that is read only depends on the labels and child edges below its node. -/
theorem treeWithin_congr {other : Arena} (fuel : Nat)
    (hlabel : ∀ x, arena.Below n x → other.label x = arena.label x)
    (hchildren : ∀ x, arena.Below n x → other.children x = arena.children x) :
    other.treeWithin fuel n = arena.treeWithin fuel n := by
  induction fuel generalizing n with
  | zero => rw [treeWithin, treeWithin, hlabel n (.refl n)]
  | succ fuel ih =>
    rw [treeWithin, treeWithin, hlabel n (.refl n), hchildren n (.refl n)]
    have hrec : ∀ c ∈ arena.children n, other.treeWithin fuel c = arena.treeWithin fuel c :=
      fun c hc => ih (fun x hx => hlabel x (.of_child hc hx)) fun x hx => hchildren x (.of_child hc hx)
    rw [List.map_congr_left hrec]

/-- **Kept** nodes: not the source, and below the target only what the source brings along. -/
def Kept (arena : Arena) (target source x : NodeId) : Prop :=
  x ≠ source ∧ (arena.Below target x → x = target ∨ arena.Below source x)

section Replacing

variable (h : arena.WellFormed) (htarget : target < arena.size) (hsource : source < arena.size)
  (hupward : ¬arena.Below source target)
  (howned : ∀ p, source ∈ arena.children p → arena.Below target p)

include h in
/-- A node is not its own child. -/
theorem WellFormed.not_mem_children_self : source ∉ arena.children source := fun hmem =>
  h.not_below_parent hmem (.refl source)

include hupward in
theorem ne_of_not_below : target ≠ source := by
  rintro rfl
  exact hupward (.refl target)

include h htarget hsource hupward in
/-- Children after the replacement of a node by one that is not above it. -/
theorem children_replace_of_not_below (i : Nat) :
    (arena.replace target source).children i =
      if i = source then [] else if i = target then arena.children source
      else arena.children i :=
  children_replace (ne_of_not_below hupward) htarget hsource h.not_mem_children_self i

include h htarget hsource hupward in
/-- Parents after the replacement of a node by one that is not above it. -/
theorem parent?_replace_of_not_below (i : Nat) :
    (arena.replace target source).parent? i =
      if i = source then none
      else if i ∈ arena.children source then some target
      else arena.parent? i :=
  parent?_replace (ne_of_not_below hupward) htarget hsource h.not_mem_children_self
    (fun hmem => hupward (.of_mem hmem)) (h.child_lt source) i

include h htarget hsource hupward howned in
/-- **The children of a kept node** after the replacement exist, know it and are kept. -/
theorem Kept.step (hx : arena.Kept target source x) (hc : c ∈ (arena.replace target source).children x) :
    arena.Kept target source c ∧ c < arena.size
      ∧ (arena.replace target source).parent? c = some x := by
  rw [children_replace_of_not_below h htarget hsource hupward, if_neg hx.1] at hc
  rw [parent?_replace_of_not_below h htarget hsource hupward]
  split at hc
  · next heq =>
    subst heq
    have hne : c ≠ source := ne_of_mem_of_not_mem hc h.not_mem_children_self
    refine ⟨⟨hne, fun _ => .inr (.of_mem hc)⟩, h.child_lt source c hc, ?_⟩
    rw [if_neg hne, if_pos hc]
  · next htx =>
    have hkept : arena.Below target x → arena.Below source x := fun hbelow =>
      (hx.2 hbelow).resolve_left htx
    -- the former parent of the source is dropped
    have hne : c ≠ source := by
      rintro rfl
      exact h.not_below_parent hc (hkept (howned x hc))
    refine ⟨⟨hne, fun hbelow => ?_⟩, h.child_lt x c hc, ?_⟩
    · by_cases heq : c = target
      · exact .inl heq
      · exact .inr ((hkept (h.below_parent hbelow hc (Ne.symm heq))).tail hc)
    · rw [if_neg hne, if_neg fun hmem => hx.1 (h.parent_unique hc hmem)]
      exact h.parent_of_child x c hc

include h htarget hsource hupward in
/-- **Roots after a replacement**: the source, and those that were roots before. -/
theorem parent?_replace_eq_none_iff :
    (arena.replace target source).parent? root = none ↔
      root = source ∨ arena.parent? root = none := by
  rw [parent?_replace_of_not_below h htarget hsource hupward]
  by_cases hs : root = source
  · rw [if_pos hs]
    exact ⟨fun _ => .inl hs, fun _ => rfl⟩
  · rw [if_neg hs]
    split
    · next hmem =>
      rw [h.parent_of_child source root hmem]
      simp [hs]
    · simp [hs]

include h htarget hsource hupward in
/-- Nothing else is below the source after a replacement. -/
theorem eq_of_below_source (hx : (arena.replace target source).Below source x) : x = source := by
  refine hx.eq_of_childless ?_
  rw [children_replace_of_not_below h htarget hsource hupward, if_pos rfl]

include h htarget hsource hupward howned in
/-- What is reached from another root after a replacement is kept. -/
theorem kept_of_below (hroot : arena.parent? root = none) (hne : root ≠ source)
    (hx : (arena.replace target source).Below root x) : arena.Kept target source x := by
  induction hx with
  | refl =>
    refine ⟨hne, fun hbelow => ?_⟩
    rcases Relation.ReflTransGen.cases_tail hbelow with heq | ⟨p, -, hp⟩
    · exact .inl heq
    · rw [h.parent_of_child p root hp] at hroot
      exact absurd hroot (by simp)
  | tail _ hstep ih => exact (ih.step h htarget hsource hupward howned hstep).1

include h htarget hsource hupward howned in
/-- **Below every root** there is a tree after a replacement. -/
theorem rooted_replace (hsize : root < arena.size)
    (hroot : (arena.replace target source).parent? root = none) :
    (arena.replace target source).Rooted root := by
  have hnodup : ∀ x, ((arena.replace target source).children x).Nodup := by
    intro x
    rw [children_replace_of_not_below h htarget hsource hupward]
    split
    · exact List.nodup_nil
    · split <;> exact h.nodup_children _
  have hstep : ∀ x, (arena.replace target source).Below root x →
      ∀ c ∈ (arena.replace target source).children x,
        c < arena.size ∧ (arena.replace target source).parent? c = some x := by
    intro x hx c hc
    by_cases hs : root = source
    · subst hs
      rw [eq_of_below_source h htarget hsource hupward hx,
        children_replace_of_not_below h htarget hsource hupward, if_pos rfl] at hc
      exact absurd hc (by simp)
    · have hbefore := ((parent?_replace_eq_none_iff h htarget hsource hupward).mp hroot).resolve_left hs
      have hkept := kept_of_below h htarget hsource hupward howned hbefore hs hx
      exact (hkept.step h htarget hsource hupward howned hc).2
  exact ⟨by rwa [size_replace], hroot, fun x hx c hc => by simpa using (hstep x hx c hc).1,
    fun x hx c hc => (hstep x hx c hc).2, fun x _ => hnodup x⟩

include h htarget hsource hupward in
/-- **The tree at the target** after a replacement is the one at the source before. -/
theorem treeAt_replace : (arena.replace target source).treeAt target = arena.treeAt source := by
  have hne := ne_of_not_below hupward
  have hchildren := children_replace_of_not_below h htarget hsource hupward
  have hlabel := label_replace hne htarget hsource h.not_mem_children_self
  obtain ⟨fuel, hfuel⟩ : ∃ fuel, arena.size = fuel + 1 := ⟨arena.size - 1, by omega⟩
  rw [treeAt, treeAt, size_replace, hfuel, treeWithin, treeWithin, hlabel, if_pos rfl, hchildren,
    if_neg hne, if_pos rfl]
  -- what is below the children of the source is neither of the two
  have hinside : ∀ c ∈ arena.children source, ∀ x, arena.Below c x → x ≠ source ∧ x ≠ target := by
    intro c hc x hx
    refine ⟨?_, ?_⟩
    · rintro rfl
      exact h.not_below_parent hc hx
    · rintro rfl
      exact hupward (.of_child hc hx)
  refine congrArg _ (List.map_congr_left fun c hc => treeWithin_congr fuel (fun x hx => ?_) fun x hx => ?_)
  · rw [hlabel, if_neg (hinside c hc x hx).2]
  · rw [hchildren, if_neg (hinside c hc x hx).1, if_neg (hinside c hc x hx).2]

end Replacing

/-- **Replacement is substitution.** In a well-formed arena let the source be strictly below the target,
or else nobody's child and not above the target. After the replacement of the target by the source, the
nodes below every root form a tree, and the roots are the former ones and the source; the tree at the
target is the one that was at the source; the target has the parent it had, among whose children it
stands where it stood; the source has no edges and is not reached from any other root; and the nodes
that were neither below the target nor below the source are as they were. -/
theorem replace_substitutes (h : arena.WellFormed) (htarget : target < arena.size)
    (hsource : source < arena.size)
    (hplaced : arena.Below target source ∧ source ≠ target
      ∨ (∀ p, source ∉ arena.children p) ∧ ¬arena.Below source target) :
    let after := arena.replace target source
    (∀ root < arena.size, after.parent? root = none → after.TreeFrom root)
      ∧ (∀ root, after.parent? root = none ↔ root = source ∨ arena.parent? root = none)
      ∧ after.treeAt target = arena.treeAt source
      ∧ after.parent? target = arena.parent? target
      ∧ (∀ p, target ∈ arena.children p → after.children p = arena.children p)
      ∧ after.parent? source = none
      ∧ after.children source = []
      ∧ (∀ root < arena.size, after.parent? root = none → after.Below root source → root = source)
      ∧ ∀ i, ¬arena.Below target i → ¬arena.Below source i → after.slot? i = arena.slot? i := by
  intro after
  obtain ⟨hupward, howned⟩ : ¬arena.Below source target
      ∧ ∀ p, source ∈ arena.children p → arena.Below target p := by
    rcases hplaced with ⟨hbelow, hne⟩ | ⟨hloose, hupward⟩
    · exact ⟨fun hup => hne (h.below_antisymm hup hbelow),
        fun p hp => h.below_parent hbelow hp (Ne.symm hne)⟩
    · exact ⟨hupward, fun p hp => absurd hp (hloose p)⟩
  have hne := ne_of_not_below hupward
  have hchildren := children_replace_of_not_below h htarget hsource hupward
  have hparent := parent?_replace_of_not_below h htarget hsource hupward
  have hrooted : ∀ root < arena.size, after.parent? root = none → after.Rooted root :=
    fun root hsize hroot => rooted_replace h htarget hsource hupward howned hsize hroot
  refine ⟨fun root hsize hroot => (hrooted root hsize hroot).treeFrom, fun root => ?_, ?_, ?_, ?_, ?_, ?_,
    ?_, ?_⟩
  · exact parent?_replace_eq_none_iff h htarget hsource hupward
  · exact treeAt_replace h htarget hsource hupward
  · rw [hparent, if_neg hne, if_neg fun hmem => hupward (.of_mem hmem)]
  · intro p hp
    have hps : p ≠ source := by
      rintro rfl
      exact hupward (.of_mem hp)
    have hpt : p ≠ target := by
      rintro rfl
      exact h.not_below_parent hp (.refl p)
    rw [hchildren, if_neg hps, if_neg hpt]
  · rw [hparent, if_pos rfl]
  · rw [hchildren, if_pos rfl]
  · intro root hsize hroot hbelow
    rcases Relation.ReflTransGen.cases_tail hbelow with heq | ⟨p, hp, hmem⟩
    · exact heq.symm
    · have hknown := (hrooted root hsize hroot).parent_of_child p hp source hmem
      rw [hparent, if_pos rfl] at hknown
      exact absurd hknown (by simp)
  · intro i htarget' hsource'
    rw [slot?_replace hne hsource h.not_mem_children_self, if_neg, if_neg, if_neg]
    · exact fun hmem => hsource' (.of_mem hmem)
    · rintro rfl
      exact htarget' (.refl i)
    · rintro rfl
      exact hsource' (.refl i)

/-- A negation replaced by a disjunction two levels below it; what stands between them is dropped. -/
theorem replace_substitutes_inner :
    let tree : Tree := .disjunction [.negation (.conjunction [.word "a" (.str "1"),
      .disjunction [.word "b" (.str "2"), .word "c" (.str "3")]]), .word "d" (.str "4")]
    let arena := (Arena.empty.insert tree).1
    arena.WellFormed ∧ arena.Below 1 4
      ∧ (arena.replace 1 4).TreeFrom 0
      ∧ (arena.replace 1 4).treeAt 1 = arena.treeAt 4 := by
  intro tree arena
  have hwell : arena.WellFormed := (insert_spec tree Arena.empty .empty).ascending.wellFormed
  have hbelow : arena.Below 1 4 := .of_child (c := 2) (by decide +kernel) (.of_mem (by decide +kernel))
  have hall := @replace_substitutes arena 1 4 hwell (by decide +kernel) (by decide +kernel)
    (.inl ⟨hbelow, by decide⟩)
  exact ⟨hwell, hbelow, hall.1 0 (by decide +kernel) (by decide +kernel), hall.2.2.1⟩

end LinkedSearch.Query.Arena
