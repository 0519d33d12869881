import LinkedSearch.Proofs.Arena.Ascending

/-! # Changes below a node

Compiling an expansion rewrites the arena, but only below that expansion:

* `Arena.Framed n`: what is not below `n` is as before, and nothing that existed before has moved
  below `n`. It is reflexive, transitive and monotone in `n`.
* One frame lemma for each operation: pushing, relabelling, and replacing a node by its child or by
  a node that was just pushed.
* `FramedAll`: changes below several children of a node leave its other children alone.
* `Framed.first`: the first node that satisfies a condition is still the first one after a change
  below it. -/

namespace LinkedSearch.Query.Arena

variable {arena other last : Arena} {a b c n x : Nat}

/-- **Frame**: a change below a node. -/
structure Framed (n : Nat) (arena other : Arena) : Prop where
  size_le : arena.size ≤ other.size
  outside : ∀ i : Nat, i < arena.size → ¬arena.Below n i → other.slot? i = arena.slot? i
  inside : ∀ i : Nat, other.Below n i → arena.Below n i ∨ arena.size ≤ i

namespace Framed

@[refl] theorem refl (n : Nat) (arena : Arena) : Framed n arena arena :=
  ⟨Nat.le_refl _, fun _ _ _ => rfl, fun _ => .inl⟩

theorem trans (hab : Framed n arena other) (hbc : Framed n other last) : Framed n arena last where
  size_le := Nat.le_trans hab.size_le hbc.size_le
  outside := by
    intro i hi hnot
    have hnot' : ¬other.Below n i := by
      intro hbelow
      rcases hab.inside i hbelow with hold | hnew
      · exact hnot hold
      · omega
    rw [hbc.outside i (Nat.lt_of_lt_of_le hi hab.size_le) hnot', hab.outside i hi hnot]
  inside := by
    intro i hbelow
    rcases hbc.inside i hbelow with hold | hnew
    · exact hab.inside i hold
    · exact .inr (Nat.le_trans hab.size_le hnew)

variable (h : arena.Ascending) (hc : Framed c arena other)

include h hc

/-- A path that does not start strictly inside the change was there before. -/
theorem below_before (hbelow : other.Below a x) (ha : a < arena.size)
    (hstart : a = c ∨ ¬arena.Below c a) : arena.Below a x ∨ arena.size ≤ x := by
  induction hbelow using Relation.ReflTransGen.head_induction_on with
  | refl => exact .inl (.refl x)
  | @head a y hstep hrest ih =>
    rcases hstart with rfl | hnot
    · exact hc.inside x (.of_child hstep hrest)
    · rw [children_congr (hc.outside a ha hnot)] at hstep
      have hy : y = c ∨ ¬arena.Below c y := by
        by_cases heq : y = c
        · exact .inl heq
        · exact .inr fun hcy => hnot (h.below_parent hcy hstep (Ne.symm heq))
      exact (ih (h.child_lt a y hstep) hy).imp_left (.of_child hstep)

/-- **Monotonicity**: a change below a node is a change below every node above it. -/
theorem of_below (hn : arena.Below n c) (hsize : n < arena.size) : Framed n arena other where
  size_le := hc.size_le
  outside := fun i hi hnot => hc.outside i hi fun hbelow => hnot (hn.trans hbelow)
  inside := by
    intro i hbelow
    refine below_before h hc hbelow hsize ?_
    by_cases heq : n = c
    · exact .inl heq
    · refine .inr fun hcn => heq ?_
      have hle := h.le_of_below hn
      have hge := h.le_of_below hcn
      omega

/-- A path that ends outside the change is still there. -/
theorem below_after (hbelow : arena.Below a x) (hx : x < arena.size) (hnot : ¬arena.Below c x) :
    other.Below a x := by
  induction hbelow with
  | refl => rfl
  | @tail y x hay hstep ih =>
    have hy : ¬arena.Below c y := fun hcy => hnot (hcy.tail hstep)
    have hlt := h.lt_child y x hstep
    rw [← children_congr (hc.outside y (by omega) hy)] at hstep
    exact (ih (by omega) hy).tail hstep

omit hc in
/-- Apart from the change, the nodes below a node are the same. -/
theorem below_apart (hc : Framed c arena other) (ha : a < arena.size) (hac : ¬arena.Below a c)
    (hca : ¬arena.Below c a) : other.Below a x ↔ arena.Below a x := by
  constructor
  · intro hbelow
    induction hbelow with
    | refl => rfl
    | @tail y x _ hstep ih =>
      have hy : ¬arena.Below c y := by
        intro hcy
        rcases h.linear ih hcy with hac' | hca'
        · exact hac hac'
        · exact hca hca'
      rw [children_congr (hc.outside y (h.below_lt_size ih ha) hy)] at hstep
      exact ih.tail hstep
  · intro hbelow
    refine below_after h hc hbelow (h.below_lt_size hbelow ha) fun hcx => ?_
    rcases h.linear hbelow hcx with hac' | hca'
    · exact hac hac'
    · exact hca hca'

/-- Apart from the change, slots are the same. -/
theorem slot?_apart (ha : a < arena.size) (hac : ¬arena.Below a c) (hca : ¬arena.Below c a)
    (hbelow : arena.Below a x) : other.slot? x = arena.slot? x := by
  refine hc.outside x (h.below_lt_size hbelow ha) fun hcx => ?_
  rcases h.linear hbelow hcx with hac' | hca'
  · exact hac hac'
  · exact hca hca'

/-- A node strictly above the change is as before. -/
theorem slot?_above (hlt : n < c) (hn : n < arena.size) : other.slot? n = arena.slot? n := by
  refine hc.outside n hn fun hbelow => ?_
  have hle := h.le_of_below hbelow
  omega

/-- **First node** below which a change takes place: it stays the first one. -/
theorem first {condition : Label → Bool} (hfirst : arena.First condition n x)
    (hbelow : arena.Below x c) (hx : condition (other.label x) = true) (hc' : c < arena.size) :
    other.First condition n x := by
  induction hfirst with
  | here n _ => exact .here n hx
  | inside n m x before after hn hchildren hbefore hfirst ih =>
    have hmem : m ∈ arena.children n := by simp [hchildren]
    have hnm := h.lt_child n m hmem
    have hmx := h.le_of_below hfirst.below_root
    have hxc := h.le_of_below hbelow
    have hslot := hc.slot?_above h (n := n) (by omega) (by omega)
    refine .inside n m x before after ?_ ?_ ?_ (ih hbelow hx)
    · rw [label_congr hslot, hn]
    · rw [children_congr hslot, hchildren]
    · intro b hb y hy
      have hbmem : b ∈ arena.children n := by simp [hchildren, hb]
      have hbsize := h.child_lt n b hbmem
      -- `b` has nothing to do with the change, which is below its later sibling `m`
      have hne : m ≠ b := by
        rintro rfl
        have hcond := hbefore m hb x hfirst.below_root
        rw [hfirst.condition_eq] at hcond
        exact absurd hcond (by simp)
      have hmc := hfirst.below_root.trans hbelow
      have hbc : ¬arena.Below b c := h.siblings_disjoint hmem hbmem hne hmc
      have hcb : ¬arena.Below c b := fun hcb =>
        h.siblings_disjoint hmem hbmem hne (hmc.trans hcb) (.refl b)
      have hy' := (hc.below_apart h hbsize hbc hcb).mp hy
      rw [label_congr (hc.slot?_apart h hbsize hbc hcb hy')]
      exact hbefore b hb y hy'

end Framed

/-! ## Changes below several children -/

/-- **Frame for siblings**: changes below some children of a node, one after the other. The node
itself and everything below its other children are as before. -/
structure FramedAll (n : Nat) (ids : List NodeId) (arena other : Arena) : Prop where
  framed : Framed n arena other
  slot_eq : other.slot? n = arena.slot? n
  apart : ∀ c ∈ arena.children n, c ∉ ids → ∀ x, arena.Below c x →
    other.Below c x ∧ other.slot? x = arena.slot? x

namespace FramedAll

variable {ids : List NodeId}

theorem refl (n : Nat) (ids : List NodeId) (arena : Arena) : FramedAll n ids arena arena :=
  ⟨.refl n arena, rfl, fun _ _ _ _ hx => ⟨hx, rfl⟩⟩

theorem children_eq (h : FramedAll n ids arena other) : other.children n = arena.children n :=
  children_congr h.slot_eq

/-- The stack of expansions below a child that is not among these is the one that was read before. -/
theorem expansionsWithin_eq (h : FramedAll n ids arena other) (hc : c ∈ arena.children n)
    (hnot : c ∉ ids) (depth : Nat) :
    other.expansionsWithin depth c = arena.expansionsWithin depth c := by
  have hslot : ∀ x, arena.Below c x → other.slot? x = arena.slot? x := fun x hx =>
    (h.apart c hc hnot x hx).2
  exact expansionsWithin_congr depth (fun x hx => by rw [label_congr (hslot x hx)])
    fun x hx => children_congr (hslot x hx)

/-- One child. -/
theorem single (h : arena.Ascending) (hc : c ∈ arena.children n) (hframed : Framed c arena other) :
    FramedAll n [c] arena other := by
  have hn := lt_size_of_mem_children hc
  refine ⟨hframed.of_below h (.of_mem hc) hn, hframed.slot?_above h (h.lt_child n c hc) hn, ?_⟩
  intro d hd hnot x hx
  have hne : d ≠ c := fun heq => hnot (heq ▸ List.mem_singleton_self c)
  have hsize := h.child_lt n d hd
  -- neither sibling is below the other one
  have hdc : ¬arena.Below d c := fun hb => h.siblings_disjoint hc hd hne.symm (.refl c) hb
  have hcd : ¬arena.Below c d := fun hb => h.siblings_disjoint hd hc hne (.refl d) hb
  exact ⟨(hframed.below_apart h hsize hdc hcd).mpr hx, hframed.slot?_apart h hsize hdc hcd hx⟩

/-- Some children, and then others. -/
theorem trans {ids' : List NodeId} (h : FramedAll n ids arena other)
    (h' : FramedAll n ids' other last) : FramedAll n (ids ++ ids') arena last := by
  refine ⟨h.framed.trans h'.framed, h'.slot_eq.trans h.slot_eq, ?_⟩
  intro c hc hnot x hx
  obtain ⟨hbelow, hslot⟩ := h.apart c hc (fun hmem => hnot (List.mem_append_left ids' hmem)) x hx
  obtain ⟨hbelow', hslot'⟩ := h'.apart c (by rw [h.children_eq]; exact hc)
    (fun hmem => hnot (List.mem_append_right ids hmem)) x hbelow
  exact ⟨hbelow', hslot'.trans hslot⟩

/-- Only which children are listed matters. -/
theorem mono {ids' : List NodeId} (h : FramedAll n ids arena other) (hmem : ∀ c ∈ ids, c ∈ ids') :
    FramedAll n ids' arena other :=
  ⟨h.framed, h.slot_eq, fun c hc hnot => h.apart c hc fun hin => hnot (hmem c hin)⟩

end FramedAll

/-! ## The operations -/

namespace Framed

/-- A pushed node is below nothing. -/
theorem push (n : Nat) (arena : Arena) (label : Label) : Framed n arena (arena.push label).1 where
  size_le := by simp
  outside := fun i hi _ => slot?_push_of_lt label hi
  inside := by
    intro i hbelow
    refine .inl (hbelow.mono ?_)
    intro a b hb
    rwa [children_push] at hb

/-- If child edges are the same and only slots below a node have changed, the change is below it. -/
theorem of_children (hsize : other.size = arena.size)
    (hchildren : ∀ i, other.children i = arena.children i)
    (houtside : ∀ i : Nat, i < arena.size → ¬arena.Below n i → other.slot? i = arena.slot? i) :
    Framed n arena other where
  size_le := Nat.le_of_eq hsize.symm
  outside := houtside
  inside := by
    intro i hbelow
    refine .inl (hbelow.mono ?_)
    intro a b hb
    rwa [hchildren] at hb

/-- A changed label. -/
theorem modifyLabel (arena : Arena) (n : Nat) (change : Label → Label) :
    Framed n arena (arena.modifyLabel n change) := by
  refine of_children (size_modifyLabel ..) (children_modifyLabel change n) ?_
  intro i _ hnot
  refine slot?_modifyLabel_of_ne change ?_
  rintro rfl
  exact hnot (.refl i)

variable (h : arena.Ascending)

include h

/-- Replacement by a node with which nothing moves in from elsewhere. -/
theorem replace {target source : Nat} (htarget : target < arena.size)
    (hsource : arena.Below target source ∨
      arena.size ≤ source ∨ arena.slot? source = some { label := arena.label source }) :
    Framed target arena (arena.replace target source) := by
  by_cases hne : target = source
  · rw [← hne, replace_self]
  by_cases hlt : arena.size ≤ source
  · rw [replace_of_size_le hlt]
  have hlt : source < arena.size := Nat.lt_of_not_le hlt
  have hloop := h.not_mem_children_self source
  have hslot := slot?_replace hne hlt hloop
  have hchildren := children_replace hne htarget hlt hloop
  -- the children of the source are below the target already, or there are none
  have hinner : ∀ i ∈ arena.children source, arena.Below target i := by
    intro i hi
    rcases hsource with hbelow | hge | hloose
    · exact hbelow.tail hi
    · omega
    · rw [children_of_slot? hloose] at hi
      exact absurd hi (by simp)
  constructor
  · simp
  · intro i _ hnot
    rw [hslot]
    by_cases hs : i = source
    · subst hs
      rcases hsource with hbelow | hge | hloose
      · exact absurd hbelow hnot
      · omega
      · rw [if_pos rfl, hloose]
        rfl
    · rw [if_neg hs, if_neg, if_neg]
      · exact fun hi => hnot (hinner i hi)
      · rintro rfl
        exact hnot (.refl i)
  · intro i hbelow
    refine .inl ?_
    induction hbelow with
    | refl => rfl
    | @tail y x _ hstep ih =>
      rw [hchildren] at hstep
      split at hstep
      · exact absurd hstep (by simp)
      · split at hstep
        · exact hinner x hstep
        · exact ih.tail hstep

omit h in
/-- A node that was just pushed becomes a child. -/
theorem push_setChild {parent : Nat} (index : Nat) (label : Label) (hparent : parent < arena.size) :
    Framed parent arena ((arena.push label).1.setChild parent index arena.size) := by
  constructor
  · simp
  · intro i hi hnot
    rw [slot?_setChild _ _ _ _ _ (Nat.ne_of_lt hparent), if_neg, if_neg (Nat.ne_of_lt hi),
      slot?_push_of_lt label hi]
    rintro rfl
    exact hnot (.refl i)
  · intro i hbelow
    suffices hall : ∀ a, ((arena.push label).1.setChild parent index arena.size).Below a i →
        arena.Below a i ∨ arena.size ≤ i from hall parent hbelow
    intro a hbelow
    induction hbelow using Relation.ReflTransGen.head_induction_on with
    | refl => exact .inl (.refl i)
    | @head a y hstep hrest ih =>
      rcases mem_children_setChild (by rw [size_push]; omega) hstep with hstep | ⟨-, rfl⟩
      · rw [children_push] at hstep
        exact ih.imp_left (.of_child hstep)
      · have hi := Below.eq_of_childless hrest (children_push_setChild_size label hparent)
        exact .inr (Nat.le_of_eq hi.symm)

end Framed

end LinkedSearch.Query.Arena
