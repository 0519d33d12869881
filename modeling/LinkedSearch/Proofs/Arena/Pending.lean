import LinkedSearch.Proofs.Arena.Frame
import LinkedSearch.Proofs.Arena.Tracing

/-! # Pending expansions

The expansions in an expansion are listed once, and resolved from the last one to the first. Meanwhile
the arena changes, and an expansion on the list may be gone before it is its turn. It is not if the
arena has no crossing:

* `Arena.Precedes`: document order.
* `Arena.Crossing`, `Arena.Uncrossed`: a parent scope with an expansion in it stands before another
  expansion of the same list.
* `Rewrites.uncrossed`: rewriting an arena crosses nothing.
* `Arena.crossingFree`: a check for crossings.
* `Arena.Pending`: what is known about the rest of a list. It stays true while the last expansion of it
  is being resolved (`Pending.framed`). -/

namespace LinkedSearch.Query.Arena

variable {arena other : Arena} {a b c c' e n v w x y z : NodeId}

/-! ## Document order -/

/-- **Document order** below a node: one node is above the other, or they lie below two children of the
same node, the first one further to the left. -/
def Precedes (arena : Arena) (n a b : NodeId) : Prop :=
  (a ≠ b ∧ arena.Below a b) ∨
    ∃ v c c', arena.Below n v ∧ [c, c'].Sublist (arena.children v) ∧ arena.Below c a ∧
      arena.Below c' b

/-- Two nodes in the order of some children are different ones of them. -/
theorem Ascending.of_sublist_children (h : arena.Ascending)
    (hsub : [c, c'].Sublist (arena.children v)) :
    c ∈ arena.children v ∧ c' ∈ arena.children v ∧ c ≠ c' := by
  have hnodup := (h.nodup_children v).sublist hsub
  refine ⟨hsub.subset (by simp), hsub.subset (by simp), ?_⟩
  simpa using hnodup

/-- What precedes a node does not lie below it. -/
theorem Precedes.not_below (h : arena.Precedes n a b) (hasc : arena.Ascending) :
    ¬arena.Below b a := by
  intro hba
  rcases h with ⟨hne, hab⟩ | ⟨v, c, c', -, hsub, hca, hcb⟩
  · have hle := hasc.le_of_below hab
    have hge := hasc.le_of_below hba
    exact hne (Nat.le_antisymm hle hge)
  · obtain ⟨hc, hc', hne⟩ := hasc.of_sublist_children hsub
    exact hasc.siblings_disjoint hc hc' hne hca (hcb.trans hba)

/-- A path is still there if no edge above its end has changed. -/
theorem Below.congr_above (h : arena.Below a b)
    (hchildren : ∀ x, arena.Below x b → x ≠ b → other.children x = arena.children x)
    (hasc : arena.Ascending) : other.Below a b := by
  induction h with
  | refl => rfl
  | @tail y b hay hstep ih =>
    have hyb := hasc.lt_child y b hstep
    refine (ih fun x hx hne => hchildren x (hx.tail hstep) ?_).tail ?_
    · exact Nat.ne_of_lt (Nat.lt_of_le_of_lt (hasc.le_of_below hx) hyb)
    · rwa [hchildren y (.of_mem hstep) (Nat.ne_of_lt hyb)]

/-! ## Crossings -/

/-- **Crossing**: in an expansion `e`, a parent scope `w` with an expansion `x` in it stands before
another expansion `y`. -/
structure Crossing (arena : Arena) (e v c c' w x y : NodeId) : Prop where
  isExpansion : (arena.label e).kind.isExpansion = true
  below : arena.Below e v
  siblings : [c, c'].Sublist (arena.children v)
  scope : arena.Below c w ∧ (arena.label w).kind.isParent = true
  first : arena.Below w x ∧ (arena.label x).kind.isExpansion = true
  second : arena.Below c' y ∧ (arena.label y).kind.isExpansion = true

/-- **Uncrossed** arenas have no crossing. -/
def Uncrossed (arena : Arena) : Prop :=
  ∀ e v c c' w x y, ¬arena.Crossing e v c c' w x y

/-- A change after which every crossing was there before. -/
theorem Uncrossed.of_change (h : arena.Uncrossed) (hasc : arena.Ascending)
    (hremaining : ∀ n, (other.label n).kind.isExpansion = true →
      (arena.label n).kind.isExpansion = true)
    (hedges : ∀ a b, b ∈ other.children a → b < arena.size → arena.Below a b)
    (hscope : ∀ w x, (other.label w).kind.isParent = true → other.Below w x →
      (other.label x).kind.isExpansion = true → (arena.label w).kind.isParent = true)
    (hsiblings : ∀ v c c' x, [c, c'].Sublist (other.children v) → c < arena.size →
      c' < arena.size → other.Below c x → (other.label x).kind.isExpansion = true →
      [c, c'].Sublist (arena.children v)) : other.Uncrossed := by
  -- paths to nodes from before are paths from before
  have hbelow : ∀ {a b}, other.Below a b → b < arena.size → arena.Below a b := by
    intro a b hab
    induction hab with
    | refl => exact fun _ => .refl _
    | @tail y b _ hstep ih =>
      intro hb
      have hyb := hedges y b hstep hb
      have hle := hasc.le_of_below hyb
      exact (ih (Nat.lt_of_le_of_lt hle hb)).trans hyb
  have hexists : ∀ {a b}, other.Below a b → b < arena.size → a < arena.size := fun hab hb =>
    Nat.lt_of_le_of_lt (hasc.le_of_below (hbelow hab hb)) hb
  intro e v c c' w x y hcross
  -- all that a crossing consists of is read off from its two expansions, which existed before
  have hx := lt_size_of_isExpansion (hremaining x hcross.first.2)
  have hy := lt_size_of_isExpansion (hremaining y hcross.second.2)
  have hw := hexists hcross.first.1 hx
  have hc := hexists hcross.scope.1 hw
  have hc' := hexists hcross.second.1 hy
  have hold := hsiblings v c c' x hcross.siblings hc hc' (hcross.scope.1.trans hcross.first.1)
    hcross.first.2
  have hv := lt_size_of_mem_children (hold.subset (by simp : c ∈ [c, c']))
  exact h e v c c' w x y {
    isExpansion := hremaining e hcross.isExpansion
    below := hbelow hcross.below hv
    siblings := hold
    scope := ⟨hbelow hcross.scope.1 hw,
      hscope w x hcross.scope.2 hcross.first.1 hcross.first.2⟩
    first := ⟨hbelow hcross.first.1 hx, hremaining x hcross.first.2⟩
    second := ⟨hbelow hcross.second.1 hy, hremaining y hcross.second.2⟩ }

theorem Uncrossed.push (h : arena.Uncrossed) (hasc : arena.Ascending) {label : Label}
    (hlabel : label.kind.isExpansion = false) : (arena.push label).1.Uncrossed := by
  have hremaining := (pruned_push hasc hlabel).remaining
  refine h.of_change hasc hremaining ?_ ?_ ?_
  · intro a b hb _
    rw [children_push] at hb
    exact .of_mem hb
  · intro w x hw hbelow hx
    have hxlt := lt_size_of_isExpansion (hremaining x hx)
    have hle := (hasc.push label).le_of_below hbelow
    rwa [label_push_of_lt label (Nat.lt_of_le_of_lt hle hxlt)] at hw
  · intro v c c' x hsub _ _ _ _
    rwa [children_push] at hsub

theorem Uncrossed.stripName (h : arena.Uncrossed) (hasc : arena.Ascending)
    (he : (arena.label e).kind.isExpansion = true) (name : String) :
    (arena.stripName e name).Uncrossed := by
  obtain ⟨-, hkind, hchildren, -⟩ := arena.stripName_spec e name
  refine h.of_change hasc (pruned_stripName hasc he name).remaining ?_ ?_ ?_
  · intro a b hb _
    rw [hchildren] at hb
    exact .of_mem hb
  · intro w x hw _ _
    rwa [hkind] at hw
  · intro v c c' x hsub _ _ _ _
    rwa [hchildren] at hsub

/-- A new query comes before all other children of its expansion, and nothing is below it. -/
theorem sublist_children_requeried {label : Label} (helt : e < arena.size)
    (hsub : [c, c'].Sublist (((arena.push label).1.setChild e 0 arena.size).children v))
    (hc : c < arena.size) : [c, c'].Sublist (arena.children v) := by
  rw [children_setChild _ _ _ _ _ (by rw [size_push]; exact Nat.lt_succ_of_lt helt),
    children_push] at hsub
  split at hsub
  · next heq =>
    cases hold : arena.children v with
    | nil =>
      rw [hold] at hsub
      exact absurd hsub.length_le (by simp)
    | cons first rest =>
      rw [hold] at hsub
      simp only [List.length_cons, Nat.zero_lt_succ, if_true, List.set_cons_zero] at hsub
      rcases List.cons_sublist_cons'.mp hsub with hsub | ⟨heq, -⟩
      · exact hsub.cons first
      · exact absurd heq (Nat.ne_of_lt hc)
  · exact hsub

theorem Uncrossed.requeried (h : arena.Uncrossed) (hasc : arena.Ascending) {label : Label}
    (he : (arena.label e).kind.isExpansion = true) (hlabel : label.kind.isExpansion = false) :
    ((arena.push label).1.setChild e 0 arena.size).Uncrossed := by
  have hpruned := pruned_requeried hasc he hlabel
  have helt := lt_size_of_isExpansion he
  refine h.of_change hasc hpruned.remaining ?_ ?_ fun v c c' x hsub hc _ _ _ =>
    sublist_children_requeried helt hsub hc
  · exact fun a b hb hlt => .of_mem (mem_children_push_setChild label helt hb hlt)
  · intro w x hw hbelow hx
    have hxlt := lt_size_of_isExpansion (hpruned.remaining x hx)
    have hle := hpruned.ascending.le_of_below hbelow
    rwa [label_push_setChild label (Nat.lt_of_le_of_lt hle hxlt)] at hw

theorem Uncrossed.substituted (h : arena.Uncrossed) (hasc : arena.Ascending)
    (he : (arena.label e).kind.isExpansion = true) (hv : arena.Replaces e v) (boost : Boost)
    (hbare : arena.Bare v) : (Compile.substituted arena e v boost).Uncrossed := by
  have hremaining := (pruned_substituted hasc he hv boost hbare).remaining
  have hleft := bare_substituted hasc he hv boost hbare
  have hchild := fun {i c} => mem_children_substituted (i := i) (c := c) hasc he hv boost
  refine h.of_change hasc hremaining ?_ ?_ ?_
  · exact fun a b hb _ => below_substituted hasc he hv boost (.of_mem hb)
  · intro w x hw hwx hx
    rw [kind_substituted hasc he hv] at hw
    split at hw
    · next heq =>
      subst heq
      rw [hleft x hwx] at hx
      exact absurd hx (by simp)
    · exact hw
  · intro u i i' x hsub _ _ hix hx
    have hmem : i ∈ (Compile.substituted arena e v boost).children u := hsub.subset (by simp)
    obtain ⟨huv, ⟨rfl, -⟩ | ⟨hue, -⟩⟩ := hchild hmem
    · rw [hleft x (.of_child hmem hix)] at hx
      exact absurd hx (by simp)
    · rwa [children_substituted hasc he hv, if_neg huv, if_neg hue] at hsub

/-- **Every step leaves an uncrossed arena uncrossed.** -/
theorem Rewrite.uncrossed (hstep : arena.Rewrite other) (hasc : arena.Ascending)
    (h : arena.Uncrossed) : other.Uncrossed := by
  cases hstep with
  | push label hlabel => exact h.push hasc hlabel
  | strip e name he => exact h.stripName hasc he name
  | requery e label he hlabel => exact h.requeried hasc he hlabel
  | resolve e v boost he hv hbare => exact h.substituted hasc he hv boost hbare

/-- **Rewriting crosses nothing.** -/
theorem Rewrites.uncrossed (h : arena.Rewrites other) (hasc : arena.Ascending)
    (huncrossed : arena.Uncrossed) : other.Uncrossed := by
  induction h with
  | refl => exact huncrossed
  | tail hprev hstep ih => exact hstep.uncrossed (Rewrites.pruned hprev hasc).ascending ih

/-- Whether there is an expansion at or below a node. -/
def holdsExpansion (arena : Arena) (n : NodeId) : Bool :=
  (arena.descendants n).any fun x => (arena.label x).kind.isExpansion

/-- Whether there is a parent scope with an expansion in it at or below a node. -/
def holdsScopedExpansion (arena : Arena) (n : NodeId) : Bool :=
  (arena.descendants n).any fun w => (arena.label w).kind.isParent && arena.holdsExpansion w

/-- **A check for crossings**: wherever nodes lie side by side in an expansion, none that comes after a
scoped expansion holds an expansion. -/
def crossingFree (arena : Arena) : Bool :=
  (List.range arena.size).all fun e => !(arena.label e).kind.isExpansion ||
    (arena.descendants e).all fun v => decide ((arena.children v).Pairwise fun c c' =>
      ¬(arena.holdsScopedExpansion c = true ∧ arena.holdsExpansion c' = true))

/-- The check finds every crossing, and nothing else. -/
theorem Ascending.uncrossed_iff (h : arena.Ascending) :
    arena.Uncrossed ↔ arena.crossingFree = true := by
  have hexpansion : ∀ n, arena.holdsExpansion n = true ↔
      ∃ x, arena.Below n x ∧ (arena.label x).kind.isExpansion = true := by
    simp [holdsExpansion, h.mem_descendants]
  have hscoped : ∀ n, arena.holdsScopedExpansion n = true ↔ ∃ w, arena.Below n w ∧
      (arena.label w).kind.isParent = true ∧
        ∃ x, arena.Below w x ∧ (arena.label x).kind.isExpansion = true := by
    simp [holdsScopedExpansion, h.mem_descendants, hexpansion]
  have hfree : arena.crossingFree = true ↔ ∀ e < arena.size, (arena.label e).kind.isExpansion = true →
      ∀ v, arena.Below e v → ∀ {c c'}, [c, c'].Sublist (arena.children v) →
        ¬(arena.holdsScopedExpansion c = true ∧ arena.holdsExpansion c' = true) := by
    simp only [crossingFree, List.all_eq_true, List.mem_range, Bool.or_eq_true, Bool.not_eq_true',
      h.mem_descendants, decide_eq_true_eq, List.pairwise_iff_forall_sublist]
    refine forall₂_congr fun e _ => ?_
    cases (arena.label e).kind.isExpansion <;> simp
  rw [hfree]
  constructor
  · rintro huncrossed e - he v hv c c' hsub ⟨hc, hc'⟩
    obtain ⟨w, hcw, hw, x, hwx, hx⟩ := (hscoped c).mp hc
    obtain ⟨y, hcy, hy⟩ := (hexpansion c').mp hc'
    exact huncrossed e v c c' w x y ⟨he, hv, hsub, ⟨hcw, hw⟩, ⟨hwx, hx⟩, ⟨hcy, hy⟩⟩
  · intro hall e v c c' w x y hcross
    exact hall e (lt_size_of_isExpansion hcross.isExpansion) hcross.isExpansion v hcross.below
      hcross.siblings ⟨(hscoped c).mpr ⟨w, hcross.scope.1, hcross.scope.2, x, hcross.first⟩,
        (hexpansion c').mpr ⟨y, hcross.second⟩⟩

/-! ## Pending expansions -/

/-- **Pending**: some nodes below an expansion are expansions themselves and in document order, the
first of them the expansion itself. -/
structure Pending (arena : Arena) (n : NodeId) (ids : List NodeId) : Prop where
  head_eq : ∀ z ∈ ids.head?, z = n
  isExpansion : ∀ z ∈ ids, (arena.label z).kind.isExpansion = true
  below : ∀ z ∈ ids, arena.Below n z
  ordered : ids.Pairwise (arena.Precedes n)

/-- The expansions at most some levels below a node lie below it. -/
theorem below_of_mem_expansionsWithin (depth : Nat) {n : NodeId}
    (h : z ∈ arena.expansionsWithin depth n) :
    arena.Below n z ∧ (arena.label z).kind.isExpansion = true :=
  (open_of_mem_expansionsWithin depth h).imp_left Open.below

/-- Expansions are listed in document order. -/
theorem Ascending.pairwise_expansionsWithin (h : arena.Ascending) (depth : Nat) {m : NodeId}
    (hm : arena.Below n m) : (arena.expansionsWithin depth m).Pairwise (arena.Precedes n) := by
  induction depth generalizing m with
  | zero =>
    rw [expansionsWithin]
    split <;> simp
  | succ depth ih =>
    rw [expansionsWithin]
    split
    · cases hc : arena.child? m 0 with
      | none => simp
      | some c =>
        have hmem := List.mem_of_getElem? hc
        refine List.pairwise_cons.mpr ⟨fun z hz => .inl ⟨?_, ?_⟩, ih (hm.tail hmem)⟩
        · exact Nat.ne_of_lt (Nat.lt_of_lt_of_le (h.lt_child m c hmem)
            (h.le_of_below (below_of_mem_expansionsWithin depth hz).1))
        · exact .of_child hmem (below_of_mem_expansionsWithin depth hz).1
    · refine List.pairwise_flatMap.mpr ⟨fun c hc => ih (hm.tail hc), ?_⟩
      refine List.pairwise_iff_forall_sublist.mpr fun {c c'} hsub x hx y hy => ?_
      exact .inr ⟨m, c, c', hm, hsub, (below_of_mem_expansionsWithin depth hx).1,
        (below_of_mem_expansionsWithin depth hy).1⟩

namespace Pending

variable {ids : List NodeId}

/-- The expansions in an expansion are pending at first. -/
theorem of_expansions (hasc : arena.Ascending) (hn : (arena.label n).kind.isExpansion = true) :
    arena.Pending n (arena.expansions n) where
  head_eq := by
    intro z hz
    have hsize := lt_size_of_isExpansion hn
    unfold expansions at hz
    obtain ⟨depth, hdepth⟩ : ∃ depth, arena.size = depth + 1 := ⟨arena.size - 1, by omega⟩
    rw [hdepth, expansionsWithin, if_pos hn] at hz
    exact (Option.some.inj hz).symm
  isExpansion := fun _ hz => (below_of_mem_expansionsWithin _ hz).2
  below := fun _ hz => (below_of_mem_expansionsWithin _ hz).1
  ordered := hasc.pairwise_expansionsWithin _ (.refl n)

/-- The list without its last expansions. -/
theorem initial {later : List NodeId} (h : arena.Pending n (ids ++ later)) : arena.Pending n ids where
  head_eq := by
    intro z hz
    refine h.head_eq z ?_
    cases ids with
    | nil => exact absurd hz (by simp)
    | cons first rest => exact hz
  isExpansion := fun z hz => h.isExpansion z (List.mem_append_left _ hz)
  below := fun z hz => h.below z (List.mem_append_left _ hz)
  ordered := (List.pairwise_append.mp h.ordered).1

/-- Nothing on the list lies below the last expansion. -/
theorem not_below_last (h : arena.Pending n (ids ++ [y])) (hasc : arena.Ascending) (hz : z ∈ ids) :
    ¬arena.Below y z :=
  ((List.pairwise_append.mp h.ordered).2.2 z hz y (by simp)).not_below hasc

/-- **What is pending stays pending** if no edge above it changes. -/
theorem congr (h : arena.Pending n ids) (hasc : arena.Ascending)
    (hexpansion : ∀ z ∈ ids, (other.label z).kind.isExpansion = true)
    (hchildren : ∀ z ∈ ids, ∀ x, arena.Below x z → x ≠ z →
      other.children x = arena.children x) : other.Pending n ids where
  head_eq := h.head_eq
  isExpansion := hexpansion
  below := fun z hz => (h.below z hz).congr_above (hchildren z hz) hasc
  ordered := by
    refine h.ordered.imp_of_mem fun {a b} ha hb hab => ?_
    have habove : ∀ z ∈ ids, ∀ x, arena.Below x z → ∀ i, arena.Below i x → other.Below i x := by
      intro z hz x hxz i hix
      refine hix.congr_above (fun j hjx hne => ?_) hasc
      refine hchildren z hz j (hjx.trans hxz) (Nat.ne_of_lt ?_)
      exact Nat.lt_of_lt_of_le (Nat.lt_of_le_of_ne (hasc.le_of_below hjx) hne) (hasc.le_of_below hxz)
    rcases hab with ⟨hne, hbelow⟩ | ⟨v, c, c', hv, hsub, hca, hcb⟩
    · exact .inl ⟨hne, habove b hb b (.refl b) a hbelow⟩
    · obtain ⟨hc, -, -⟩ := hasc.of_sublist_children hsub
      have hva : arena.Below v a := .of_child hc hca
      refine .inr ⟨v, c, c', habove a ha v hva n hv, ?_, habove a ha a (.refl a) c hca,
        habove b hb b (.refl b) c' hcb⟩
      rwa [hchildren a ha v hva (Nat.ne_of_lt (Nat.lt_of_lt_of_le (hasc.lt_child v c hc)
        (hasc.le_of_below hca)))]

/-- **No parent scope** holds an expansion on the list if it does not hold the last one. -/
theorem not_below_scope (h : arena.Pending n (ids ++ [y])) (hasc : arena.Ascending)
    (huncrossed : arena.Uncrossed) (hw : (arena.label w).kind.isParent = true)
    (hwy : ¬arena.Below w y) (hz : z ∈ ids ++ [y]) : ¬arena.Below w z := by
  intro hwz
  rcases List.mem_append.mp hz with hz | hz
  · rcases (List.pairwise_append.mp h.ordered).2.2 z hz y (by simp) with
      ⟨-, hzy⟩ | ⟨v, c, c', hv, hsub, hcz, hcy⟩
    · exact hwy (hwz.trans hzy)
    · obtain ⟨hc, hc', -⟩ := hasc.of_sublist_children hsub
      have hn : (arena.label n).kind.isExpansion = true := by
        cases ids with
        | nil => exact absurd hz (by simp)
        | cons first rest =>
          rw [← h.head_eq first rfl]
          exact h.isExpansion first (by simp)
      -- the scope lies below the first child, or above both of them
      by_cases hcw : arena.Below c w
      · exact huncrossed n v c c' w z y ⟨hn, hv, hsub, ⟨hcw, hw⟩,
          ⟨hwz, h.isExpansion z (List.mem_append_left _ hz)⟩, ⟨hcy, h.isExpansion y (by simp)⟩⟩
      · have hwc := (hasc.linear hwz hcz).resolve_right hcw
        have hwv := hasc.below_parent hwc hc fun heq => hcw (heq ▸ .refl _)
        exact hwy ((hwv.tail hc').trans hcy)
  · rw [List.mem_singleton.mp hz] at hwz
    exact hwy hwz

/-- A change below a node that nothing on the list is below of. -/
theorem framed (h : arena.Pending n ids) (hasc : arena.Ascending)
    (hframed : Framed w arena other) (hids : ∀ z ∈ ids, ¬arena.Below w z) : other.Pending n ids := by
  have hslot : ∀ z ∈ ids, ∀ x, arena.Below x z → other.slot? x = arena.slot? x := by
    intro z hz x hx
    have hzlt := lt_size_of_isExpansion (h.isExpansion z hz)
    have hle := hasc.le_of_below hx
    exact hframed.outside x (Nat.lt_of_le_of_lt hle hzlt) fun hwx => hids z hz (hwx.trans hx)
  refine h.congr hasc (fun z hz => ?_) fun z hz x hx _ => children_congr (hslot z hz x hx)
  rw [label_congr (hslot z hz z (.refl z))]
  exact h.isExpansion z hz

end Pending

end LinkedSearch.Query.Arena
