import LinkedSearch.Proofs.Arena.Rewriting

/-! # Tracing nodes through a rewriting

Rewriting an arena moves nodes, but only upwards: what is below a node afterwards was below it before.
An expansion that is still unresolved can be traced in both directions, as long as it is reached
through the queries of expansions only.

* `Arena.Open`: paths on which an expansion is followed by its query.
* `Arena.Traced`: what is known about paths before and after.
* `Rewrites.traced`: rewriting an arena leaves its paths traced. -/

namespace LinkedSearch.Query.Arena

variable {arena other last : Arena} {a b c e n v x y : Nat}

/-! ## Open paths -/

/-- An edge that is followed when expansions are looked for. -/
def OpenEdge (arena : Arena) (parent child : NodeId) : Prop :=
  child ∈ arena.children parent ∧
    ((arena.label parent).kind.isExpansion = true → arena.child? parent 0 = some child)

/-- **Open paths** follow such edges, so that expansions are found on them. -/
def Open (arena : Arena) : NodeId → NodeId → Prop := Relation.ReflTransGen arena.OpenEdge

namespace Open

@[refl] theorem refl (n : NodeId) : arena.Open n n := Relation.ReflTransGen.refl

theorem trans (hab : arena.Open a b) (hbc : arena.Open b c) : arena.Open a c :=
  Relation.ReflTransGen.trans hab hbc

theorem below (h : arena.Open a x) : arena.Below a x :=
  Relation.ReflTransGen.mono (fun _ _ hedge => hedge.1) a x h

/-- The children of a node that is no expansion are open to it. -/
theorem of_child (hkind : (arena.label n).kind.isExpansion = false) (hc : c ∈ arena.children n)
    (h : arena.Open c x) : arena.Open n x := by
  refine Relation.ReflTransGen.head ⟨hc, fun he => ?_⟩ h
  rw [hkind] at he
  exact absurd he (by simp)

/-- The query of a node is open to it. -/
theorem of_query (hc : arena.child? n 0 = some c) (h : arena.Open c x) : arena.Open n x :=
  Relation.ReflTransGen.head ⟨List.mem_of_getElem? hc, fun _ => hc⟩ h

/-- The end of an open path is open from every node on it. -/
theorem suffix (h : arena.Ascending) (hopen : arena.Open a x) (hab : arena.Below a b)
    (hbx : arena.Below b x) : arena.Open b x := by
  induction hopen with
  | refl =>
    have heq : a = b := Nat.le_antisymm (h.le_of_below hab) (h.le_of_below hbx)
    rw [heq]
  | @tail y x _ hstep ih =>
    by_cases heq : b = x
    · rw [heq]
    · exact (ih (h.below_parent hbx hstep.1 heq)).tail hstep

end Open

/-- The expansions at most some levels below a node are open to it. -/
theorem open_of_mem_expansionsWithin (depth : Nat) (h : x ∈ arena.expansionsWithin depth n) :
    arena.Open n x ∧ (arena.label x).kind.isExpansion = true := by
  induction depth generalizing n with
  | zero =>
    rw [expansionsWithin] at h
    split at h
    · next hkind => rw [List.mem_singleton.mp h]; exact ⟨.refl n, hkind⟩
    · exact absurd h (by simp)
  | succ depth ih =>
    rw [expansionsWithin] at h
    split at h
    · next hkind =>
      rcases List.mem_cons.mp h with rfl | h
      · exact ⟨.refl _, hkind⟩
      · cases hc : arena.child? n 0 with
        | none => rw [hc] at h; exact absurd h (by simp)
        | some c =>
          rw [hc] at h
          exact (ih h).imp_left (.of_query hc)
    · next hkind =>
      obtain ⟨c, hc, h⟩ := List.mem_flatMap.mp h
      exact (ih h).imp_left (.of_child (eq_false_of_ne_true hkind) hc)

/-! ## Traced paths -/

/-- **Tracing**: what is below a node was below it before, and unresolved expansions are open to the
same nodes as before. -/
structure Traced (arena other : Arena) : Prop where
  size_le : arena.size ≤ other.size
  remaining : ∀ x, (other.label x).kind.isExpansion = true → (arena.label x).kind.isExpansion = true
  below : ∀ a x : Nat, x < arena.size → other.Below a x → arena.Below a x
  open_before : ∀ a x : Nat, (other.label x).kind.isExpansion = true → other.Open a x →
    arena.Open a x
  open_after : ∀ a x : Nat, (other.label x).kind.isExpansion = true → arena.Open a x →
    other.Open a x

namespace Traced

@[refl] theorem refl (arena : Arena) : arena.Traced arena :=
  ⟨Nat.le_refl _, fun _ => id, fun _ _ _ => id, fun _ _ _ => id, fun _ _ _ => id⟩

theorem trans (h : arena.Traced other) (h' : other.Traced last) : arena.Traced last where
  size_le := Nat.le_trans h.size_le h'.size_le
  remaining := fun x hx => h.remaining x (h'.remaining x hx)
  below := fun a x hx hbelow =>
    h.below a x hx (h'.below a x (Nat.lt_of_lt_of_le hx h.size_le) hbelow)
  open_before := fun a x hx hopen =>
    h.open_before a x (h'.remaining x hx) (h'.open_before a x hx hopen)
  open_after := fun a x hx hopen =>
    h'.open_after a x hx (h.open_after a x (h'.remaining x hx) hopen)

/-- Paths are traced if their edges are. -/
theorem of_edges (hasc : other.Ascending) (hsize : arena.size ≤ other.size)
    (hremaining : ∀ x, (other.label x).kind.isExpansion = true →
      (arena.label x).kind.isExpansion = true)
    (hbelow : ∀ y c : Nat, c < arena.size → c ∈ other.children y → arena.Below y c)
    (hbefore : ∀ y c x : Nat, (other.label x).kind.isExpansion = true → other.OpenEdge y c →
      other.Below c x → arena.Open y c)
    (hafter : ∀ y c x : Nat, (other.label x).kind.isExpansion = true → arena.OpenEdge y c →
      arena.Below c x → other.OpenEdge y c) : arena.Traced other where
  size_le := hsize
  remaining := hremaining
  below := by
    intro a x hx hpath
    induction hpath with
    | refl => rfl
    | @tail y x _ hstep ih =>
      exact (ih (Nat.lt_trans (hasc.lt_child y x hstep) hx)).trans (hbelow y x hx hstep)
  open_before := by
    intro a x hx hopen
    induction hopen using Relation.ReflTransGen.head_induction_on with
    | refl => rfl
    | head hstep hrest ih => exact (hbefore _ _ x hx hstep (Open.below hrest)).trans ih
  open_after := by
    intro a x hx hopen
    induction hopen using Relation.ReflTransGen.head_induction_on with
    | refl => rfl
    | head hstep hrest ih =>
      exact Relation.ReflTransGen.head (hafter _ _ x hx hstep (Open.below hrest)) ih

/-- Paths are the same where labels keep their kinds and no edge changes. -/
theorem of_same (hasc : other.Ascending) (hsize : arena.size ≤ other.size)
    (hkind : ∀ n : Nat, n < arena.size → (other.label n).kind = (arena.label n).kind)
    (hnew : ∀ n : Nat, arena.size ≤ n → (other.label n).kind.isExpansion = false)
    (hchildren : ∀ n : Nat, other.children n = arena.children n) : arena.Traced other := by
  have hremaining : ∀ n, (other.label n).kind.isExpansion = true →
      (arena.label n).kind.isExpansion = true := fun _ => isExpansion_of_kinds hkind hnew
  have hedge : ∀ y c, other.OpenEdge y c ↔ arena.OpenEdge y c := by
    intro y c
    rw [OpenEdge, OpenEdge, child?, child?, hchildren]
    refine and_congr_right fun hc => ?_
    rw [hkind y (lt_size_of_mem_children hc)]
  refine of_edges hasc hsize hremaining ?_ ?_ ?_
  · intro y c _ hc
    rw [hchildren] at hc
    exact .of_mem hc
  · exact fun y c x _ hstep _ => Relation.ReflTransGen.single ((hedge y c).mp hstep)
  · exact fun y c x _ hstep _ => (hedge y c).mpr hstep

end Traced

/-! ## What each kind of step leaves of paths -/

theorem traced_push {label : Label} (hasc : arena.Ascending)
    (hlabel : label.kind.isExpansion = false) : arena.Traced (arena.push label).1 :=
  .of_same (hasc.push label) (by simp) (fun n hn => by rw [label_push_of_lt label hn])
    (fun _ => isExpansion_push hlabel) (children_push label)

theorem traced_stripName (hasc : arena.Ascending) (he : (arena.label e).kind.isExpansion = true)
    (name : String) : arena.Traced (arena.stripName e name) := by
  obtain ⟨hsize, hkind, hchildren, -⟩ := arena.stripName_spec e name
  refine .of_same (pruned_stripName hasc he name).ascending (Nat.le_of_eq hsize.symm)
    (fun n _ => hkind n) ?_ hchildren
  intro n hn
  rw [hkind, label_of_size_le hn]
  rfl

/-- A new query for an expansion leaves paths traced if no expansion is in its old one. -/
theorem traced_requeried {label : Label} (hasc : arena.Ascending)
    (he : (arena.label e).kind.isExpansion = true) (hlabel : label.kind.isExpansion = false)
    (hquery : ∀ c, arena.child? e 0 = some c → arena.Bare c) :
    arena.Traced ((arena.push label).1.setChild e 0 arena.size) := by
  have hpruned := pruned_requeried hasc he hlabel
  have helt := lt_size_of_isExpansion he
  -- away from the expansion, the same edges are open
  have hedge : ∀ y c : Nat, y ≠ e →
      (((arena.push label).1.setChild e 0 arena.size).OpenEdge y c ↔ arena.OpenEdge y c) := by
    intro y c hy
    rw [OpenEdge, OpenEdge, child?, child?, children_push_setChild label helt hy]
    refine and_congr_right fun hmem => ?_
    rw [label_push_setChild label (lt_size_of_mem_children hmem)]
  refine .of_edges hpruned.ascending (by simp) hpruned.remaining ?_ ?_ ?_
  · exact fun y c hc hmem => .of_mem (mem_children_push_setChild label helt hmem hc)
  · intro y c x hx hopen hcx
    by_cases hy : y = e
    · -- the only open edge from the expansion leads to the new node, where there is nothing
      subst hy
      have hc := hopen.2 (by rwa [label_push_setChild label helt])
      rw [child?_setChild _ _ _ (by rw [size_push]; omega)] at hc
      cases hc
      rw [hcx.eq_of_childless (children_push_setChild_size label helt), label_setChild,
        label_push_size, hlabel] at hx
      exact absurd hx (by simp)
    · exact Relation.ReflTransGen.single ((hedge y c hy).mp hopen)
  · intro y c x hx hopen hcx
    by_cases hy : y = e
    · subst hy
      have hbare := hquery c (hopen.2 he) x hcx
      rw [hpruned.remaining x hx] at hbare
      exact absurd hbare (by simp)
    · exact (hedge y c hy).mpr hopen

/-- Paths are traced when something takes the place of an expansion without expansions in its query. -/
theorem traced_substituted (hasc : arena.Ascending) (he : (arena.label e).kind.isExpansion = true)
    (hv : arena.Replaces e v) (boost : Boost) (hbare : arena.Bare v)
    (hquery : ∀ c, arena.child? e 0 = some c → arena.Bare c) :
    arena.Traced (Compile.substituted arena e v boost) := by
  have hpruned := pruned_substituted hasc he hv boost hbare
  -- from the expansion one gets to the children of what takes its place
  have hopen : ∀ c ∈ arena.children v, arena.Open e c := by
    intro c hc
    rcases hv with hchild | ⟨-, hslot, -⟩
    · exact .of_query hchild (.of_child (hbare v (.refl v)) hc (.refl c))
    · rw [children_of_slot? hslot] at hc
      exact absurd hc (by simp)
  -- away from both nodes, the same edges are open
  have hedge : ∀ y c : Nat, y ≠ e → y ≠ v →
      ((Compile.substituted arena e v boost).OpenEdge y c ↔ arena.OpenEdge y c) := by
    intro y c hye hyv
    rw [OpenEdge, OpenEdge, child?, child?, children_substituted hasc he hv, if_neg hyv, if_neg hye,
      kind_substituted hasc he hv, if_neg hye]
  refine .of_edges hpruned.ascending hpruned.size_le hpruned.remaining ?_ ?_ ?_
  · exact fun y c _ hc => below_substituted hasc he hv boost (.of_mem hc)
  · intro y c x hx hstep _
    obtain ⟨hyv, ⟨rfl, hmem, -⟩ | ⟨hye, -⟩⟩ := mem_children_substituted hasc he hv boost hstep.1
    · exact hopen c hmem
    · exact Relation.ReflTransGen.single ((hedge y c hye hyv).mp hstep)
  · intro y c x hx hstep hcx
    have hold := hpruned.remaining x hx
    refine (hedge y c ?_ ?_).mpr hstep
    · rintro rfl
      rw [hquery c (hstep.2 he) x hcx] at hold
      exact absurd hold (by simp)
    · rintro rfl
      rw [hbare x (.of_child hstep.1 hcx)] at hold
      exact absurd hold (by simp)

/-- **Every step leaves paths traced.** -/
theorem Rewrite.traced (h : arena.Rewrite other) (hasc : arena.Ascending) : arena.Traced other := by
  cases h with
  | push label hlabel => exact traced_push hasc hlabel
  | strip e name he => exact traced_stripName hasc he name
  | requery e label he hlabel hquery => exact traced_requeried hasc he hlabel hquery
  | resolve e v boost he hv hbare hquery => exact traced_substituted hasc he hv boost hbare hquery

/-- **Rewriting leaves paths traced.** -/
theorem Rewrites.traced (h : arena.Rewrites other) (hasc : arena.Ascending) : arena.Traced other := by
  induction h with
  | refl => rfl
  | tail hfirst hstep ih =>
    exact ih.trans (hstep.traced (Rewrites.pruned hfirst hasc).ascending)

end LinkedSearch.Query.Arena
