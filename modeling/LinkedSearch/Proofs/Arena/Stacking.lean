import Mathlib.Data.Finset.Card
import Mathlib.Data.Finset.Range
import LinkedSearch.Proofs.Arena.Tracing

/-! # The stack of expansions

Expansions are put on a stack in the order in which a search from a node on meets them, and resolved from the top of
the stack. The search goes into the query of an expansion and into all children of any other node. In a well-formed
arena it misses nothing on its way, comes to no node twice, and meets an expansion before everything in its query.

* `WellFormed.bounded_rank`: no path has more nodes than there are slots.
* `WellFormed.mem_expansions_iff`: the search is complete.
* `WellFormed.pairwise_expansions`: nothing comes after what is below it.
* `WellFormed.expansions_stacked`: the stack. -/

namespace LinkedSearch.Query.Arena

variable {arena : Arena} {root outer inner query n x y : Nat} {fuel : Nat}

/-- With a bound on the length of all paths, the expansions that are open to a node are found. -/
theorem mem_expansionsWithin {rank : NodeId → Nat} (hrank : ∀ n c, c ∈ arena.children n → rank c < rank n)
    (hbound : rank n ≤ fuel) (hopen : arena.Open n x) (hkind : (arena.label x).kind.isExpansion = true) :
    x ∈ arena.expansionsWithin fuel n := by
  induction fuel generalizing n with
  | zero =>
    -- nothing ranks below zero
    have hleaf : arena.children n = [] := by
      refine List.eq_nil_iff_forall_not_mem.mpr fun c hc => ?_
      have hlt := hrank n c hc
      omega
    obtain rfl := hopen.below.eq_of_childless hleaf
    rw [expansionsWithin, if_pos hkind]
    exact List.mem_singleton.mpr rfl
  | succ fuel ih =>
    rw [expansionsWithin]
    rcases Relation.ReflTransGen.cases_head hopen with rfl | ⟨c, ⟨hc, hquery⟩, hopen⟩
    · rw [if_pos hkind]
      exact List.mem_cons_self
    · have hlt := hrank n c hc
      have hfound := ih (by omega) hopen
      split
      · next hn =>
        rw [hquery hn]
        exact List.mem_cons_of_mem n hfound
      · exact List.mem_flatMap.mpr ⟨c, hc, hfound⟩

namespace WellFormed

variable (h : arena.WellFormed)

include h

/-- **Bounded ranks**: a rank that falls from a node to its children can be counted in nodes, and so is bounded by
their number. -/
theorem bounded_rank : ∃ rank : NodeId → Nat,
    (∀ n c, c ∈ arena.children n → rank c < rank n) ∧ ∀ n, rank n ≤ arena.size := by
  obtain ⟨rank, hrank⟩ := h.ranked
  let lower : NodeId → Finset Nat := fun n => (Finset.range arena.size).filter fun m => rank m < rank n
  refine ⟨fun n => (lower n).card, fun n c hc => ?_, fun n => ?_⟩
  · -- a child counts for its parent, and not for itself
    have hlt := hrank n c hc
    have hsub : lower c ⊆ lower n := fun m hm => by
      obtain ⟨hsize, hm⟩ := Finset.mem_filter.mp hm
      exact Finset.mem_filter.mpr ⟨hsize, Nat.lt_trans hm hlt⟩
    have hchild : c ∈ lower n := Finset.mem_filter.mpr ⟨Finset.mem_range.mpr (h.child_lt n c hc), hlt⟩
    have hself : c ∉ lower c := fun hm => Nat.lt_irrefl _ (Finset.mem_filter.mp hm).2
    apply Finset.card_lt_card
    exact (Finset.ssubset_iff_of_subset hsub).mpr ⟨c, hchild, hself⟩
  · exact (Finset.card_filter_le _ _).trans (Finset.card_range arena.size).le

/-- **Complete**: the expansions that are listed are those that are open to the node. -/
theorem mem_expansions_iff :
    x ∈ arena.expansions n ↔ arena.Open n x ∧ (arena.label x).kind.isExpansion = true := by
  obtain ⟨rank, hrank, hbound⟩ := h.bounded_rank
  refine ⟨open_of_mem_expansionsWithin _, fun hx => ?_⟩
  exact mem_expansionsWithin hrank (hbound n) hx.1 hx.2

/-- **Outer ones first**: no node that is listed is below one that is listed later. -/
theorem pairwise_expansionsWithin (fuel : Nat) (n : NodeId) :
    (arena.expansionsWithin fuel n).Pairwise fun x y => ¬arena.Below y x := by
  induction fuel generalizing n with
  | zero =>
    rw [expansionsWithin]
    split
    · exact List.pairwise_singleton _ n
    · exact .nil
  | succ fuel ih =>
    have hbelow : ∀ {c y}, y ∈ arena.expansionsWithin fuel c → arena.Below c y := fun hy =>
      (open_of_mem_expansionsWithin fuel hy).1.below
    rw [expansionsWithin]
    split
    · refine List.pairwise_cons.mpr ⟨fun y hy hup => ?_, ?_⟩
      · cases hc : arena.child? n 0 with
        | none => rw [hc] at hy; exact absurd hy (by simp)
        | some c =>
          rw [hc] at hy
          exact h.not_below_parent (List.mem_of_getElem? hc) ((hbelow hy).trans hup)
      · cases arena.child? n 0 with
        | none => exact .nil
        | some c => exact ih c
    · refine List.pairwise_flatMap.mpr ⟨fun c _ => ih c, ?_⟩
      -- what is listed for different children has nothing below it in common
      refine (h.nodup_children n).imp_of_mem fun {a b} ha hb hne x hx y hy hup => ?_
      exact h.siblings_disjoint ha hb hne (hbelow hx) ((hbelow hy).trans hup)

theorem pairwise_expansions (n : NodeId) : (arena.expansions n).Pairwise fun x y => ¬arena.Below y x :=
  h.pairwise_expansionsWithin arena.size n

/-- **Each once**: every node is below itself. -/
theorem nodup_expansions (n : NodeId) : (arena.expansions n).Nodup :=
  (h.pairwise_expansions n).imp fun {x y} hup (heq : x = y) => hup (by rw [heq])

/-- What is listed and below the query of an expansion comes after it. -/
theorem mem_after_of_below {before after : List NodeId} (hlist : arena.expansions root = before ++ outer :: after)
    (hquery : arena.child? outer 0 = some query) (hinner : inner ∈ arena.expansions root)
    (hbelow : arena.Below query inner) : inner ∈ after := by
  have hchild : query ∈ arena.children outer := List.mem_of_getElem? hquery
  have hordered := h.pairwise_expansions root
  rw [hlist] at hinner hordered
  obtain ⟨-, -, hbefore⟩ := List.pairwise_append.mp hordered
  rcases List.mem_append.mp hinner with hmem | hmem
  · exact absurd (.of_child hchild hbelow) (hbefore inner hmem outer List.mem_cons_self)
  · rcases List.mem_cons.mp hmem with rfl | hmem
    · exact absurd hbelow (h.not_below_parent hchild)
    · exact hmem

/-- **The stack of expansions is complete and ordered.** In a well-formed arena the expansions that are listed for a
node are exactly those that are reached from it when all children are followed, but of an expansion only the first
one. Each is listed once, and before all that are listed and lie below its query. So when they are taken from the end
of the list, the turn of an expansion comes only after all of these. -/
theorem expansions_stacked (root : NodeId) :
    (∀ x, x ∈ arena.expansions root ↔ arena.Open root x ∧ (arena.label x).kind.isExpansion = true) ∧
    (arena.expansions root).Nodup ∧
    (∀ before outer after, arena.expansions root = before ++ outer :: after →
      ∀ query, arena.child? outer 0 = some query →
        ∀ inner ∈ arena.expansions root, arena.Below query inner → inner ∈ after) ∧
    (∀ popped outer waiting, (arena.expansions root).reverse = popped ++ outer :: waiting →
      ∀ query, arena.child? outer 0 = some query →
        ∀ inner ∈ arena.expansions root, arena.Below query inner → inner ∈ popped) := by
  refine ⟨fun x => h.mem_expansions_iff, h.nodup_expansions root, ?_, ?_⟩
  · intro before outer after hlist query hquery inner hinner hbelow
    exact h.mem_after_of_below hlist hquery hinner hbelow
  · intro popped outer waiting hpopped query hquery inner hinner hbelow
    have hlist : arena.expansions root = waiting.reverse ++ outer :: popped.reverse := by
      rw [← List.reverse_reverse (arena.expansions root), hpopped]
      simp
    exact List.mem_reverse.mp (h.mem_after_of_below hlist hquery hinner hbelow)

end WellFormed

/-- An expansion with a query and something else: the query has two expansions side by side, one of them with another
one in its query, and there is one more where no query is. -/
def stackedTree : Tree :=
  let link : Link := .unnamed "id" "authors" "id"
  .conjunction [
    .node { kind := .expansion link false } [
      .disjunction [.expansion link (.expansion link (.notNull "a")), .expansion link (.notNull "b")],
      .expansion link (.notNull "c")],
    .notNull "d"]

/-- Four of them are listed, each before those in its query. -/
theorem expansions_stacked_stackedTree :
    let arena := (Arena.empty.insert stackedTree).1
    arena.WellFormed ∧ arena.expansions 0 = [1, 3, 4, 6] ∧ (arena.label 8).kind.isExpansion = true ∧
      ¬arena.Open 0 8 ∧ ∀ inner ∈ arena.expansions 0, arena.Below 2 inner → inner ∈ [6, 4, 3] := by
  intro arena
  have hwell : arena.WellFormed := (insert_spec stackedTree Arena.empty .empty).ascending.wellFormed
  have hlist : arena.expansions 0 = [1, 3, 4, 6] := by decide +kernel
  have hkind : (arena.label 8).kind.isExpansion = true := by decide +kernel
  obtain ⟨hmem, -, -, hpopped⟩ := hwell.expansions_stacked 0
  refine ⟨hwell, hlist, hkind, fun hopen => ?_, ?_⟩
  · have hlisted := (hmem 8).mpr ⟨hopen, hkind⟩
    rw [hlist] at hlisted
    exact absurd hlisted (by decide)
  · refine hpopped [6, 4, 3] 1 [] ?_ 2 (by decide +kernel)
    rw [hlist]
    rfl

end LinkedSearch.Query.Arena
