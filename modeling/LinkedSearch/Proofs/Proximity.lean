import LinkedSearch.Compile.Node
import LinkedSearch.Proofs.Agreement
import LinkedSearch.Proofs.Arena.Reading

/-! # Proximities and scopes consult their leaves

A proximity and the nested path of a scope are made of the leaves below a node. Two arenas that hold
the same tree give the same result, wherever they hold it, if the leaves consult the same facts:

* `proximity_agrees`: a compiled proximity.
* `sharedPath_agrees`: the nested path of a scope. -/

namespace LinkedSearch.Compile

open Query (Arena Kind Label NodeId Tree)

variable {α : Type} {env : Environment} {p q : Progress} {n m : Nat}

/-! ## Reading nodes -/

/-- Computations that start with the children of a node. -/
theorem Agrees.childrenOf {f g : List NodeId → Compile α}
    (h : Agrees env (f (p.draft.arena.children n)) (g (q.draft.arena.children m)) p q) :
    Agrees env (childrenOf n >>= f) (Compile.childrenOf m >>= g) p q := by
  intro md md' hmd hmd'
  rw [exec_bind, exec_bind]
  exact h md md' hmd hmd'

/-- Computations that start with the label of a node. -/
theorem Agrees.labelOf {f g : Label → Compile α}
    (h : Agrees env (f (p.draft.arena.label n)) (g (q.draft.arena.label m)) p q) :
    Agrees env (labelOf n >>= f) (Compile.labelOf m >>= g) p q := by
  intro md md' hmd hmd'
  rw [exec_bind, exec_bind]
  exact h md md' hmd hmd'

/-- Computations that start with the arena. -/
theorem Agrees.arena {f g : Arena → Compile α}
    (h : Agrees env (f p.draft.arena) (g q.draft.arena) p q) :
    Agrees env (arena >>= f) (Compile.arena >>= g) p q := by
  intro md md' hmd hmd'
  rw [exec_bind, exec_bind]
  exact h md md' hmd hmd'

/-! ## Proximities -/

/-- The clause for a phrase. -/
theorem spanOfPhrase_agrees (hp : Peers env p q) (outer : Label) {label : Label} (hs : SameFacts env p q label)
    (hphrase : label.kind.isPhrase = true) :
    Agrees env (spanOfPhrase env outer label) (spanOfPhrase env outer label) p q := by
  unfold spanOfPhrase
  split
  · exact .pure _
  · refine (phraseTokens_agrees hp hs hphrase).bind fun tokens => ?_
    refine (Agrees.mapM_same fun token _ => spanOfLeaf_agrees _ _).bind fun clauses => ?_
    split <;> exact .pure _

/-- A bound reaches the end of the arena from a node that exists. -/
def Reaches (arena : Arena) (bound n : Nat) : Prop := arena.size ≤ bound + n ∧ n < arena.size

/-- One less reaches the end from the children. -/
theorem Reaches.child {arena : Arena} (h : arena.Ascending) {bound n c : Nat}
    (hreach : Reaches arena (bound + 1) n) (hc : c ∈ arena.children n) : Reaches arena bound c := by
  have hlt := h.lt_child n c hc
  refine ⟨?_, h.child_lt n c hc⟩
  have hsize := hreach.1
  omega

mutual

/-- The clause for a child of a proximity, where the bounds reach the ends of the arenas. -/
theorem spanOfChild_agrees (hp : Peers env p q) (hA : p.draft.arena.Ascending)
    (hB : q.draft.arena.Ascending) (outer : Label) : ∀ (tree : Tree) {n m k k' : Nat},
    p.draft.arena.Holds n tree → q.draft.arena.Holds m tree →
    (∀ label ∈ tree.preorder, label.kind.isLeaf = true → SameFacts env p q label) →
    Reaches p.draft.arena k n → Reaches q.draft.arena k' m →
    Agrees env (spanOfChild env (nearWithin env k) outer n)
      (spanOfChild env (nearWithin env k') outer m) p q
  | .node label children, n, m, k, k', hn, hm, hs, hk, hk' => by
    obtain ⟨hlabel, hchildren⟩ := Arena.holds_node.mp hn
    obtain ⟨hlabel', hchildren'⟩ := Arena.holds_node.mp hm
    rw [Tree.preorder_node] at hs
    unfold spanOfChild
    refine .labelOf ?_
    rw [hlabel, hlabel']
    simp only
    split
    · next hkind =>
      have hphrase : label.kind.isPhrase = true := by rw [hkind]; rfl
      have hleaf : label.kind.isLeaf = true := by rw [hkind]; rfl
      exact (spanOfPhrase_agrees hp outer (hs label List.mem_cons_self hleaf) hphrase).bind
        fun _ => .pure _
    · -- a node that exists is within the bound, so that one more step is left
      obtain ⟨k, rfl⟩ : ∃ j, k = j + 1 := ⟨k - 1, by have := hk.1; have := hk.2; omega⟩
      obtain ⟨k', rfl⟩ : ∃ j, k' = j + 1 := ⟨k' - 1, by have := hk'.1; have := hk'.2; omega⟩
      refine Agrees.bind (Agrees.childrenOf ?_) fun _ => .pure _
      refine (Agrees.mapM ?_).bind fun _ => .pure _
      exact spanOfChildren_agrees hp hA hB label children hchildren hchildren'
        (fun l hl => hs l (List.mem_cons_of_mem label hl)) (fun c hc => hk.child hA hc)
        fun c hc => hk'.child hB hc
    · exact (spanOfLeaf_agrees _ _).bind fun _ => .pure _

/-- The clauses for the children of a proximity. -/
theorem spanOfChildren_agrees (hp : Peers env p q) (hA : p.draft.arena.Ascending)
    (hB : q.draft.arena.Ascending) (outer : Label) : ∀ (trees : List Tree) {ids ids' : List NodeId}
    {k k' : Nat}, p.draft.arena.HoldsAll ids trees → q.draft.arena.HoldsAll ids' trees →
    (∀ label ∈ Tree.preorders trees, label.kind.isLeaf = true → SameFacts env p q label) →
    (∀ n ∈ ids, Reaches p.draft.arena k n) → (∀ m ∈ ids', Reaches q.draft.arena k' m) →
    List.Forall₂ (fun n m => Agrees env (spanOfChild env (nearWithin env k) outer n)
      (spanOfChild env (nearWithin env k') outer m) p q) ids ids'
  | [], ids, ids', k, k', hn, hm, _, _, _ => by
    rw [Arena.holdsAll_nil.mp hn, Arena.holdsAll_nil.mp hm]
    exact .nil
  | tree :: rest, ids, ids', k, k', hn, hm, hs, hk, hk' => by
    obtain ⟨n, later, rfl, hn, hrest⟩ := Arena.holdsAll_cons.mp hn
    obtain ⟨m, later', rfl, hm, hrest'⟩ := Arena.holdsAll_cons.mp hm
    rw [Tree.preorders_cons] at hs
    refine .cons ?_ ?_
    · exact spanOfChild_agrees hp hA hB outer tree hn hm
        (fun label hl => hs label (List.mem_append_left _ hl)) (hk n List.mem_cons_self)
        (hk' m List.mem_cons_self)
    · exact spanOfChildren_agrees hp hA hB outer rest hrest hrest'
        (fun label hl => hs label (List.mem_append_right _ hl))
        (fun c hc => hk c (List.mem_cons_of_mem n hc)) fun c hc => hk' c (List.mem_cons_of_mem m hc)

end

/-- **Proximities** over the same tree compile alike. -/
theorem proximity_agrees (hp : Peers env p q) (hA : p.draft.arena.Ascending)
    (hB : q.draft.arena.Ascending) (outer : Label) {tree : Tree} (hn : p.draft.arena.Holds n tree)
    (hm : q.draft.arena.Holds m tree)
    (hs : ∀ label ∈ tree.preorder, label.kind.isLeaf = true → SameFacts env p q label)
    (hnlt : n < p.draft.arena.size) (hmlt : m < q.draft.arena.size) :
    Agrees env (proximity env outer n) (proximity env outer m) p q := by
  obtain ⟨label, children⟩ := tree
  obtain ⟨k, hk⟩ : ∃ k, p.draft.arena.size = k + 1 := ⟨p.draft.arena.size - 1, by omega⟩
  obtain ⟨k', hk'⟩ : ∃ k, q.draft.arena.size = k + 1 := ⟨q.draft.arena.size - 1, by omega⟩
  unfold proximity
  refine .arena ?_
  rw [hk, hk']
  refine Agrees.bind (Agrees.childrenOf ?_) fun _ => .pure _
  refine (Agrees.mapM ?_).bind fun _ => .pure _
  refine spanOfChildren_agrees hp hA hB outer children hn.children hm.children ?_ ?_ ?_
  · exact fun l hl => hs l (by rw [Tree.preorder_node]; exact List.mem_cons_of_mem label hl)
  · exact fun c hc => Reaches.child hA ⟨by omega, hnlt⟩ hc
  · exact fun c hc => Reaches.child hB ⟨by omega, hmlt⟩ hc

/-! ## Scopes -/

/-- **Nested path of a scope.** It is the one that its leaves share. -/
theorem sharedPath_agrees (hp : Peers env p q) (hA : p.draft.arena.Ascending)
    (hB : q.draft.arena.Ascending) {tree : Tree} (hn : p.draft.arena.Holds n tree)
    (hm : q.draft.arena.Holds m tree)
    (hs : ∀ label ∈ tree.preorder, label.kind.isLeaf = true → SameFacts env p q label) :
    Agrees env (sharedPath env n) (sharedPath env m) p q := by
  unfold sharedPath
  refine .arena (.arena ?_)
  rw [hA.labels_descendants hn, hB.labels_descendants hm]
  refine Agrees.foldlM fun label hl shared => ?_
  have hleaf : label.kind.isLeaf = true := (List.mem_filter.mp hl).2
  refine (nestedPathOf_agrees hp (hs label (List.mem_of_mem_filter hl) hleaf)).bind fun path => ?_
  split
  · exact .pure _
  · exact .pure _
  · split
    · exact .pure _
    · exact .throw _

end LinkedSearch.Compile
