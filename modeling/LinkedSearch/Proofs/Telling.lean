import LinkedSearch.Proofs.Following

/-! # What the result of a compilation tells

The converse of following: where two compilations of a plain query give the same fragment, they have
compiled each of its predicates to the same fragment, because no connective forgets its clauses.

* `Tells`: two computations whose result tells that some predicates were compiled alike.
* `nodeWithin_tells`: compilations of a plain query are such. -/

namespace LinkedSearch.Compile

open Query (Arena Kind Label NodeId Tree)

variable {α β : Type} {env : Environment} {p q s t : Progress} {n m : Nat}

/-- **Telling**: where both computations give the same result, they have compiled some predicates
alike, and the states have only drifted. -/
def Tells (env : Environment) (x y : Compile α) (labels : List Label) (p q : Progress) : Prop :=
  ∀ s t, Drifted env p s → Drifted env q t → ∀ a s' t', exec x s = (.ok a, s') →
    exec y t = (.ok a, t') →
      (∀ label ∈ labels, (exec (predicate env label) p).1 = (exec (predicate env label) q).1) ∧
        Drifted env p s' ∧ Drifted env q t'

namespace Tells

variable {x y : Compile β} {labels : List Label}

theorem pure (a b : α) : Tells env (pure a) (pure b) [] p q := by
  intro s t hs ht c s' t' hx hy
  obtain ⟨-, rfl⟩ := Prod.mk.inj hx
  obtain ⟨-, rfl⟩ := Prod.mk.inj hy
  exact ⟨by simp, hs, ht⟩

/-- What is done with the result in the end must not forget it. -/
theorem map (wrap : β → α) (hwrap : Function.Injective wrap) (h : Tells env x y labels p q) :
    Tells env (x >>= fun b => Pure.pure (wrap b)) (y >>= fun b => Pure.pure (wrap b)) labels p q := by
  intro s t hs ht a s' t' hx hy
  obtain ⟨b, hxb, rfl⟩ := exec_return_ok.mp hx
  obtain ⟨c, hyc, hc⟩ := exec_return_ok.mp hy
  obtain rfl := hwrap hc
  exact h s t hs ht c s' t' hxb hyc

/-- Computations that start with a look at the state. -/
theorem get {f g : Progress → Compile α}
    (h : ∀ s t, Drifted env p s → Drifted env q t → Tells env (f s) (g t) labels p q) :
    Tells env (MonadState.get >>= f) (MonadState.get >>= g) labels p q := by
  intro s t hs ht a s' t' hx hy
  exact h s t hs ht s t hs ht a s' t' hx hy

/-- Computations that start with the label of a node. -/
theorem labelOf {f g : Label → Compile α}
    (h : Tells env (f (p.draft.arena.label n)) (g (q.draft.arena.label m)) labels p q) :
    Tells env (labelOf n >>= f) (Compile.labelOf m >>= g) labels p q := by
  intro s t hs ht a s' t' hx hy
  rw [exec_bind] at hx hy
  have hx : exec (f (s.draft.arena.label n)) s = _ := hx
  have hy : exec (g (t.draft.arena.label m)) t = _ := hy
  rw [hs.draft_eq] at hx
  rw [ht.draft_eq] at hy
  exact h s t hs ht a s' t' hx hy

/-- Computations that start with the children of a node. -/
theorem childrenOf {f g : List NodeId → Compile α}
    (h : Tells env (f (p.draft.arena.children n)) (g (q.draft.arena.children m)) labels p q) :
    Tells env (childrenOf n >>= f) (Compile.childrenOf m >>= g) labels p q := by
  intro s t hs ht a s' t' hx hy
  rw [exec_bind] at hx hy
  have hx : exec (f (s.draft.arena.children n)) s = _ := hx
  have hy : exec (g (t.draft.arena.children m)) t = _ := hy
  rw [hs.draft_eq] at hx
  rw [ht.draft_eq] at hy
  exact h s t hs ht a s' t' hx hy

/-- A predicate tells of itself. -/
theorem predicate (hp : Sound env p) (hq : Sound env q) (label : Label) :
    Tells env (predicate env label) (Compile.predicate env label) [label] p q := by
  intro s t hs ht F s' t' hx hy
  obtain ⟨hsame, hdrift⟩ := predicate_drifted hp hs label
  obtain ⟨hsame', hdrift'⟩ := predicate_drifted hq ht label
  rw [hx] at hsame hdrift
  rw [hy] at hsame' hdrift'
  refine ⟨fun l hl => ?_, hdrift, hdrift'⟩
  obtain rfl := List.mem_singleton.mp hl
  rw [← hsame, ← hsame']

/-- A list of fragments tells of the predicates of all queries. -/
theorem mapM {recur recur' : NodeId → Compile Fragment} {arena arena' : Arena} {trees : List Tree}
    {ids ids' : List NodeId} (h : arena.HoldsAll ids trees) (h' : arena'.HoldsAll ids' trees)
    (htells : ∀ tree ∈ trees, ∀ c ∈ ids, ∀ c' ∈ ids', arena.Holds c tree → arena'.Holds c' tree →
      Tells env (recur c) (recur' c') tree.predicates p q) :
    Tells env (ids.mapM recur) (ids'.mapM recur') (Tree.predicatesOf trees) p q := by
  induction trees generalizing ids ids' with
  | nil =>
    rw [Arena.holdsAll_nil.mp h, Arena.holdsAll_nil.mp h']
    exact .pure [] []
  | cons tree rest ih =>
    obtain ⟨c, later, rfl, hc, hlater⟩ := Arena.holdsAll_cons.mp h
    obtain ⟨c', later', rfl, hc', hlater'⟩ := Arena.holdsAll_cons.mp h'
    have hrest := ih hlater hlater' fun tree htree d hd d' hd' =>
      htells tree (List.mem_cons_of_mem _ htree) d (List.mem_cons_of_mem _ hd) d'
        (List.mem_cons_of_mem _ hd')
    intro s t hs ht fragments s'' t'' hx hy
    obtain ⟨F, s', Fs, hxc, hxs, rfl⟩ := exec_mapM_cons_ok.mp hx
    obtain ⟨G, t', Gs, hyc, hys, heq⟩ := exec_mapM_cons_ok.mp hy
    obtain ⟨rfl, rfl⟩ := List.cons.inj heq
    obtain ⟨hsame, hs', ht'⟩ := htells tree List.mem_cons_self c List.mem_cons_self c'
      List.mem_cons_self hc hc' s t hs ht F s' t' hxc hyc
    obtain ⟨hsame', hs'', ht''⟩ := hrest s' t' hs' ht' Fs s'' t'' hxs hys
    refine ⟨fun label hl => ?_, hs'', ht''⟩
    rw [Tree.predicatesOf] at hl
    rcases List.mem_append.mp hl with hl | hl
    · exact hsame label hl
    · exact hsame' label hl

end Tells

/-- The first child of a parent or child scope tells of its predicates. -/
theorem joined_tells {recur recur' : NodeId → Compile Fragment} {join : Fragment → Fragment}
    (hjoin : Function.Injective join) {label : Label} {trees : List Tree}
    (hkind : (∃ typeName, label.kind = .child typeName) ∨ ∃ typeName, label.kind = .parent typeName)
    (hheld : p.draft.arena.HoldsAll (p.draft.arena.children n) trees)
    (hheld' : q.draft.arena.HoldsAll (q.draft.arena.children m) trees)
    (hfirst : ∀ tree ∈ trees, ∀ c ∈ p.draft.arena.children n,
      ∀ c' ∈ q.draft.arena.children m, p.draft.arena.Holds c tree → q.draft.arena.Holds c' tree →
        Tells env (recur c) (recur' c') tree.predicates p q) :
    Tells env (joined env recur join n) (joined env recur' join m)
      (Query.Tree.node label trees).predicates p q := by
  unfold joined
  refine .childrenOf ?_
  cases trees with
  | nil =>
    have hnone : (Query.Tree.node label []).predicates = [] := by
      rw [Tree.predicates]
      rcases hkind with ⟨typeName, hkind⟩ | ⟨typeName, hkind⟩ <;> rw [hkind] <;> rfl
    rw [Arena.holdsAll_nil.mp hheld, Arena.holdsAll_nil.mp hheld', hnone]
    exact .pure _ _
  | cons tree rest =>
    obtain ⟨c, later, hids, hc, -⟩ := Arena.holdsAll_cons.mp hheld
    obtain ⟨c', later', hids', hc', -⟩ := Arena.holdsAll_cons.mp hheld'
    have htells := hfirst tree List.mem_cons_self c (by simp [hids]) c' (by simp [hids']) hc hc'
    rw [hids, hids', Tree.predicates_joined hkind]
    refine Tells.map (fun fragment =>
      if env.settings.useParentChild then join fragment else fragment) ?_ htells
    intro F G heq
    -- whether it is joined or not, the fragment of the child is not forgotten
    by_cases hsettings : env.settings.useParentChild = true
    · simp only [hsettings, if_true] at heq
      exact hjoin heq
    · simpa [hsettings] using heq

/-- **Compilations with the same result** have compiled all predicates of a plain query alike. -/
theorem nodeWithin_tells (hp : Sound env p) (hq : Sound env q) (hquery : p.aggregating = false)
    (hquery' : q.aggregating = false) (fuel : Nat) : ∀ {bound n m : Nat} {tree : Tree},
    p.draft.arena.Holds n tree → q.draft.arena.Holds m tree → tree.IsPlain →
    Tells env (nodeWithin env fuel n) (nodeWithin env bound m) tree.predicates p q := by
  induction fuel with
  | zero =>
    intro bound n m tree _ _ _ s t _ _ F s' t' h
    exact absurd (congrArg Prod.fst h) (by simp [nodeWithin, exec])
  | succ fuel ih =>
    intro bound n m tree hn hm hplain
    cases bound with
    | zero =>
      intro s t _ _ F s' t' _ h
      exact absurd (congrArg Prod.fst h) (by simp [nodeWithin, exec])
    | succ bound =>
      obtain ⟨label, children⟩ := tree
      obtain ⟨hlabel, hchildren⟩ := Arena.holds_node.mp hn
      obtain ⟨hlabel', hchildren'⟩ := Arena.holds_node.mp hm
      have hlabelPlain := hplain label (by simp)
      have hchild : ∀ tree ∈ children, ∀ c ∈ p.draft.arena.children n,
          ∀ c' ∈ q.draft.arena.children m, p.draft.arena.Holds c tree →
          q.draft.arena.Holds c' tree →
          Tells env (nodeWithin env fuel c) (nodeWithin env bound c') tree.predicates p q :=
        fun tree htree c _ c' _ hheld hheld' => ih hheld hheld' (hplain.child htree)
      -- the labels are the same, so that both sides take the same branch below
      have hall := Tells.mapM hchildren hchildren' hchild
      unfold nodeWithin node
      refine .labelOf ?_
      rw [hlabel, hlabel']
      split
      · next hkind =>
        rw [Tree.predicates_node (by rw [hkind]; rfl) (by simp [hkind]) (by simp [hkind])]
        exact .childrenOf (.map _ (fun F G heq => by simpa [Fragment.all] using heq) hall)
      · next hkind =>
        rw [Tree.predicates_node (by rw [hkind]; rfl) (by simp [hkind]) (by simp [hkind])]
        exact .childrenOf (.map _ (fun F G heq => by simpa [Fragment.any] using heq) hall)
      · next hkind =>
        rw [Tree.predicates_node (by rw [hkind]; rfl) (by simp [hkind]) (by simp [hkind])]
        refine .get fun s t hs ht => ?_
        rw [hs.aggregating_eq, ht.aggregating_eq, hquery, hquery']
        exact .childrenOf (.map (fun fragments => Fragment.bool [] [] fragments none none)
          (fun F G heq => by simpa using heq) hall)
      · next hkind =>
        rw [hkind] at hlabelPlain
        exact absurd hlabelPlain (by simp [Kind.isPlain])
      · next typeName hkind =>
        exact joined_tells (fun F G heq => by simpa using heq) (.inl ⟨typeName, hkind⟩) hchildren
          hchildren' hchild
      · next typeName hkind =>
        refine .get fun s t hs ht => ?_
        rw [hs.aggregating_eq, ht.aggregating_eq, hquery, hquery']
        exact joined_tells (fun F G heq => by simpa using heq) (.inr ⟨typeName, hkind⟩) hchildren
          hchildren' hchild
      · next link generated hkind =>
        rw [hkind] at hlabelPlain
        exact absurd hlabelPlain (by simp [Kind.isPlain])
      · next distance ordered hkind =>
        rw [hkind] at hlabelPlain
        exact absurd hlabelPlain (by simp [Kind.isPlain])
      · next hconj hdisj hneg hscope hchildKind hparent hexp hprox =>
        have hleaf : label.kind.isLeaf = true := by
          cases hk : label.kind <;> simp_all [Kind.isLeaf]
        rw [Tree.predicates_leaf hleaf]
        exact .predicate hp hq label

end LinkedSearch.Compile
