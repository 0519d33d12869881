import LinkedSearch.Proofs.Preservation

/-! # The same query compiled twice

A query without expansions is compiled by looking things up. Two compilations of it, in two arenas
and with different knowledge of the indexes, go the same way as long as they compile its predicates
alike:

* `Drifted`: what such a compilation changes.
* `Follows`: wherever one computation succeeds, the other one succeeds with the same result.
* `Tree.predicates`, `Alike`: the predicates of a query, and when two states compile them alike.
* `PartsFollow`: the parts of a query follow each other.
* `nodeWithin_follows`: compilations of the same query follow each other. -/

namespace LinkedSearch

open Query (Arena Kind Label NodeId Tree)

/-! ## Predicates of a query -/

namespace Query

/-- Whether a kind is neither a scope nor a proximity nor an expansion. -/
def Kind.isPlain : Kind → Bool
  | .scope | .proximity .. | .expansion .. => false
  | _ => true

namespace Tree

/-- **Plain queries** are made of connectives, parent and child scopes, and predicates. -/
def IsPlain (tree : Tree) : Prop := ∀ label ∈ tree.preorder, label.kind.isPlain = true

mutual

/-- **Predicates** of a query that are compiled: of a parent or child scope only the first subtree
is. -/
def predicates : Tree → List Label
  | .node label children =>
    match label.kind with
    | .child _ | .parent _ => predicatesOfFirst children
    | kind => if kind.isLeaf then [label] else predicatesOf children

/-- The predicates of some queries. -/
def predicatesOf : List Tree → List Label
  | [] => []
  | tree :: rest => tree.predicates ++ predicatesOf rest

/-- The predicates of the first query. -/
def predicatesOfFirst : List Tree → List Label
  | [] => []
  | tree :: _ => tree.predicates

end

/-- The labels of a forest are those of its trees. -/
theorem mem_preorders {trees : List Tree} {label : Label} :
    label ∈ preorders trees ↔ ∃ tree ∈ trees, label ∈ tree.preorder := by
  induction trees with
  | nil => simp
  | cons tree rest ih => simp [ih]

/-- The predicates of some queries are those of each of them. -/
theorem mem_predicatesOf {trees : List Tree} {label : Label} :
    label ∈ predicatesOf trees ↔ ∃ tree ∈ trees, label ∈ tree.predicates := by
  induction trees with
  | nil => simp [predicatesOf]
  | cons tree rest ih => simp [predicatesOf, ih]

/-- The predicates of a connective or a scope are those of its subtrees. -/
theorem predicates_node {label : Label} {children : List Tree} (hleaf : label.kind.isLeaf = false)
    (hchild : ∀ typeName, label.kind ≠ .child typeName)
    (hparent : ∀ typeName, label.kind ≠ .parent typeName) :
    (node label children).predicates = predicatesOf children := by
  rw [predicates]
  split
  · next typeName hkind => exact absurd hkind (hchild typeName)
  · next typeName hkind => exact absurd hkind (hparent typeName)
  · rw [hleaf]
    rfl

/-- The predicates of a parent or child scope are those of its first subtree. -/
theorem predicates_joined {label : Label} {tree : Tree} {rest : List Tree}
    (hkind : (∃ typeName, label.kind = .child typeName) ∨ ∃ typeName, label.kind = .parent typeName) :
    (node label (tree :: rest)).predicates = tree.predicates := by
  rw [predicates]
  rcases hkind with ⟨typeName, hkind⟩ | ⟨typeName, hkind⟩ <;> rw [hkind] <;> rfl

/-- A predicate is the only one of its own. -/
theorem predicates_leaf {label : Label} {children : List Tree} (h : label.kind.isLeaf = true) :
    (node label children).predicates = [label] := by
  rw [predicates]
  split
  · next hkind => rw [hkind] at h; exact absurd h (by simp [Kind.isLeaf])
  · next hkind => rw [hkind] at h; exact absurd h (by simp [Kind.isLeaf])
  · rw [if_pos h]

/-- A tree is no larger than its forest. -/
theorem size_le_sizes {trees : List Tree} {tree : Tree} (h : tree ∈ trees) :
    tree.size ≤ sizes trees := by
  induction trees with
  | nil => exact absurd h (by simp)
  | cons first rest ih =>
    rw [sizes_cons]
    rcases List.mem_cons.mp h with rfl | hrest
    · omega
    · have hle := ih hrest
      omega

/-- There are as many labels in a query as nodes. -/
theorem length_preorder (tree : Tree) : tree.preorder.length = tree.size := by
  induction tree using Tree.rec (motive_2 := fun trees =>
    (preorders trees).length = sizes trees) with
  | node label children ih => rw [preorder_node, List.length_cons, ih, size_node]
  | nil => rfl
  | cons tree rest ihtree ihrest =>
    rw [preorders_cons, List.length_append, ihtree, ihrest, sizes_cons]

/-- The subtrees of a plain query are plain. -/
theorem IsPlain.child {label : Label} {children : List Tree} (h : (node label children).IsPlain)
    {tree : Tree} (htree : tree ∈ children) : tree.IsPlain := by
  intro l hl
  refine h l ?_
  rw [preorder_node]
  exact List.mem_cons_of_mem _ (mem_preorders.mpr ⟨tree, htree, hl⟩)

end Tree

end Query

/-- The same surroundings with another executor. -/
def Environment.answeredBy (env : Environment) (executor : Executor) : Environment :=
  { env with executor }

namespace Compile

variable {α β : Type} {env : Environment} {p q s t : Progress} {n m : Nat}

/-! ## Drift -/

/-- **Drift**: more is looked up, and outside of scopes the path of the last scope may be gone. -/
structure Drifted (env : Environment) (p q : Progress) : Prop where
  grows : p.metadata.Grows env.resolver q.metadata
  draft_eq : q.draft = p.draft
  aggregating_eq : q.aggregating = p.aggregating
  scopeDepth_eq : q.scopeDepth = p.scopeDepth
  scopePath_eq : p.scopeDepth = 0 ∨ q.scopePath = p.scopePath

namespace Drifted

@[refl] theorem refl (p : Progress) : Drifted env p p := ⟨.refl _, rfl, rfl, rfl, .inr rfl⟩

theorem trans (h : Drifted env p q) (h' : Drifted env q s) : Drifted env p s where
  grows := h.grows.trans h'.grows
  draft_eq := h'.draft_eq.trans h.draft_eq
  aggregating_eq := h'.aggregating_eq.trans h.aggregating_eq
  scopeDepth_eq := h'.scopeDepth_eq.trans h.scopeDepth_eq
  scopePath_eq := by
    rcases h.scopePath_eq with hzero | heq
    · exact .inl hzero
    · rcases h'.scopePath_eq with hzero | heq'
      · exact .inl (h.scopeDepth_eq.symm.trans hzero)
      · exact .inr (heq'.trans heq)

theorem looked (h : Looked env p q) : Drifted env p q := by
  obtain ⟨md, hgrows, rfl⟩ := h
  exact ⟨hgrows, rfl, rfl, rfl, .inr rfl⟩

theorem sound (h : Drifted env p q) (hp : Sound env p) : Sound env q :=
  ⟨by rw [h.draft_eq]; exact hp.ascending, h.grows.faithful hp.faithful⟩

/-- Peers that drift stay peers. -/
theorem peers (hp : Drifted env p s) (hq : Drifted env q t) (h : Peers env p q) :
    Peers env s t where
  faithful_left := hp.grows.faithful h.faithful_left
  faithful_right := hq.grows.faithful h.faithful_right
  aggregating_eq := by rw [hp.aggregating_eq, hq.aggregating_eq, h.aggregating_eq]
  scopeDepth_eq := by rw [hp.scopeDepth_eq, hq.scopeDepth_eq, h.scopeDepth_eq]
  scopePath_eq := by
    by_cases hzero : p.scopeDepth = 0
    · exact .inl (hp.scopeDepth_eq.trans hzero)
    · have hzero' : q.scopeDepth ≠ 0 := by rwa [h.scopeDepth_eq]
      rw [hp.scopePath_eq.resolve_left hzero, hq.scopePath_eq.resolve_left hzero']
      exact .inr (h.scopePath_eq.resolve_left hzero)
  arrayData_eq := by rw [hp.draft_eq, hq.draft_eq, h.arrayData_eq]

/-- States that drift keep consulting the same facts. -/
theorem sameFacts (hp : Drifted env p s) (hq : Drifted env q t) {label : Label}
    (h : SameFacts env p q label) : SameFacts env s t label := by
  unfold SameFacts
  rw [hp.grows.factsOf_eq, hq.grows.factsOf_eq]
  exact h

end Drifted

/-! ## Following -/

/-- **Following**: wherever the first computation succeeds, the second one succeeds with the same
result, and both states have only drifted. -/
def Follows (env : Environment) (x y : Compile α) (p q : Progress) : Prop :=
  ∀ s t, Drifted env p s → Drifted env q t → ∀ a s', exec x s = (.ok a, s') →
    ∃ t', exec y t = (.ok a, t') ∧ Drifted env p s' ∧ Drifted env q t'

namespace Follows

theorem pure (a : α) : Follows env (pure a) (pure a) p q := by
  intro s t hs ht b s' h
  obtain ⟨hb, rfl⟩ := Prod.mk.inj h
  obtain rfl := Except.ok.inj hb
  exact ⟨t, rfl, hs, ht⟩

theorem bind {x y : Compile β} {f g : β → Compile α} (hx : Follows env x y p q)
    (hf : ∀ b, Follows env (f b) (g b) p q) : Follows env (x >>= f) (y >>= g) p q := by
  intro s t hs ht a s'' h
  obtain ⟨b, s', hxs, hfs⟩ := exec_bind_ok.mp h
  obtain ⟨t', hyt, hs', ht'⟩ := hx s t hs ht b s' hxs
  obtain ⟨t'', hgt, hs'', ht''⟩ := hf b s' t' hs' ht' a s'' hfs
  exact ⟨t'', exec_bind_ok.mpr ⟨b, t', hyt, hgt⟩, hs'', ht''⟩

theorem mapM {γ δ : Type} {f : γ → Compile α} {g : δ → Compile α} {l : List γ} {l' : List δ}
    (h : List.Forall₂ (fun a b => Follows env (f a) (g b) p q) l l') :
    Follows env (l.mapM f) (l'.mapM g) p q := by
  induction h with
  | nil => exact pure []
  | cons ha _ ih =>
    rw [List.mapM_cons, List.mapM_cons]
    exact ha.bind fun a => ih.bind fun as => pure (a :: as)

/-- Computations that agree follow each other. -/
theorem of_agrees {x y : Compile α}
    (h : ∀ s t, Drifted env p s → Drifted env q t → Agrees env x y s t) :
    Follows env x y p q := by
  intro s t hs ht a s' hx
  obtain ⟨outcome, md, md', hxs, hyt, hg, hg'⟩ := h s t hs ht _ _ (.refl _) (.refl _)
  have hxs : exec x s = (outcome, { s with metadata := md }) := hxs
  obtain ⟨rfl, rfl⟩ := Prod.mk.inj (hxs.symm.trans hx)
  exact ⟨_, hyt, hs.trans (.looked ⟨md, hg, rfl⟩), ht.trans (.looked ⟨md', hg', rfl⟩)⟩

/-- Computations that start with a look at the state. -/
theorem get {f g : Progress → Compile α}
    (h : ∀ s t, Drifted env p s → Drifted env q t → Follows env (f s) (g t) p q) :
    Follows env (MonadState.get >>= f) (MonadState.get >>= g) p q := by
  intro s t hs ht a s' hx
  exact h s t hs ht s t hs ht a s' hx

/-- Computations that start with the label of a node. -/
theorem labelOf {f g : Label → Compile α}
    (h : Follows env (f (p.draft.arena.label n)) (g (q.draft.arena.label m)) p q) :
    Follows env (labelOf n >>= f) (Compile.labelOf m >>= g) p q := by
  intro s t hs ht a s' hx
  rw [exec_bind] at hx ⊢
  have hx : exec (f (s.draft.arena.label n)) s = _ := hx
  show ∃ t', exec (g (t.draft.arena.label m)) t = _ ∧ _
  rw [hs.draft_eq] at hx
  rw [ht.draft_eq]
  exact h s t hs ht a s' hx

/-- Computations that start with the children of a node. -/
theorem childrenOf {f g : List NodeId → Compile α}
    (h : Follows env (f (p.draft.arena.children n)) (g (q.draft.arena.children m)) p q) :
    Follows env (childrenOf n >>= f) (Compile.childrenOf m >>= g) p q := by
  intro s t hs ht a s' hx
  rw [exec_bind] at hx ⊢
  have hx : exec (f (s.draft.arena.children n)) s = _ := hx
  show ∃ t', exec (g (t.draft.arena.children m)) t = _ ∧ _
  rw [hs.draft_eq] at hx
  rw [ht.draft_eq]
  exact h s t hs ht a s' hx

end Follows

/-! ## Scopes -/

/-- The end of a scope forgets its path outside of scopes only. -/
theorem closeScope_drifted (fragments : List Fragment) (t : Progress) :
    Drifted env t (closeScope fragments t).2 := by
  unfold closeScope
  split
  · rfl
  · next hdepth => exact ⟨.refl _, rfl, rfl, rfl, .inl (Nat.eq_zero_of_not_pos hdepth)⟩

/-- Leaving a scope again is a drift. -/
theorem Drifted.leave (h : Drifted env { s with scopeDepth := s.scopeDepth + 1 } t) :
    Drifted env s { t with scopeDepth := t.scopeDepth - 1 } where
  grows := h.grows
  draft_eq := h.draft_eq
  aggregating_eq := h.aggregating_eq
  scopeDepth_eq := by
    show t.scopeDepth - 1 = s.scopeDepth
    rw [h.scopeDepth_eq]
    rfl
  scopePath_eq := .inr (h.scopePath_eq.resolve_left (Nat.succ_ne_zero _))

/-- **Scopes** follow each other if they find the same path and their children do so inside. -/
theorem scope_follows {recur recur' : NodeId → Compile Fragment} (hpeers : Peers env p q)
    (hpath : ∀ s t, Drifted env p s → Drifted env q t →
      Agrees env (sharedPath env n) (sharedPath env m) s t)
    (hchildren : ∀ s t, s.draft = p.draft → t.draft = q.draft →
      p.metadata.Grows env.resolver s.metadata → q.metadata.Grows env.resolver t.metadata →
      Peers env s t → Follows env ((p.draft.arena.children n).mapM recur)
        ((q.draft.arena.children m).mapM recur') s t) :
    Follows env (scope env recur n) (scope env recur' m) p q := by
  have hclauses : ∀ s t, Drifted env p s → Drifted env q t → s.scopePath = t.scopePath →
      ∀ F s', exec (scopeClauses recur (p.draft.arena.children n)) s = (.ok F, s') →
        ∃ t', exec (scopeClauses recur' (q.draft.arena.children m)) t = (.ok F, t') ∧
          Drifted env p s' ∧ Drifted env q t' := by
    intro s t hs ht hsame F s' h
    obtain ⟨fragments, u, hu, hclose⟩ := (exec_scopeClauses_ok _).mp h
    have hst := hs.peers ht hpeers
    have hentered : Peers env { s with scopeDepth := s.scopeDepth + 1 }
        { t with scopeDepth := t.scopeDepth + 1 } :=
      ⟨hst.faithful_left, hst.faithful_right, hst.aggregating_eq,
        congrArg (· + 1) hst.scopeDepth_eq, .inr hsame.symm, hst.arrayData_eq⟩
    obtain ⟨u', hu', hdrift, hdrift'⟩ := hchildren { s with scopeDepth := s.scopeDepth + 1 }
      { t with scopeDepth := t.scopeDepth + 1 } hs.draft_eq ht.draft_eq hs.grows ht.grows hentered
      _ _ (.refl _) (.refl _) fragments u hu
    obtain ⟨hF, rfl⟩ := Prod.mk.inj hclose
    refine ⟨_, (exec_scopeClauses_ok _).mpr ⟨fragments, u', hu', Prod.ext ?_ rfl⟩,
      (hs.trans hdrift.leave).trans (closeScope_drifted ..),
      (ht.trans hdrift'.leave).trans (closeScope_drifted ..)⟩
    rw [hF]
    refine closeScope_congr fragments ?_ ?_
    · rw [hdrift.leave.scopeDepth_eq, hdrift'.leave.scopeDepth_eq, hst.scopeDepth_eq]
    · show u.scopePath = u'.scopePath
      rw [hdrift.scopePath_eq.resolve_left (Nat.succ_ne_zero _),
        hdrift'.scopePath_eq.resolve_left (Nat.succ_ne_zero _)]
      exact hsame
  intro s t hs ht F s' h
  have hst := hs.peers ht hpeers
  rw [exec_scope] at h ⊢
  rw [hs.draft_eq] at h
  rw [ht.draft_eq, hst.scopeDepth_eq]
  split at h
  · next hzero =>
    rw [if_pos hzero]
    obtain ⟨outcome, md, md', hxs, hyt, hg, hg'⟩ := hpath s t hs ht _ _ (.refl _) (.refl _)
    have hxs : exec (sharedPath env n) s = (outcome, { s with metadata := md }) := hxs
    have hyt : exec (sharedPath env m) t = (outcome, { t with metadata := md' }) := hyt
    rw [hxs] at h
    rw [hyt]
    cases outcome with
    | error error => exact absurd (congrArg Prod.fst h) (by simp)
    | ok path =>
      -- outside of scopes the old path does not matter
      have hs' : Drifted env s { s with metadata := md, scopePath := path } :=
        ⟨hg, rfl, rfl, rfl, .inl hzero⟩
      have ht' : Drifted env t { t with metadata := md', scopePath := path } :=
        ⟨hg', rfl, rfl, rfl, .inl (hst.scopeDepth_eq.trans hzero)⟩
      exact hclauses _ _ (hs.trans hs') (ht.trans ht') rfl F s' h
  · next hdepth =>
    rw [if_neg hdepth]
    exact hclauses s t hs ht (hst.scopePath_eq.resolve_left hdepth).symm F s' h

/-! ## Predicates -/

/-- **A compiled predicate** with its boost. -/
def predicate (env : Environment) (label : Label) : Compile Fragment := do
  return (← leaf env label).weighted label.boost

/-- **Alike**: two states compile the predicates of a query alike. Either they are peers and the
predicates consult the same facts, or the query is plain and its predicates are compiled to the same
fragments. -/
def Alike (env : Environment) (p q : Progress) (tree : Tree) : Prop :=
  (Peers env p q ∧ ∀ label ∈ tree.preorder, label.kind.isLeaf = true → SameFacts env p q label) ∨
    (tree.IsPlain ∧ ∀ label ∈ tree.predicates,
      (exec (predicate env label) p).1 = (exec (predicate env label) q).1)

/-- A plain query is compiled alike to what its predicates are. -/
theorem Alike.child {label : Label} {children : List Tree} (h : Alike env p q (.node label children))
    {tree : Tree} (htree : tree ∈ children)
    (hmem : ∀ l ∈ tree.predicates, l ∈ (Query.Tree.node label children).predicates) :
    Alike env p q tree := by
  rcases h with ⟨hpeers, hfacts⟩ | ⟨hplain, hsame⟩
  · refine .inl ⟨hpeers, fun l hl => hfacts l ?_⟩
    rw [Tree.preorder_node]
    exact List.mem_cons_of_mem _ (Tree.mem_preorders.mpr ⟨tree, htree, hl⟩)
  · exact .inr ⟨hplain.child htree, fun l hl => hsame l (hmem l hl)⟩

/-- Predicates that consult the same facts. -/
theorem predicate_agrees {label : Label} (hp : Peers env p q) (hs : SameFacts env p q label) :
    Agrees env (predicate env label) (predicate env label) p q :=
  (leaf_agrees hp hs).bind fun _ => .pure _

/-- A predicate is compiled to the same fragment after a drift. -/
theorem predicate_drifted (hp : Sound env p) (h : Drifted env p s) (label : Label) :
    (exec (predicate env label) s).1 = (exec (predicate env label) p).1 ∧
      Drifted env p (exec (predicate env label) s).2 := by
  have hpeers : Peers env p s := (Drifted.refl p).peers h (Sound.peers hp)
  have hfacts : SameFacts env p s label := by
    unfold SameFacts
    rw [h.grows.factsOf_eq]
  obtain ⟨outcome, md, md', hx, hy, -, hg⟩ :=
    predicate_agrees hpeers hfacts _ _ (.refl _) (.refl _)
  have hx : exec (predicate env label) p = (outcome, { p with metadata := md }) := hx
  have hy : exec (predicate env label) s = (outcome, { s with metadata := md' }) := hy
  rw [hx, hy]
  exact ⟨rfl, h.trans (.looked ⟨md', hg, rfl⟩)⟩

/-- Predicates that are compiled to the same fragment follow each other. -/
theorem predicate_follows {label : Label} (hp : Sound env p) (hq : Sound env q)
    (h : (exec (predicate env label) p).1 = (exec (predicate env label) q).1) :
    Follows env (predicate env label) (predicate env label) p q := by
  intro s t hs ht F s' hx
  obtain ⟨hsame, hdrift⟩ := predicate_drifted hp hs label
  obtain ⟨hsame', hdrift'⟩ := predicate_drifted hq ht label
  rw [hx] at hsame hdrift
  refine ⟨(exec (predicate env label) t).2, Prod.ext ?_ rfl, hdrift, hdrift'⟩
  rw [hsame', ← h, ← hsame]

/-! ## Whole queries -/

section Answered

variable (executor : Executor)

theorem answeredBy_scope : scope (env.answeredBy executor) = scope env := rfl

theorem answeredBy_joined : joined (env.answeredBy executor) = joined env := rfl

theorem answeredBy_nearWithin (k : Nat) :
    nearWithin (env.answeredBy executor) k = nearWithin env k := by
  induction k with
  | zero => rfl
  | succ k ih =>
    funext label id
    unfold nearWithin
    rw [ih]
    rfl

theorem answeredBy_proximity : proximity (env.answeredBy executor) = proximity env := by
  funext label id
  unfold proximity
  simp only [answeredBy_nearWithin]

theorem answeredBy_leaf : leaf (env.answeredBy executor) = leaf env := rfl

end Answered

/-- Two lists of nodes that hold the same trees, node by node. -/
theorem forall₂_of_holdsAll {arena arena' : Arena} {R : NodeId → NodeId → Prop}
    {trees : List Tree} {ids ids' : List NodeId} (h : arena.HoldsAll ids trees)
    (h' : arena'.HoldsAll ids' trees)
    (hR : ∀ tree ∈ trees, ∀ c ∈ ids, ∀ c' ∈ ids', arena.Holds c tree → arena'.Holds c' tree → R c c') :
    List.Forall₂ R ids ids' := by
  induction trees generalizing ids ids' with
  | nil =>
    rw [Arena.holdsAll_nil.mp h, Arena.holdsAll_nil.mp h']
    exact .nil
  | cons tree rest ih =>
    obtain ⟨c, later, rfl, hc, hlater⟩ := Arena.holdsAll_cons.mp h
    obtain ⟨c', later', rfl, hc', hlater'⟩ := Arena.holdsAll_cons.mp h'
    refine .cons (hR tree List.mem_cons_self c List.mem_cons_self c' List.mem_cons_self hc hc') ?_
    exact ih hlater hlater' fun tree htree d hd d' hd' => hR tree (List.mem_cons_of_mem _ htree)
      d (List.mem_cons_of_mem _ hd) d' (List.mem_cons_of_mem _ hd')

/-- The first child of a parent or child scope. -/
theorem joined_follows {recur recur' : NodeId → Compile Fragment} (join : Fragment → Fragment)
    {trees : List Tree} (hheld : p.draft.arena.HoldsAll (p.draft.arena.children n) trees)
    (hheld' : q.draft.arena.HoldsAll (q.draft.arena.children m) trees)
    (hfirst : ∀ tree rest, trees = tree :: rest → ∀ c ∈ p.draft.arena.children n,
      ∀ c' ∈ q.draft.arena.children m, p.draft.arena.Holds c tree → q.draft.arena.Holds c' tree →
        Follows env (recur c) (recur' c') p q) :
    Follows env (joined env recur join n) (joined env recur' join m) p q := by
  unfold joined
  refine .childrenOf ?_
  cases trees with
  | nil =>
    rw [Arena.holdsAll_nil.mp hheld, Arena.holdsAll_nil.mp hheld']
    exact .pure _
  | cons tree rest =>
    obtain ⟨c, later, hids, hc, -⟩ := Arena.holdsAll_cons.mp hheld
    obtain ⟨c', later', hids', hc', -⟩ := Arena.holdsAll_cons.mp hheld'
    have hfollows := hfirst tree rest rfl c (by simp [hids]) c' (by simp [hids']) hc hc'
    rw [hids, hids']
    exact hfollows.bind fun fragment => .pure _

/-- **Parts that follow each other**: the children of two nodes that hold the same trees, compiled in
states of their own where they are in a scope. -/
def PartsFollow (env : Environment) (recur recur' : NodeId → Compile Fragment) (p q : Progress)
    (n m : NodeId) (children : List Tree) : Prop :=
  ∀ s t : Progress, s.draft = p.draft → t.draft = q.draft → Sound env s → Sound env t →
    t.aggregating = s.aggregating → ∀ tree ∈ children, Alike env s t tree →
    ∀ c ∈ p.draft.arena.children n, ∀ c' ∈ q.draft.arena.children m,
      p.draft.arena.Holds c tree → q.draft.arena.Holds c' tree →
      Follows env (recur c) (recur' c') s t

section Parts

variable {recur recur' : NodeId → Compile Fragment} {label : Label} {children : List Tree}
  (hp : Sound env p) (hq : Sound env q) (hn : p.draft.arena.Holds n (.node label children))
  (hm : q.draft.arena.Holds m (.node label children))
  (halike : Alike env p q (.node label children))
  (hparts : PartsFollow env recur recur' p q n m children)

include hp hq hn hm halike hparts

/-- The children of a connective. -/
theorem clauses_follow (haggregating : q.aggregating = p.aggregating)
    (hpredicates : (Query.Tree.node label children).predicates = Tree.predicatesOf children)
    (wrap : List Fragment → Fragment) :
    Follows env (do return wrap (← (← childrenOf n).mapM recur))
      (do return wrap (← (← childrenOf m).mapM recur')) p q := by
  refine .childrenOf ((Follows.mapM ?_).bind fun fragments => .pure _)
  refine forall₂_of_holdsAll (Arena.holds_node.mp hn).2 (Arena.holds_node.mp hm).2 fun tree htree =>
    hparts p q rfl rfl hp hq haggregating tree htree (halike.child htree fun l hl => ?_)
  rw [hpredicates]
  exact Tree.mem_predicatesOf.mpr ⟨tree, htree, hl⟩

/-- The first child of a parent or child scope. -/
theorem first_follows (haggregating : q.aggregating = p.aggregating)
    (hkind : (∃ typeName, label.kind = .child typeName) ∨ ∃ typeName, label.kind = .parent typeName)
    (join : Fragment → Fragment) :
    Follows env (joined env recur join n) (joined env recur' join m) p q := by
  refine joined_follows join (Arena.holds_node.mp hn).2 (Arena.holds_node.mp hm).2 ?_
  rintro tree rest rfl
  refine hparts p q rfl rfl hp hq haggregating tree List.mem_cons_self
    (halike.child List.mem_cons_self fun l hl => ?_)
  rwa [Tree.predicates_joined hkind]

/-- The children of a scope, once its path is found. A plain query has no scopes. -/
theorem scoped_follow (hkind : label.kind = .scope) :
    Follows env (scope env recur n) (scope env recur' m) p q := by
  rcases halike with ⟨hpeers, hfacts⟩ | ⟨hplain, -⟩
  · refine scope_follows hpeers ?_ fun s t hs ht hgs hgt hst => Follows.mapM ?_
    · intro s t hs ht
      refine sharedPath_agrees (hs.peers ht hpeers) (hs.sound hp).ascending
        (ht.sound hq).ascending ?_ ?_ fun l hl hleaf => hs.sameFacts ht (hfacts l hl hleaf)
      · rwa [hs.draft_eq]
      · rwa [ht.draft_eq]
    · refine forall₂_of_holdsAll (Arena.holds_node.mp hn).2 (Arena.holds_node.mp hm).2
        fun tree htree => hparts s t hs ht ⟨hs ▸ hp.ascending, hgs.faithful hp.faithful⟩
          ⟨ht ▸ hq.ascending, hgt.faithful hq.faithful⟩ hst.aggregating_eq tree htree
          (.inl ⟨hst, ?_⟩)
      intro l hl hleaf
      have hfact := hfacts l (by
        rw [Tree.preorder_node]
        exact List.mem_cons_of_mem _ (Tree.mem_preorders.mpr ⟨tree, htree, hl⟩)) hleaf
      unfold SameFacts at hfact ⊢
      rwa [hgs.factsOf_eq, hgt.factsOf_eq]
  · have hlabelPlain := hplain label (by simp)
    rw [hkind] at hlabelPlain
    exact absurd hlabelPlain (by simp [Kind.isPlain])

omit hparts in
/-- A proximity. A plain query has none. -/
theorem proximity_follows (hnlt : n < p.draft.arena.size) (hmlt : m < q.draft.arena.size)
    {distance : Nat} {ordered : Bool} (hkind : label.kind = .proximity distance ordered) :
    Follows env (proximity env label n) (proximity env label m) p q := by
  rcases halike with ⟨hpeers, hfacts⟩ | ⟨hplain, -⟩
  · refine .of_agrees fun s t hs ht => ?_
    rw [← hs.draft_eq] at hn hnlt
    rw [← ht.draft_eq] at hm hmlt
    exact proximity_agrees (hs.peers ht hpeers) (hs.sound hp).ascending (ht.sound hq).ascending
      label hn hm (fun l hl hleaf => hs.sameFacts ht (hfacts l hl hleaf)) hnlt hmlt
  · have hlabelPlain := hplain label (by simp)
    rw [hkind] at hlabelPlain
    exact absurd hlabelPlain (by simp [Kind.isPlain])

omit hn hm hparts in
/-- A predicate. -/
theorem leaf_follows (hleaf : label.kind.isLeaf = true) :
    Follows env (predicate env label) (predicate env label) p q := by
  rcases halike with ⟨hpeers, hfacts⟩ | ⟨-, hsame⟩
  · exact .of_agrees fun s t hs ht =>
      predicate_agrees (hs.peers ht hpeers) (hs.sameFacts ht (hfacts label (by simp) hleaf))
  · exact predicate_follows hp hq (hsame label (by rw [Tree.predicates_leaf hleaf]; simp))

end Parts

/-- **Compilations of the same query** follow each other, if the second one may go deep enough. They
may have different executors, which they do not ask for anything. -/
theorem nodeWithin_follows_answered (executor : Executor) (fuel : Nat) :
    ∀ {bound n m : Nat} {p q : Progress} {tree : Tree},
    q.aggregating = p.aggregating → Sound env p → Sound env q → p.draft.arena.Holds n tree →
    q.draft.arena.Holds m tree → n < p.draft.arena.size → m < q.draft.arena.size →
    (∀ label ∈ tree.preorder, label.kind.isExpansion = false) → Alike env p q tree →
    tree.size ≤ bound →
    Follows env (nodeWithin env fuel n) (nodeWithin (env.answeredBy executor) bound m) p q := by
  induction fuel with
  | zero =>
    intro bound n m p q tree _ _ _ _ _ _ _ _ _ _ s t _ _ F s' h
    exact absurd (congrArg Prod.fst h) (by simp [nodeWithin, exec])
  | succ fuel ih =>
    intro bound n m p q tree haggregating hp hq hn hm hnlt hmlt hlocal halike hbound
    obtain ⟨label, children⟩ := tree
    rw [Tree.size_node] at hbound
    obtain ⟨bound, rfl⟩ : ∃ k, bound = k + 1 := ⟨bound - 1, by omega⟩
    rw [Tree.preorder_node] at hlocal
    -- the induction hypothesis for the parts of the query, wherever they are held
    have hparts : PartsFollow env (nodeWithin env fuel) (nodeWithin (env.answeredBy executor) bound)
        p q n m children := by
      intro s t hs ht hsound hsound' hst tree htree halike c hc c' hc' hheld hheld'
      have hsize := Tree.size_le_sizes htree
      refine ih hst hsound hsound' ?_ ?_ ?_ ?_ ?_ halike (by omega)
      · rwa [hs]
      · rwa [ht]
      · rw [hs]
        exact hp.ascending.child_lt n c hc
      · rw [ht]
        exact hq.ascending.child_lt m c' hc'
      · exact fun l hl =>
          hlocal l (List.mem_cons_of_mem _ (Tree.mem_preorders.mpr ⟨tree, htree, hl⟩))
    have hclauses := fun hpredicates wrap =>
      clauses_follow hp hq hn hm halike hparts haggregating hpredicates wrap
    have hfirst := fun hkind join => first_follows hp hq hn hm halike hparts haggregating hkind join
    -- one case for each branch of the compiler, in its order
    unfold nodeWithin node
    simp only [answeredBy_scope, answeredBy_joined, answeredBy_proximity, answeredBy_leaf]
    refine .labelOf ?_
    rw [(Arena.holds_node.mp hn).1, (Arena.holds_node.mp hm).1]
    split
    · next hkind =>
      exact hclauses (Tree.predicates_node (by rw [hkind]; rfl) (by simp [hkind]) (by simp [hkind])) _
    · next hkind =>
      exact hclauses (Tree.predicates_node (by rw [hkind]; rfl) (by simp [hkind]) (by simp [hkind])) _
    · next hkind =>
      refine .get fun s t hs ht => ?_
      rw [ht.aggregating_eq, hs.aggregating_eq, haggregating]
      split
      · exact .pure _
      · exact hclauses
          (Tree.predicates_node (by rw [hkind]; rfl) (by simp [hkind]) (by simp [hkind])) _
    · next hkind => exact scoped_follow hp hq hn hm halike hparts hkind
    · next typeName hkind => exact hfirst (.inl ⟨typeName, hkind⟩) _
    · next typeName hkind =>
      refine .get fun s t hs ht => ?_
      rw [ht.aggregating_eq, hs.aggregating_eq, haggregating]
      split
      · exact .pure _
      · exact hfirst (.inr ⟨typeName, hkind⟩) _
    · next link generated hkind =>
      have hnot := hlocal label List.mem_cons_self
      rw [hkind] at hnot
      exact absurd hnot (by simp [Kind.isExpansion])
    · next distance ordered hkind =>
      exact (proximity_follows hp hq hn hm halike hnlt hmlt hkind).bind fun fragment => .pure _
    · next hconj hdisj hneg hscope hchildKind hparent hexp hprox =>
      exact leaf_follows hp hq halike (by cases hk : label.kind <;> simp_all [Kind.isLeaf])

/-- **Compilations of the same query** with the same executor. -/
theorem nodeWithin_follows (fuel : Nat) {bound n m : Nat} {p q : Progress} {tree : Tree}
    (haggregating : q.aggregating = p.aggregating) (hp : Sound env p) (hq : Sound env q)
    (hn : p.draft.arena.Holds n tree) (hm : q.draft.arena.Holds m tree)
    (hnlt : n < p.draft.arena.size) (hmlt : m < q.draft.arena.size)
    (hlocal : ∀ label ∈ tree.preorder, label.kind.isExpansion = false) (halike : Alike env p q tree)
    (hbound : tree.size ≤ bound) :
    Follows env (nodeWithin env fuel n) (nodeWithin env bound m) p q :=
  nodeWithin_follows_answered env.executor fuel haggregating hp hq hn hm hnlt hmlt hlocal halike hbound

end Compile

end LinkedSearch
