import LinkedSearch.Proofs.Framing
import LinkedSearch.Proofs.Meaning
import LinkedSearch.Proofs.Starting

/-! # Expansions compute semi-joins

On a cluster in memory, the fragment that a query is compiled to holds of the same documents as the
query itself, whose expansions are read as semi-joins.

The draft is rewritten while it is compiled, so the proof follows the tree that the arena holds: the
resolution of a stack of expansions replaces it by a tree with the same meaning, in which predicates
on collected values stand in the place of expansions.

* `Link.Joinable`, `Joining`: the links and the surroundings that are considered.
* `Joining.meaning`: the meaning of a query, for which predicates are compiled as they would be at
  the start.
* `resolve_same`: a predicate on collected values means the same as the expansion that it replaces.
* `stack_same`, `nodeWithin_means`: so do resolved stacks, and compiled queries.
* `query_semijoin`: the fragment of a whole query. -/

namespace LinkedSearch

open Query (Arena Draft Kind Label NodeId Tree)
open Schema (Mapping)

/-! ## Surroundings -/

/-- **Joinable links**: their fields are not addressed by name, they are not the primary link itself,
their left field is not nested in the mapping of its owner, and no value of their right field is an
object. -/
structure Link.Joinable (cluster : Cluster) (metadata : Metadata) (link : Link) : Prop where
  unnamed : link.name = none
  foreign : link ≠ metadata.primary
  flat : ∀ mapping, metadata.ownerMapping cluster.resolver link.leftField = .ok mapping →
    mapping.nestedPath? link.leftField = none
  plain : ∀ document ∈ cluster.documentsOf link.index,
    ∀ value ∈ Document.values document link.rightField, value.isObject = false

/-- **Joining**: a cluster in memory without join paths of its own, settings that keep to the primary
index, and a state in which nothing was compiled yet. -/
structure Joining (cluster : Cluster) (env : Environment) (start : Progress) : Prop where
  resolver_eq : env.resolver = cluster.resolver
  executor_eq : env.executor = cluster.executor
  allowSingleIndex_eq : env.settings.allowSingleIndex = false
  joinPaths_eq : cluster.joinPaths = []
  /-- No name of an index contains the colon that ends it in a hop. -/
  names : ∀ index mapping, cluster.mapping index = .ok mapping → ':' ∉ index.toList
  primary_mapped : ∃ mapping, cluster.mapping start.metadata.primary.index = .ok mapping
  sound : Sound env start
  aggregating_eq : start.aggregating = false
  scopeDepth_eq : start.scopeDepth = 0
  generated_eq : start.generated = []

/-- **Meaning**: a predicate holds of the documents that satisfy what it is compiled to. -/
def Joining.meaning (cluster : Cluster) (env : Environment) (start : Progress) : Semantics where
  predicate label document :=
    match (exec (Compile.leaf env label) start).1 with
    | .ok fragment => (fragment.weighted label.boost).holds document
    | .error _ => false
  documents := cluster.documentsOf

namespace Hop

/-- The two ends of a hop, if the name of its index contains no colon. -/
theorem split_of {index : String} (h : ':' ∉ index.toList) (field : String) :
    splitTextFirst? ':' (Hop.of index field) = some (index, field) :=
  splitTextFirst?_of h (by simp [Hop.of])

/-- The field of a hop. -/
theorem field_of {index : String} (h : ':' ∉ index.toList) (field : String) :
    Hop.field (Hop.of index field) = field := by rw [Hop.field, split_of h]

/-- The index of a hop. -/
theorem index_of {index : String} (h : ':' ∉ index.toList) (field : String) :
    Hop.index (Hop.of index field) = index := by rw [Hop.index, split_of h]

end Hop

/-- The path from the primary link to another one leads from field to field. -/
theorem Joining.joinPath_eq {cluster : Cluster} {env : Environment} {start : Progress}
    (hj : Joining cluster env start) {target link : Link} {path : List String}
    (h : env.resolver.joinPath target link = .ok path) :
    path = [Hop.of target.index link.leftField, Hop.of link.index link.rightField] := by
  rw [hj.resolver_eq] at h
  simp only [Cluster.resolver, Cluster.joinPath, hj.joinPaths_eq, List.find?_nil] at h
  exact (Except.ok.inj h).symm

namespace Compile

variable {cluster : Cluster} {env : Environment} {start p q s : Progress} {n m v : Nat}

/-- **Under way**: a state to which a compilation has led, with no parent scope anywhere. -/
structure UnderWay (env : Environment) (start p : Progress) : Prop where
  evolves : Evolves env start p
  parentless : ∀ i, (p.draft.arena.label i).kind.isParent = false

namespace UnderWay

theorem sound (h : UnderWay env start p) : Sound env p := h.evolves.sound

theorem calm (h : UnderWay env start p) (n : Nat) : Calm p.draft n := .inl h.parentless

theorem next (h : UnderWay env start p) (hpq : Evolves env p q) : UnderWay env start q :=
  ⟨h.evolves.trans hpq, hpq.parentless h.parentless⟩

end UnderWay

/-! ## Predicates -/

/-- A predicate is compiled to the same fragment at any time. -/
theorem UnderWay.leaf_eq (hj : Joining cluster env start) (h : UnderWay env start p)
    (label : Label) : (exec (leaf env label) p).1 = (exec (leaf env label) start).1 := by
  have hpeers : Peers env start p :=
    ⟨hj.sound.faithful, h.sound.faithful, h.evolves.aggregating_eq, h.evolves.scopeDepth_eq,
      .inl hj.scopeDepth_eq, h.evolves.arrayData_eq⟩
  have hfacts : SameFacts env start p label := by
    unfold SameFacts
    rw [h.evolves.grows.factsOf_eq]
  obtain ⟨outcome, md, md', hx, hy, -, -⟩ := leaf_agrees hpeers hfacts _ _ (.refl _) (.refl _)
  have hx : exec (leaf env label) start = _ := hx
  have hy : exec (leaf env label) p = _ := hy
  rw [hx, hy]

/-- **Collected values** as a predicate: one of them matches a value of the field. -/
theorem predicate_values (hj : Joining cluster env start) {left : String} {mapping : Mapping}
    (howner : start.metadata.ownerMapping env.resolver left = .ok mapping)
    (hflat : mapping.nestedPath? left = none) (values : List Json) (hits : Nat) (boost : Boost)
    (document : Json) :
    (Joining.meaning cluster env start).predicate
        { valuesLabel left values hits with boost } document =
      values.any fun value => (Document.values document left).any (·.hasTerm value) := by
  obtain ⟨s, hexec, md, -, rfl⟩ := exec_mappingOf hj.sound left
  rw [howner] at hexec
  have hpath : exec (nestedPathOf env { valuesLabel left values hits with boost }) start =
      (.ok none, { start with metadata := md }) := by
    show exec (mappingOf env left >>= fun found => pure (found.nestedPath? left)) start = _
    rw [exec_bind, hexec]
    show exec (pure (mapping.nestedPath? left) : Compile (Option String)) _ = _
    rw [hflat]
    rfl
  -- without a path around it the leaf is the list of the values itself
  have hleaf : exec (leaf env { valuesLabel left values hits with boost }) start =
      (.ok (.terms left values none none), { start with metadata := md }) := by
    show exec (nestedPathOf env { valuesLabel left values hits with boost } >>= _) start = _
    rw [exec_bind, hpath]
    show exec (do
      return if (← get).aggregating then Fragment.matchAll none
        else .terms left values none none) { start with metadata := md } = _
    rw [exec_bind]
    show ((.ok (if start.aggregating then _ else _), _) : Except Error Fragment × Progress) = _
    rw [hj.aggregating_eq]
    rfl
  unfold Joining.meaning
  simp only [hleaf, Fragment.holds_weighted, Fragment.holds, Option.getD_none]
  rw [Bool.eq_iff_iff]
  simp [List.one_le_countP_iff, List.countP_pos_iff]

/-- **A substituted predicate** is held in the place of the expansion, with the boost of it. -/
theorem substituted_holds (hasc : q.draft.arena.Ascending) (hv : Fresh q n v)
    (hplain : (q.draft.arena.label v).boost = none) (boost : Boost) :
    (substituted q.draft.arena n v boost).Holds n
      (.node { q.draft.arena.label v with boost } []) := by
  have hne : n ≠ v := Nat.ne_of_lt hv.later
  have hn : n < q.draft.arena.size := Nat.lt_trans hv.later hv.lt_size
  have hloop := hasc.not_mem_children_self v
  have hlabel : (q.draft.arena.replace n v).label n = q.draft.arena.label v := by
    rw [Arena.label_replace hne hn hv.lt_size hloop, if_pos rfl]
  have hchildren : (q.draft.arena.replace n v).children n = [] := by
    rw [Arena.children_replace hne hn hv.lt_size hloop, if_neg hne, if_pos rfl, hv.children_eq]
  unfold substituted
  refine Arena.holds_node.mpr ?_
  split
  · rw [Arena.label_modifyLabel _ n n (by rwa [Arena.size_replace]), if_pos rfl, hlabel,
      Arena.children_modifyLabel, hchildren]
    exact ⟨rfl, Arena.holdsAll_nil.mpr rfl⟩
  · next hnone =>
    rw [hlabel, hchildren]
    refine ⟨?_, Arena.holdsAll_nil.mpr rfl⟩
    have hboost : boost = none := by simpa using hnone
    rw [hboost, ← hplain]

/-! ## Resolved expansions -/

/-- **Meaning kept** by a compiler of nodes: what it compiles a join query to holds of the same
documents as the query. -/
def Means (cluster : Cluster) (env : Environment) (start : Progress)
    (recur : NodeId → Compile Fragment) : Prop :=
  ∀ (n : Nat) (p q : Progress) (fragment : Fragment) (tree : Tree), UnderWay env start p →
    n < p.draft.arena.size → p.draft.arena.Holds n tree →
    tree.IsJoinQuery (Link.Joinable cluster start.metadata) →
    exec (recur n) p = (.ok fragment, q) →
    (Joining.meaning cluster env start).Renders fragment tree

section Resolved

variable {recur : NodeId → Compile Fragment} {link : Link} {label : Label} {tree : Tree}

/-- **Scanned values**: one of them matches a value of the left field if and only if the document is
joined with one of which the query of the expansion holds. -/
theorem scanned_any (hj : Joining cluster env start) (hmeans : Means cluster env start recur)
    (h : UnderWay env start p) (hheld : p.draft.arena.Holds n (.node label [tree]))
    (hplain : ∀ document ∈ cluster.documentsOf link.index,
      ∀ value ∈ Document.values document link.rightField, value.isObject = false)
    (htree : tree.IsJoinQuery (Link.Joinable cluster start.metadata))
    (hnotNull : tree.label.kind ≠ .notNull) {left right : String} (hleft : left = link.leftField)
    (hright : (∃ mapping, env.resolver.mapping link.index = .ok mapping) → right = link.rightField)
    (hjoins : Joins env recur n link left right p v q) :
    ∃ values hits, q.draft.arena.label v = valuesLabel link.leftField values hits ∧
      (∃ mapping, start.metadata.ownerMapping env.resolver link.leftField = .ok mapping) ∧
      ∀ document, (values.any fun value =>
          (Document.values document link.leftField).any (·.hasTerm value)) =
        (Joining.meaning cluster env start).holdsJoined link [tree] document := by
  obtain ⟨hlabel, hchildren⟩ := Arena.holds_node.mp hheld
  obtain ⟨c, later, hids, hc, hlater⟩ := Arena.holdsAll_cons.mp hchildren
  have hchild : p.draft.arena.child? n 0 = some c := by rw [Arena.child?, hids]; rfl
  have hmem : c ∈ p.draft.arena.children n := by simp [hids]
  have hlt := h.sound.ascending.child_lt n c hmem
  -- more than the key is asked for, so that the index was scanned
  cases hjoins with
  | keys m _ hquery hkind _ _ =>
    obtain rfl : c = m := Option.some.inj (hchild.symm.trans hquery)
    rw [hc.label_eq] at hkind
    exact absurd hkind hnotNull
  | scan m s t u _ filter post values hits hquery hlooked hexec hevolves hsees hevolves' hrun hdraft _ hindex howner =>
    obtain rfl := hright hindex
    subst hleft
    obtain rfl : c = m := Option.some.inj (hchild.symm.trans hquery)
    have hs := h.next (hlooked.evolves h.sound)
    -- outside of aggregates nothing changes for the query of a scan
    have hfilter : { s with aggregating := false } = s := by
      have haggregating := hs.evolves.aggregating_eq.trans hj.aggregating_eq
      rw [← haggregating]
    rw [hfilter] at hexec
    rw [← hlooked.draft_eq] at hlt hc
    have hmeaning : ∀ other, filter.holds other =
        (Joining.meaning cluster env start).holds tree other :=
      hmeans c s t filter tree hs hlt hc htree hexec
    have ht := h.next hevolves
    obtain ⟨rfl, -⟩ := hsees.unrestricted_of_calm ht.sound (ht.calm n)
      (Nat.lt_of_lt_of_le (Arena.lt_size_of_mem_children hmem) hevolves.size_le)
    refine ⟨values, hits, ?_, ?_, fun document => ?_⟩
    · rw [hdraft]
      exact Arena.label_push_size _
    · rwa [h.evolves.grows.ownerMapping_eq] at howner
    · rw [hj.executor_eq] at hrun
      have hany := cluster.run_any_joined rfl hrun hplain (Document.values document link.leftField)
      simp only [scanRequest, Fragment.holds, hmeaning] at hany
      rw [Semantics.holdsJoined]
      exact hany

/-- **A resolved expansion**: the predicate on values that takes its place means the same. -/
theorem resolve_same {fuel : Nat} (hj : Joining cluster env start)
    (hmeans : Means cluster env start (nodeWithin env fuel)) (h : UnderWay env start p)
    (hheld : p.draft.arena.Holds n tree)
    (htree : tree.IsJoinQuery (Link.Joinable cluster start.metadata))
    (hexec : exec (resolve env (nodeWithin env fuel) p.metadata.primary p.metadata.primary n) p =
      (.ok (), q)) :
    ∃ label, q.draft.arena.Holds n (.node label []) ∧ label.kind.isLeaf = true ∧
      label.kind ≠ .notNull ∧ (Joining.meaning cluster env start).Same tree (.node label []) := by
  obtain ⟨hpq, link, v, s, hlink, hresolved, hps, rfl⟩ :=
    (wp_of_ok hexec).mp (leads_resolve fuel (nodeWithin_steps fuel) h.sound _ _ n rfl)
  obtain ⟨label, children⟩ := tree
  obtain ⟨hlabel, -⟩ := Arena.holds_node.mp hheld
  obtain ⟨generated, hkind⟩ := Kind.eq_expansion_of_link? (hlabel ▸ hlink)
  obtain ⟨rfl, hsort, query, rfl, hnotNull, hquery⟩ := htree.expansion hkind
  have hprimary := h.evolves.grows.primary_eq
  have hgenerated : (p.draft.arena.label n).kind.isGenerated = false := by rw [hlabel, hkind]; rfl
  -- a join query is not about the primary link and has no synthesized links, which leaves the join path
  cases hresolved with
  | inPlace _ _ _ hwhy _ _ =>
    rcases hwhy with hown | hallow
    · exact absurd (hown.trans hprimary) hsort.foreign
    · rw [hj.allowSingleIndex_eq] at hallow
      exact absurd hallow (by simp)
  | generated _ _ _ htrue _ _ _ =>
    rw [hgenerated] at htrue
    exact absurd htrue (by simp)
  | generatedTwice _ _ _ _ _ _ _ _ htrue _ _ _ _ _ _ =>
    rw [hgenerated] at htrue
    exact absurd htrue (by simp)
  | joined path first last t _ _ _ hpath hfirst hlast hlooked hjoins =>
    obtain rfl := hj.joinPath_eq hpath
    obtain rfl := Option.some.inj hfirst
    obtain rfl := Option.some.inj hlast
    have ht := h.next (hlooked.evolves h.sound)
    rw [← hlooked.draft_eq] at hheld
    obtain ⟨mapping, hmapping⟩ := hj.primary_mapped
    obtain ⟨values, hits, hvalues, ⟨owner, howner⟩, hany⟩ := scanned_any hj hmeans ht hheld
      hsort.plain hquery hnotNull
      (Hop.field_of (by rw [hprimary]; exact hj.names _ _ hmapping) _)
      (by
        rintro ⟨mapping, hindex⟩
        exact Hop.field_of (hj.names _ mapping (by rwa [hj.resolver_eq] at hindex)) _)
      hjoins
    refine ⟨{ valuesLabel link.leftField values hits with boost := label.boost }, ?_, rfl,
      by simp [valuesLabel], fun document => ?_⟩
    · have hsubstituted := substituted_holds hps.sound.ascending (hjoins.fresh ht.sound)
        (by rw [hvalues]; rfl) label.boost
      rw [hvalues] at hsubstituted
      rwa [hlabel]
    · have hflat := hsort.flat owner (by rwa [hj.resolver_eq] at howner)
      have hpredicate := predicate_values hj howner hflat values hits label.boost document
      rw [Semantics.holds, Semantics.holds, hkind]
      exact hpredicate.trans (hany document)

end Resolved

/-! ## Stacks of expansions -/

section Stack

variable {fuel : Nat} (hj : Joining cluster env start)
  (hmeans : Means cluster env start (nodeWithin env fuel))

/-- **The same query** in a later arena: a join query with the same meaning, which does not ask for
any value unless the old one did. -/
structure SameQuery (cluster : Cluster) (env : Environment) (start : Progress) (tree tree' : Tree) :
    Prop where
  joins : tree'.IsJoinQuery (Link.Joinable cluster start.metadata)
  same : (Joining.meaning cluster env start).Same tree tree'
  notNull : tree'.label.kind = .notNull → tree.label.kind = .notNull

/-- Queries that are the same as some join queries are join queries. -/
theorem SameQuery.areJoinQueries {trees trees' : List Tree}
    (h : List.Forall₂ (SameQuery cluster env start) trees trees') :
    Tree.AreJoinQueries (Link.Joinable cluster start.metadata) trees' := by
  induction h with
  | nil => trivial
  | cons hhead _ ih => exact ⟨hhead.joins, ih⟩

/-- What the resolution of a stack does to the query below a node. -/
def StackSame (cluster : Cluster) (env : Environment) (start : Progress) (fuel depth m : Nat)
    (p : Progress) : Prop :=
  ∀ q tree, UnderWay env start p → m < p.draft.arena.size → p.draft.arena.Holds m tree →
    tree.IsJoinQuery (Link.Joinable cluster start.metadata) →
    exec ((p.draft.arena.expansionsWithin depth m).reverse.forM
      (resolve env (nodeWithin env fuel) p.metadata.primary p.metadata.primary)) p = (.ok (), q) →
    ∃ tree', q.draft.arena.Holds m tree' ∧ SameQuery cluster env start tree tree'

/-- The stacks below some children, the last one first. -/
theorem stacks_same {depth : Nat} (ih : ∀ c p, StackSame cluster env start fuel depth c p)
    (h : UnderWay env start p) (ids : List NodeId) {trees : List Tree}
    (hids : ∀ c ∈ ids, c ∈ p.draft.arena.children m) (hnodup : ids.Nodup)
    (hheld : p.draft.arena.HoldsAll ids trees)
    (htrees : Tree.AreJoinQueries (Link.Joinable cluster start.metadata) trees)
    (hexec : exec ((ids.flatMap (p.draft.arena.expansionsWithin depth)).reverse.forM
      (resolve env (nodeWithin env fuel) p.metadata.primary p.metadata.primary)) p = (.ok (), q)) :
    ∃ trees', q.draft.arena.HoldsAll ids trees' ∧
      List.Forall₂ (SameQuery cluster env start) trees trees' := by
  induction ids generalizing q trees with
  | nil =>
    obtain ⟨-, rfl⟩ := Prod.mk.inj hexec
    cases trees with
    | nil => exact ⟨[], hheld, .nil⟩
    | cons tree rest =>
      obtain ⟨_, _, heq, _⟩ := Arena.holdsAll_cons.mp hheld
      exact absurd heq (by simp)
  | cons c rest ihr =>
    cases trees with
    | nil => exact absurd (Arena.holdsAll_nil.mp hheld) (by simp)
    | cons tree later =>
      obtain ⟨c', rest', heq, hc, hrest⟩ := Arena.holdsAll_cons.mp hheld
      obtain ⟨rfl, rfl⟩ := List.cons.inj heq
      rw [List.flatMap_cons, List.reverse_append] at hexec
      obtain ⟨s, hlater, hself⟩ := exec_forM_append_ok.mp hexec
      have hmem := hids c List.mem_cons_self
      have hm := Arena.lt_size_of_mem_children hmem
      have hrestIds := fun c' hc' => hids c' (List.mem_cons_of_mem c hc')
      obtain ⟨hnot, hnodup'⟩ := List.nodup_cons.mp hnodup
      obtain ⟨trees', hheld', hsame⟩ := ihr hrestIds hnodup' hrest htrees.2 hlater
      -- the first child is untouched while the stacks below the others are resolved
      obtain ⟨hps, hframed⟩ := stacks_framed (stack_framed (nodeWithin_framed fuel) depth) h.sound
        rfl (h.calm m) rest hrestIds hnodup' hlater
      have hapart := hframed.apart c hmem hnot
      have hstack := hframed.expansionsWithin_eq hmem hnot depth
      have hcs : s.draft.arena.Holds c tree :=
        hc.congr (fun x hx => Arena.label_congr (hapart x hx).2)
          fun x hx => Arena.children_congr (hapart x hx).2
      have hs := h.next hps
      have hmem' : c ∈ s.draft.arena.children m := by rw [hframed.children_eq]; exact hmem
      have hsize := hs.sound.ascending.child_lt m c hmem'
      rw [← hstack, ← hps.grows.primary_eq] at hself
      obtain ⟨tree', htree', hsame'⟩ := ih c s q tree hs hsize hcs htrees.1 hself
      -- and so are the others while its own stack is resolved
      obtain ⟨-, hframed'⟩ := stack_framed (nodeWithin_framed fuel) depth c s q hs.sound rfl
        (hs.calm c) hsize hself
      have hsingle := Arena.FramedAll.single hs.sound.ascending hmem' hframed'
      have hother : ∀ d ∈ rest, ∀ x, s.draft.arena.Below d x →
          q.draft.arena.slot? x = s.draft.arena.slot? x := by
        intro d hd x hx
        have hdmem : d ∈ s.draft.arena.children m := by
          rw [hframed.children_eq]
          exact hrestIds d hd
        refine (hsingle.apart d hdmem ?_ x hx).2
        intro hdc
        exact hnot (List.mem_singleton.mp hdc ▸ hd)
      refine ⟨tree' :: trees', ?_, .cons hsame' hsame⟩
      refine Arena.holdsAll_cons.mpr ⟨c, rest, rfl, htree', hheld'.congr ?_ ?_⟩
      · exact fun d hd x hx => Arena.label_congr (hother d hd x hx)
      · exact fun d hd x hx => Arena.children_congr (hother d hd x hx)

include hj hmeans

/-- **Stacks** keep the meaning of the query whose expansions they resolve. -/
theorem stack_same (depth m : Nat) (p : Progress) :
    StackSame cluster env start fuel depth m p := by
  have hresolved : ∀ {m : Nat} {p q : Progress} {tree : Tree}, UnderWay env start p →
      p.draft.arena.Holds m tree → tree.IsJoinQuery (Link.Joinable cluster start.metadata) →
      exec (resolve env (nodeWithin env fuel) p.metadata.primary p.metadata.primary m) p =
        (.ok (), q) →
      ∃ tree', q.draft.arena.Holds m tree' ∧ SameQuery cluster env start tree tree' := by
    intro m p q tree h hheld htree hexec
    obtain ⟨label, hholds, hleaf, hnotNull, hsame⟩ := resolve_same hj hmeans h hheld htree hexec
    exact ⟨_, hholds, Tree.isJoinQuery_leaf hleaf, hsame, fun heq => absurd heq hnotNull⟩
  induction depth generalizing m p with
  | zero =>
    intro q tree h hm hheld htree hexec
    rw [Arena.expansionsWithin] at hexec
    split at hexec
    · rw [List.reverse_singleton, exec_forM_singleton] at hexec
      exact hresolved h hheld htree hexec
    · obtain ⟨-, rfl⟩ := Prod.mk.inj hexec
      exact ⟨tree, hheld, htree, fun _ => rfl, id⟩
  | succ depth ih =>
    intro q tree h hm hheld htree hexec
    obtain ⟨label, children⟩ := tree
    obtain ⟨hlabel, hchildren⟩ := Arena.holds_node.mp hheld
    rw [Arena.expansionsWithin, hlabel] at hexec
    split at hexec
    · next hkind =>
      rw [List.reverse_cons] at hexec
      obtain ⟨s, hinner, hself⟩ := exec_forM_append_ok.mp hexec
      rw [exec_forM_singleton] at hself
      obtain ⟨link, generated, hlink⟩ := Kind.exists_of_isExpansion hkind
      obtain ⟨rfl, hsort, query, rfl, hnotNull, hquery⟩ := htree.expansion hlink
      obtain ⟨c, later, hids, hc, hlater⟩ := Arena.holdsAll_cons.mp hchildren
      obtain rfl := Arena.holdsAll_nil.mp hlater
      have hchild : p.draft.arena.child? m 0 = some c := by rw [Arena.child?, hids]; rfl
      have hmem : c ∈ p.draft.arena.children m := by simp [hids]
      have hsize := h.sound.ascending.child_lt m c hmem
      rw [hchild] at hinner
      obtain ⟨query', hc', hsame⟩ := ih c p s query h hsize hc hquery hinner
      obtain ⟨hps, hframed⟩ := stack_framed (nodeWithin_framed fuel) depth c p s h.sound rfl
        (h.calm c) hsize hinner
      -- the expansion itself still has the query that was resolved
      have hslot := hframed.slot?_above h.sound.ascending (h.sound.ascending.lt_child m c hmem) hm
      have hheld' : s.draft.arena.Holds m (.node label [query']) := by
        refine Arena.holds_node.mpr ⟨(Arena.label_congr hslot).trans hlabel, ?_⟩
        rw [Arena.children_congr hslot, hids]
        exact Arena.holdsAll_cons.mpr ⟨c, [], rfl, hc', Arena.holdsAll_nil.mpr rfl⟩
      have htree' : (Query.Tree.node label [query']).IsJoinQuery (Link.Joinable cluster start.metadata) := by
        rw [Tree.IsJoinQuery, hlink]
        exact ⟨rfl, hsort, ⟨query', rfl, fun heq => hnotNull (hsame.notNull heq)⟩, hsame.joins, trivial⟩
      rw [← hps.grows.primary_eq] at hself
      obtain ⟨tree', htree', hsame'⟩ := hresolved (h.next hps) hheld' htree' hself
      have hnode : (Joining.meaning cluster env start).Same (.node label [query])
          (.node label [query']) := Semantics.same_node (.cons hsame.same .nil)
      refine ⟨tree', htree', hsame'.joins, hnode.trans hsame'.same, fun heq => ?_⟩
      exact hsame'.notNull heq
    · next hkind =>
      obtain ⟨trees', hheld', hsame⟩ := stacks_same ih h _ (fun _ hc => hc)
        (h.sound.ascending.nodup_children m) hchildren htree.children hexec
      obtain ⟨-, hframed⟩ := stacks_framed (stack_framed (nodeWithin_framed fuel) depth) h.sound rfl
        (h.calm m) _ (fun _ hc => hc) (h.sound.ascending.nodup_children m) hexec
      refine ⟨.node label trees', Arena.holds_node.mpr ⟨?_, ?_⟩, ?_, ?_, id⟩
      · exact (Arena.label_congr hframed.slot_eq).trans hlabel
      · rw [hframed.children_eq]
        exact hheld'
      · exact htree.withChildren (eq_false_of_ne_true hkind) hsame.length_eq
          (SameQuery.areJoinQueries hsame)
      · exact Semantics.same_node (hsame.imp fun _ _ h => h.same)

end Stack

/-! ## Compiled queries -/

/-- Some children, compiled one after the other. -/
theorem compiledAll_means {fuel : Nat} (hmeans : Means cluster env start (nodeWithin env fuel))
    (h : UnderWay env start p) (ids : List NodeId) {trees : List Tree} {fragments : List Fragment}
    (hids : ∀ c ∈ ids, c ∈ p.draft.arena.children n) (hnodup : ids.Nodup)
    (hheld : p.draft.arena.HoldsAll ids trees)
    (htrees : Tree.AreJoinQueries (Link.Joinable cluster start.metadata) trees)
    (hall : CompiledAll (nodeWithin env fuel) ids p fragments q) :
    List.Forall₂ (Joining.meaning cluster env start).Renders fragments trees := by
  induction ids generalizing p trees fragments with
  | nil =>
    obtain ⟨hfragments, rfl⟩ := Prod.mk.inj hall
    obtain rfl := Except.ok.inj hfragments
    cases trees with
    | nil => exact .nil
    | cons tree rest =>
      obtain ⟨_, _, heq, _⟩ := Arena.holdsAll_cons.mp hheld
      exact absurd heq (by simp)
  | cons c rest ih =>
    cases trees with
    | nil => exact absurd (Arena.holdsAll_nil.mp hheld) (by simp)
    | cons tree later =>
      obtain ⟨c', rest', heq, hc, hrest⟩ := Arena.holdsAll_cons.mp hheld
      obtain ⟨rfl, rfl⟩ := List.cons.inj heq
      obtain ⟨fragment, s, fragments', hexec, hlater, rfl⟩ := exec_mapM_cons_ok.mp hall
      have hmem := hids c List.mem_cons_self
      have hsize := h.sound.ascending.child_lt n c hmem
      have hrestIds := fun d hd => hids d (List.mem_cons_of_mem c hd)
      obtain ⟨hnot, hnodup'⟩ := List.nodup_cons.mp hnodup
      have hfirst := hmeans c p s fragment tree h hsize hc htrees.1 hexec
      -- the other children are untouched while the first one is compiled
      obtain ⟨hps, -⟩ := compiled_of_ok h.sound hexec
      obtain ⟨hframed, -⟩ := nodeWithin_framed fuel c p s fragment h.sound (h.calm c) hsize hexec
      have hsingle := Arena.FramedAll.single h.sound.ascending hmem hframed
      have hother : ∀ d ∈ rest, ∀ x, p.draft.arena.Below d x →
          s.draft.arena.slot? x = p.draft.arena.slot? x := by
        intro d hd x hx
        refine (hsingle.apart d (hrestIds d hd) ?_ x hx).2
        intro hdc
        exact hnot (List.mem_singleton.mp hdc ▸ hd)
      refine .cons hfirst (ih (h.next hps) ?_ hnodup' (hrest.congr ?_ ?_) htrees.2 hlater)
      · intro d hd
        rw [hsingle.children_eq]
        exact hrestIds d hd
      · exact fun d hd x hx => Arena.label_congr (hother d hd x hx)
      · exact fun d hd x hx => Arena.children_congr (hother d hd x hx)

/-- **Compilation** keeps the meaning of join queries. -/
theorem nodeWithin_means (hj : Joining cluster env start) (fuel : Nat) :
    Means cluster env start (nodeWithin env fuel) := by
  induction fuel with
  | zero =>
    intro n p q fragment tree h _ _ _ hexec
    obtain ⟨-, bound, hbound, -⟩ := compiled_of_ok h.sound hexec
    omega
  | succ fuel ih =>
    intro n p q fragment tree h hn hheld htree hexec document
    obtain ⟨-, bound, hbound, hcompiled⟩ := compiled_of_ok h.sound hexec
    obtain rfl : fuel = bound := by omega
    obtain ⟨label, children⟩ := tree
    obtain ⟨hlabel, hchildren⟩ := Arena.holds_node.mp hheld
    have hall : ∀ {fragments s},
        CompiledAll (nodeWithin env fuel) (p.draft.arena.children n) p fragments s →
        List.Forall₂ (Joining.meaning cluster env start).Renders fragments children :=
      fun hall => compiledAll_means ih h _ (fun _ hc => hc) (h.sound.ascending.nodup_children n)
        hchildren htree.children hall
    have haggregating := h.evolves.aggregating_eq.trans hj.aggregating_eq
    obtain ⟨hscope, hchild, hparent, hproximity⟩ := htree.scopeless
    rw [← hlabel] at hscope hchild hparent hproximity
    cases hcompiled with
    | conjunction fragments _ hkind hfragments =>
      rw [hlabel] at hkind
      rw [Fragment.holds_all, Semantics.holds, hkind]
      exact Semantics.all_of_renders (hall hfragments) document
    | disjunction fragments _ hkind hfragments =>
      rw [hlabel] at hkind
      have hrenders := hall hfragments
      have hne : fragments ≠ [] := by
        rintro rfl
        exact htree.disjuncts hkind (List.forall₂_nil_left_iff.mp hrenders)
      rw [Fragment.holds_any hne, Semantics.holds, hkind]
      exact Semantics.any_of_renders hrenders document
    | negation fragments _ hkind _ hfragments =>
      rw [hlabel] at hkind
      rw [Fragment.holds_none, Semantics.holds, hkind]
      exact congrArg not (Semantics.any_of_renders (hall hfragments) document)
    | scope _ _ _ _ _ hkind _ _ _ => exact absurd hkind hscope
    | joined _ _ _ _ _ hkind _ _ =>
      rcases hkind with ⟨typeName, hkind⟩ | ⟨⟨typeName, hkind⟩, -⟩
      · exact absurd hkind (hchild typeName)
      · exact absurd hkind (hparent typeName)
    | childless hkind _ =>
      rcases hkind with ⟨typeName, hkind⟩ | ⟨typeName, hkind⟩
      · exact absurd hkind (hchild typeName)
      · exact absurd hkind (hparent typeName)
    | admitted _ hfilter =>
      rw [haggregating] at hfilter
      exact absurd hfilter (by simp)
    | proximity distance ordered _ _ hkind _ => exact absurd hkind (hproximity distance ordered)
    | expansion link generated _ stack s hkind hstack hexpanded =>
      rw [hlabel] at hkind
      obtain ⟨rfl, hsort, -⟩ := htree.expansion hkind
      obtain rfl := hstack rfl
      obtain ⟨link', target, t, hlink, htarget, hresolve, -, hps, hexec'⟩ := hexpanded
      -- the link is not named, so no field is stripped, and the query is evaluated from the primary
      obtain rfl : link = link' := by
        have hlink : (p.draft.arena.label n).kind.link? = some link' := hlink
        rw [hlabel, hkind] at hlink
        exact Option.some.inj hlink
      have hstripped : stripped p n link = p := by rw [stripped, hsort.unnamed]
      have hgenerated : p.generated = [] := h.evolves.generated_eq.trans hj.generated_eq
      have htarget : target = p.metadata.primary := by rw [htarget, hgenerated]; rfl
      have hresolve : exec ((p.draft.arena.expansions n).reverse.forM
          (resolve env (nodeWithin env fuel) p.metadata.primary target)) (stripped p n link) =
            (.ok (), t) := hresolve
      rw [hstripped, htarget] at hresolve
      obtain ⟨tree', hheld', hsame⟩ := stack_same hj ih _ n p t _ h hn hheld htree hresolve
      have hps : Evolves env p t := hps
      have hfragment := ih n t s fragment tree' (h.next hps) (Nat.lt_of_lt_of_le hn hps.size_le)
        hheld' hsame.joins hexec'
      exact (hfragment document).trans (hsame.same document)
    | leaf fragment _ hkind _ hexec' =>
      have hleaf := congrArg Prod.fst hexec'
      rw [h.leaf_eq hj] at hleaf
      rw [hlabel] at hkind hleaf ⊢
      rw [Semantics.holds_leaf hkind, Joining.meaning]
      simp only [hleaf]

end Compile

/-! ## Whole queries -/

/-- **A setup over a cluster** in memory. The cluster has no join paths of its own, and no name of an
index contains the colon that ends it in a hop; the settings do not allow for a single index. -/
structure Setup.Over (cluster : Cluster) (setup : Setup) : Prop where
  resolver_eq : setup.resolver = some cluster.resolver
  executor_eq : setup.executor = some cluster.executor
  allowSingleIndex_eq : setup.settings.allowSingleIndex = false
  joinPaths_eq : cluster.joinPaths = []
  names : ∀ index mapping, cluster.mapping index = .ok mapping → ':' ∉ index.toList

/-- A started compiler over a cluster is one for which meanings are kept. -/
theorem Setup.Started.joining {cluster : Cluster} {setup : Setup} {compiler : Compiler}
    (h : setup.Started compiler) (hover : setup.Over cluster) :
    Joining cluster compiler.environment compiler.progress := by
  obtain ⟨md, hprogress⟩ := h.progress_eq
  have hresolver : compiler.environment.resolver = cluster.resolver :=
    Option.some.inj (h.resolver_eq.symm.trans hover.resolver_eq)
  refine ⟨hresolver, Option.some.inj (h.executor_eq.symm.trans hover.executor_eq), ?_,
    hover.joinPaths_eq, hover.names, ?_, h.sound, ?_, ?_, ?_⟩
  · rw [h.settings_eq]
    exact hover.allowSingleIndex_eq
  · obtain ⟨mapping, hmapping⟩ := h.mapped _ List.mem_cons_self
    rw [hresolver] at hmapping
    exact ⟨mapping, hmapping⟩
  · rw [hprogress]
  · rw [hprogress]
  · rw [hprogress]

namespace Compiler

/-- **Meaning** of queries for a compiler over a cluster. -/
def meaning (compiler : Compiler) (cluster : Cluster) : Semantics :=
  Joining.meaning cluster compiler.environment compiler.progress

/-- **Expansions compute semi-joins.** The fragment that a join query is compiled to holds of a
document if and only if the query does, and an expansion without a match in its linked index holds of
no document. -/
theorem query_semijoin {cluster : Cluster} {setup : Setup} {compiler : Compiler} {tree : Tree}
    {fragment : Fragment} (hover : setup.Over cluster) (hstart : setup.start = .ok compiler)
    (htree : setup.request.query = some tree)
    (hjoins : tree.IsJoinQuery (Link.Joinable cluster compiler.progress.metadata))
    (hquery : compiler.query.1 = .ok fragment) :
    (∀ document, fragment.holds document = (compiler.meaning cluster).holds tree document) ∧
      ∀ label link generated query, label.kind = .expansion link generated →
        (∀ other ∈ cluster.documentsOf link.index,
          (compiler.meaning cluster).holds query other = false) →
        ∀ document, (compiler.meaning cluster).holds (.node label [query]) document = false := by
  refine ⟨?_, fun label link generated query hkind hmatchless document =>
    Semantics.holds_expansion_eq_false hkind hmatchless document⟩
  have hstarted := Setup.started_of_ok hstart
  have hj := hstarted.joining hover
  obtain ⟨md, hprogress⟩ := hstarted.progress_eq
  have hdraft : compiler.progress.draft = setup.request.draft := by rw [hprogress]
  obtain ⟨root, hroot, hinserted, hlabels⟩ := setup.request.draft_fresh.rooted tree htree
  rw [← hdraft] at hroot hinserted hlabels
  have hn : root < compiler.progress.draft.arena.size := by
    rw [hinserted.id_eq]
    exact hinserted.size_lt
  have hunderWay : Compile.UnderWay compiler.environment compiler.progress compiler.progress := by
    refine ⟨.refl hj.sound, fun i => ?_⟩
    by_cases hi : i < compiler.progress.draft.arena.size
    · have hmem := Arena.label_mem_labels hi
      rw [hlabels] at hmem
      exact hjoins.parentless _ hmem
    · rw [Arena.label_of_size_le (Nat.le_of_not_lt hi)]
      rfl
  have hexec : (exec (Compile.rootQuery compiler.environment) compiler.progress).1 = .ok fragment :=
    hquery
  rw [Compile.exec_rootQuery hroot] at hexec
  exact Compile.nodeWithin_means hj _ root _ _ fragment tree hunderWay hn hinserted.holds hjoins
    (Prod.ext hexec rfl)

/-- Books, their authors, and the towns that these live in; two of the authors share a town. -/
def library : Cluster where
  mappings := [("authors", .keyed "authors" "id"), ("books", .keyed "books" "id"),
    ("towns", .keyed "towns" "id")]
  documents := [
    ("authors", [.obj [("id", .int 7), ("town", .int 1)], .obj [("id", .int 8), ("town", .int 1)],
      .obj [("id", .int 9), ("town", .int 2)]]),
    ("books", [.obj [("author", .int 7)], .obj [("author", .int 9)]]),
    ("towns", [.obj [("id", .int 1), ("name", .str "Bath")]])]

/-- Books whose author lives in some town. -/
def townQuery : Tree :=
  .expansion (.unnamed "author" "authors" "id")
    (.expansion (.unnamed "town" "towns" "id") (.word "name" (.str "Bath")))

/-- The search for them in the library. -/
def townSearch : Setup where
  index := "books"
  request := { query := some townQuery }
  settings := { allowSingleIndex := false }
  resolver := some library.resolver
  executor := some library.executor

theorem townSearch_over : townSearch.Over library := by
  refine ⟨rfl, rfl, rfl, rfl, ?_⟩
  intro index mapping h
  unfold Cluster.mapping at h
  split at h
  · next found hfind =>
    simp only [library, Keyed.find?_cons, Keyed.find?_nil] at hfind
    split at hfind
    · next heq => rw [← heq]; decide
    · split at hfind
      · next heq => rw [← heq]; decide
      · split at hfind
        · next heq => rw [← heq]; decide
        · exact absurd hfind (by simp)
  · exact absurd h (by simp)

/-- A field of a link between indexes of the library is not nested. -/
def isFlat (metadata : Metadata) (field : String) : Bool :=
  match metadata.ownerMapping library.resolver field with
  | .error _ => true
  | .ok mapping => mapping.nestedPath? field = none

/-- The query for books by the town of their author, two expansions deep, is compiled to a fragment
that holds of the same documents. -/
theorem query_semijoin_townSearch : ∃ compiler fragment, townSearch.start = .ok compiler ∧
    compiler.query.1 = .ok fragment ∧
      ∀ document, fragment.holds document = (compiler.meaning library).holds townQuery document := by
  have hrun : (townSearch.start.toOption.any fun compiler =>
      compiler.query.1.toOption.any fun _ =>
        decide (compiler.progress.metadata.primary = .unnamed "id" "books" "id") &&
          isFlat compiler.progress.metadata "author" &&
          isFlat compiler.progress.metadata "town") = true := by decide +kernel
  simp only [Option.any_eq_true, toOption_eq_some, Bool.and_eq_true, decide_eq_true_eq] at hrun
  obtain ⟨compiler, hstart, fragment, hquery, ⟨hprimary, hauthor⟩, htown⟩ := hrun
  have hflat : ∀ field, isFlat compiler.progress.metadata field = true →
      ∀ mapping, compiler.progress.metadata.ownerMapping library.resolver field = .ok mapping →
        mapping.nestedPath? field = none := by
    intro field hfield mapping hmapping
    unfold isFlat at hfield
    rw [hmapping] at hfield
    simpa using hfield
  have hjoins : townQuery.IsJoinQuery (Link.Joinable library compiler.progress.metadata) := by
    unfold townQuery Tree.expansion Tree.branch
    rw [Tree.IsJoinQuery]
    refine ⟨rfl, ⟨rfl, ?_, hflat _ hauthor, ?_⟩, ⟨_, rfl, by decide⟩, ?_, trivial⟩
    · rw [hprimary]; decide
    · decide +kernel
    · rw [Tree.IsJoinQuery]
      refine ⟨rfl, ⟨rfl, ?_, hflat _ htown, ?_⟩, ⟨_, rfl, by decide⟩, Tree.isJoinQuery_leaf rfl,
        trivial⟩
      · rw [hprimary]; decide
      · decide +kernel
  exact ⟨compiler, fragment, hstart, hquery,
    (query_semijoin townSearch_over hstart rfl hjoins hquery).1⟩

end Compiler

end LinkedSearch
