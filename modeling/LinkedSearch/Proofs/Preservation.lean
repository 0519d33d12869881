import LinkedSearch.Proofs.Resolution

/-! # Compilations evolve the state

Every compilation lets a sound state evolve, whether it succeeds or fails, by induction on the bound
on its depth. What a successful one does is spelled out as well, for one level of the recursion:

* `Expanded`: a compiled expansion.
* `Compiled`: a compiled node of any kind.
* `nodeWithin_steps`, `query_steps`: every compilation is an evolution.
* `compiled_of_ok`: every successful one is as `Compiled` says. -/

namespace LinkedSearch.Compile

open Query (Arena Kind Label NodeId Tree)

variable {α β : Type} {env : Environment} {p q : Progress}

/-! ## Relations -/

/-- The state in which the stack of an expansion is resolved: the fields below it do not mention the
name of its link any more. -/
def stripped (p : Progress) (id : NodeId) (link : Link) : Progress :=
  match link.name with
  | none => p
  | some name =>
    { p with draft := { p.draft with arena := p.draft.arena.stripName id name } }

/-- Removing the name of a link is an evolution. -/
theorem evolves_stripped (hp : Sound env p) (id : NodeId) (link : Link) :
    Evolves env p (stripped p id link) := by
  unfold stripped
  split
  · exact .refl hp
  · next name hname =>
    obtain ⟨hsize, hkind, hchildren, hparent⟩ := p.draft.arena.stripName_spec id name
    refine .changeArena hp (hp.ascending.of_edges hsize hchildren hparent)
      (Nat.le_of_eq hsize.symm) (.of_kinds fun i => ⟨i, hkind i⟩)
      fun i _ => ⟨hkind i, p.draft.arena.boost_stripName id name i⟩

section Relations

variable (env : Environment) (recur : NodeId → Compile Fragment) (id : NodeId)

/-- **A compiled expansion**: its stack is resolved, and what stands in its place is compiled. -/
def Expanded (p : Progress) (fragment : Fragment) (q : Progress) : Prop :=
  ∃ link target s, (p.draft.arena.label id).kind.link? = some link ∧
    target = (if p.generated.isEmpty then p.metadata.primary else link) ∧
    exec ((p.draft.arena.expansions id).reverse.forM (resolve env recur p.metadata.primary target))
      (stripped p id link) = (.ok (), s) ∧
    Evolves env p (stripped p id link) ∧ Evolves env p s ∧ exec (recur id) s = (.ok fragment, q)

/-- The fragments of some nodes, compiled one after the other. -/
def CompiledAll (ids : List NodeId) (p : Progress) (fragments : List Fragment) (q : Progress) :
    Prop := exec (ids.mapM recur) p = (.ok fragments, q)

/-- **A compiled node.** -/
inductive Compiled (p : Progress) : Fragment → Progress → Prop where
  | conjunction (fragments : List Fragment) (q : Progress)
      (hkind : (p.draft.arena.label id).kind = .conjunction)
      (hall : CompiledAll recur (p.draft.arena.children id) p fragments q) :
      Compiled p (.all fragments) q
  | disjunction (fragments : List Fragment) (q : Progress)
      (hkind : (p.draft.arena.label id).kind = .disjunction)
      (hall : CompiledAll recur (p.draft.arena.children id) p fragments q) :
      Compiled p (.any fragments) q
  | negation (fragments : List Fragment) (q : Progress)
      (hkind : (p.draft.arena.label id).kind = .negation) (hquery : p.aggregating = false)
      (hall : CompiledAll recur (p.draft.arena.children id) p fragments q) :
      Compiled p (.bool [] [] fragments none none) q
  | scope (path : Option String) (fragments : List Fragment) (fragment : Fragment) (s t : Progress)
      (hkind : (p.draft.arena.label id).kind = .scope) (hlooked : Looked env p s)
      (hall : CompiledAll recur (p.draft.arena.children id)
        { s with scopePath := path, scopeDepth := p.scopeDepth + 1 } fragments t)
      (path' : Option String) :
      Compiled p fragment { t with scopeDepth := p.scopeDepth, scopePath := path' }
  | joined (child : NodeId) (rest : List NodeId) (fragment joined : Fragment) (q : Progress)
      (hkind : (∃ typeName, (p.draft.arena.label id).kind = .child typeName) ∨
        (∃ typeName, (p.draft.arena.label id).kind = .parent typeName) ∧ p.aggregating = false)
      (hchildren : p.draft.arena.children id = child :: rest)
      (hexec : exec (recur child) p = (.ok fragment, q)) : Compiled p joined q
  | childless (hkind : (∃ typeName, (p.draft.arena.label id).kind = .child typeName) ∨
        ∃ typeName, (p.draft.arena.label id).kind = .parent typeName)
      (hchildren : p.draft.arena.children id = []) : Compiled p (.matchAll none) p
  | admitted (hkind : (p.draft.arena.label id).kind = .negation ∨
        ∃ typeName, (p.draft.arena.label id).kind = .parent typeName)
      (hfilter : p.aggregating = true) : Compiled p (.matchAll none) p
  | expansion (link : Link) (generated : Bool) (fragment : Fragment) (stack : List NodeId)
      (q : Progress) (hkind : (p.draft.arena.label id).kind = .expansion link generated)
      (hstack : generated = false → stack = p.generated)
      (hexpanded : Expanded env recur id { p with generated := stack } fragment q) :
      Compiled p fragment { q with generated := p.generated }
  | proximity (distance : Nat) (ordered : Bool) (fragment : Fragment) (q : Progress)
      (hkind : (p.draft.arena.label id).kind = .proximity distance ordered)
      (hlooked : Looked env p q) : Compiled p fragment q
  | leaf (fragment : Fragment) (q : Progress) (hkind : (p.draft.arena.label id).kind.isLeaf = true)
      (hlooked : Looked env p q)
      (hexec : exec (leaf env (p.draft.arena.label id)) p = (.ok fragment, q)) :
      Compiled p (fragment.weighted (p.draft.arena.label id).boost) q

end Relations

/-! ## Expansions -/

section Runs

variable (fuel : Nat) (ih : ∀ n, Steps env (nodeWithin env fuel n))

include ih

/-- A compiled expansion. -/
theorem leads_expand (hp : Sound env p) (id : NodeId) :
    Leads env (expand env (nodeWithin env fuel) id)
      (fun fragment q => Expanded env (nodeWithin env fuel) id p fragment q) p := by
  unfold expand
  refine (leads_linkOf hp id).bind fun link q _ hlink => ?_
  obtain ⟨hlink, rfl⟩ := hlink
  refine (leads_arena hp).bind fun arena q _ harena => ?_
  obtain ⟨rfl, rfl⟩ := harena
  refine (Leads.get hp).bind fun s q _ hs => ?_
  obtain ⟨rfl, rfl⟩ := hs
  refine (Leads.get hp).bind fun s q _ hs => ?_
  obtain ⟨rfl, rfl⟩ := hs
  -- the primary link stays the one that was read
  generalize htarget : (if q.generated.isEmpty then q.metadata.primary else link) = target
  have hstrip := evolves_stripped hp id link
  have hrest : Leads env (do
      ((q.draft.arena.expansions id).reverse.forM
        (resolve env (nodeWithin env fuel) q.metadata.primary target))
      nodeWithin env fuel id)
      (fun fragment s => Expanded env (nodeWithin env fuel) id q fragment s)
      (stripped q id link) := by
    have hloop := Leads.forM ((q.draft.arena.expansions id).reverse)
      (fun _ _ hpq hI => hI.trans hpq.grows.primary_eq.symm)
      (fun e _ p hp hI => (leads_resolve fuel ih hp _ target e hI).mono fun _ _ _ _ => trivial)
      hstrip.sound hstrip.grows.primary_eq.symm
    have hloop' : Leads env ((q.draft.arena.expansions id).reverse.forM
        (resolve env (nodeWithin env fuel) q.metadata.primary target))
        (fun _ s => exec ((q.draft.arena.expansions id).reverse.forM
          (resolve env (nodeWithin env fuel) q.metadata.primary target)) (stripped q id link) =
            (.ok (), s)) (stripped q id link) :=
      wp_mono (wp_and hloop (wp_exec _ _)) (fun _ _ h => ⟨h.1.1, h.2⟩) fun _ _ h => h.1
    refine hloop'.bind fun _ s es hexec => ?_
    refine wp_mono (wp_and (ih id s es.sound) (wp_exec _ _)) ?_ fun _ _ h => h.1
    rintro fragment t ⟨⟨et, -⟩, hexec'⟩
    exact ⟨et, link, target, s, hlink, htarget.symm, hexec, hstrip, hstrip.trans es, hexec'⟩
  unfold stripped at hstrip hrest
  simp only
  split
  · next name hname =>
    rw [hname] at hstrip hrest
    exact Leads.bind (R := fun _ t => t = _) ⟨hstrip, rfl⟩ fun _ t _ h => h ▸ hrest
  · next hname =>
    have hnone : link.name = none := by
      cases hlinkName : link.name with
      | none => rfl
      | some name => exact absurd hlinkName (hname name)
    rwa [hnone] at hrest

theorem leads_expansion (hp : Sound env p) (id : NodeId) (generated : Bool) :
    Leads env (expansion env (nodeWithin env fuel) id generated) (fun fragment q =>
      ∃ stack s, (generated = false → stack = p.generated) ∧
        Expanded env (nodeWithin env fuel) id { p with generated := stack } fragment s ∧
        q = { s with generated := p.generated }) p := by
  unfold expansion
  split
  · next hgenerated =>
    have hp' : Sound env { p with generated := id :: p.generated } := ⟨hp.ascending, hp.faithful⟩
    have hleave : ∀ t, Evolves env { p with generated := id :: p.generated } t →
        t.generated.tail = p.generated ∧
          Evolves env p { t with generated := t.generated.tail } := by
      intro t ht
      have htail : t.generated.tail = p.generated := by rw [ht.generated_eq]; rfl
      exact ⟨htail, ht.transfer rfl rfl rfl rfl rfl rfl rfl rfl ht.scopeDepth_eq ht.scopePath_eq
        ht.aggregating_eq htail⟩
    unfold Leads
    rw [wp_within]
    refine wp_mono (leads_expand fuel ih hp' id) ?_ fun _ t h => (hleave t h).2
    rintro fragment t ⟨ht, hexpanded⟩
    refine ⟨(hleave t ht).2, _, t, fun hfalse => ?_, hexpanded, ?_⟩
    · rw [hfalse] at hgenerated
      exact absurd hgenerated (by simp)
    · rw [(hleave t ht).1]
  · refine (leads_expand fuel ih hp id).mono fun fragment t ht hexpanded => ?_
    refine ⟨p.generated, t, fun _ => rfl, hexpanded, ?_⟩
    rw [← ht.generated_eq]

/-! ## Nodes -/

theorem leads_compiledAll (hp : Sound env p) (ids : List NodeId) :
    Leads env (ids.mapM (nodeWithin env fuel))
      (fun fragments q => CompiledAll (nodeWithin env fuel) ids p fragments q) p :=
  wp_mono (wp_and (Steps.mapM (fun id _ => ih id) p hp) (wp_exec _ _))
    (fun _ _ h => ⟨h.1.1, h.2⟩) fun _ _ h => h.1

omit ih in
/-- Outside of scopes nothing depends on the path of the scope. -/
theorem evolves_scopePath (hp : Sound env p) (path : Option String) (hdepth : p.scopeDepth = 0) :
    Evolves env p { p with scopePath := path } :=
  (Evolves.refl hp).transfer rfl rfl rfl rfl rfl rfl rfl rfl rfl (.inl hdepth) rfl rfl

/-- The children of a scope are compiled one scope deeper. -/
theorem leads_scopeChildren (hp : Sound env p) (ids : List NodeId) :
    Leads env (within (fun progress => { progress with scopeDepth := progress.scopeDepth + 1 })
      (fun progress => { progress with scopeDepth := progress.scopeDepth - 1 })
      (ids.mapM (nodeWithin env fuel)))
      (fun fragments q => ∃ t, CompiledAll (nodeWithin env fuel) ids
        { p with scopeDepth := p.scopeDepth + 1 } fragments t ∧
          q = { t with scopeDepth := p.scopeDepth }) p := by
  have hp' : Sound env { p with scopeDepth := p.scopeDepth + 1 } := ⟨hp.ascending, hp.faithful⟩
  have hleave : ∀ t, Evolves env { p with scopeDepth := p.scopeDepth + 1 } t →
      t.scopeDepth - 1 = p.scopeDepth ∧ Evolves env p { t with scopeDepth := t.scopeDepth - 1 } := by
    intro t ht
    have hdepth : t.scopeDepth - 1 = p.scopeDepth := by rw [ht.scopeDepth_eq]; rfl
    have hpath := ht.scopePath_eq.resolve_left (Nat.succ_ne_zero _)
    exact ⟨hdepth, ht.transfer rfl rfl rfl rfl rfl rfl rfl rfl hdepth (.inr hpath)
      ht.aggregating_eq ht.generated_eq⟩
  unfold Leads
  rw [wp_within]
  refine wp_mono (leads_compiledAll fuel ih hp' ids) ?_ fun _ t h => (hleave t h).2
  rintro fragments t ⟨ht, hall⟩
  refine ⟨(hleave t ht).2, t, hall, ?_⟩
  rw [(hleave t ht).1]

/-- A scope. -/
theorem leads_scope (hp : Sound env p) (id : NodeId)
    (hkind : (p.draft.arena.label id).kind = .scope) :
    Leads env (scope env (nodeWithin env fuel) id)
      (fun fragment q => Compiled env (nodeWithin env fuel) id p fragment q) p := by
  unfold scope
  refine (leads_childrenOf hp id).bind fun children q _ h => ?_
  obtain ⟨rfl, rfl⟩ := h
  -- the same in both cases, but for what is known about the path
  have hrest : ∀ s path, Looked env q s → Evolves env q { s with scopePath := path } →
      Leads env (scopeClauses (nodeWithin env fuel) (q.draft.arena.children id))
      (fun fragment q' => Compiled env (nodeWithin env fuel) id q fragment q')
      { s with scopePath := path } := by
    intro s path hlooked hs
    refine (leads_scopeChildren fuel ih hs.sound _).bind fun fragments u eu hu => ?_
    obtain ⟨t, hall, rfl⟩ := hu
    have hdepth : s.scopeDepth = q.scopeDepth := hs.scopeDepth_eq
    simp only [hdepth] at hall
    refine (Leads.get eu.sound).bind fun s' u _ h => ?_
    obtain ⟨rfl, rfl⟩ := h
    simp only [hdepth]
    split
    · exact .pure (by simpa only [hdepth] using eu.sound)
        (.scope path fragments _ s t hkind hlooked hall t.scopePath)
    · next hopen =>
      have et := evolves_scopePath eu.sound none (hdepth.trans (Nat.eq_zero_of_not_pos hopen))
      simp only [hdepth] at et
      refine Leads.bind (R := fun _ u => u = { t with scopeDepth := q.scopeDepth, scopePath := none })
        ⟨et, rfl⟩ ?_
      rintro _ u eu' rfl
      split <;>
        exact .pure eu'.sound (.scope path fragments _ s t hkind hlooked hall none)
  refine (Leads.get hp).bind fun s q _ h => ?_
  obtain ⟨rfl, rfl⟩ := h
  simp only
  split
  · next hdepth =>
    refine ((sharedPath_looks hp id).leads hp).bind fun path t et hlooked => ?_
    have es := evolves_scopePath et.sound path (et.scopeDepth_eq.trans hdepth)
    refine Leads.bind (R := fun _ u => u = { t with scopePath := path }) ⟨es, rfl⟩ ?_
    rintro _ u eu rfl
    exact hrest t path hlooked (et.trans es)
  · exact hrest q q.scopePath (.refl q) (.refl hp)

/-- The first child of a parent or child scope. -/
theorem leads_joined (hp : Sound env p) (join : Fragment → Fragment) (id : NodeId)
    (hkind : (∃ typeName, (p.draft.arena.label id).kind = .child typeName) ∨
      (∃ typeName, (p.draft.arena.label id).kind = .parent typeName) ∧ p.aggregating = false) :
    Leads env (joined env (nodeWithin env fuel) join id)
      (fun fragment q => Compiled env (nodeWithin env fuel) id p fragment q) p := by
  unfold joined
  refine (leads_childrenOf hp id).bind fun children q _ h => ?_
  obtain ⟨rfl, rfl⟩ := h
  split
  · next hchildren => exact .pure hp (.childless (hkind.imp_right And.left) hchildren)
  · next child rest hchildren =>
    refine Leads.bind (R := fun fragment q' =>
      exec (nodeWithin env fuel child) q = (.ok fragment, q')) ?_ fun fragment s es hexec => ?_
    · exact wp_mono (wp_and (ih child q hp) (wp_exec _ _)) (fun _ _ h => ⟨h.1.1, h.2⟩)
        fun _ _ h => h.1
    · exact .pure es.sound (.joined child rest fragment _ s hkind hchildren hexec)

/-- A node, one level of the recursion. -/
theorem leads_node (hp : Sound env p) (id : NodeId) :
    Leads env (node env (nodeWithin env fuel) id)
      (fun fragment q => Compiled env (nodeWithin env fuel) id p fragment q) p := by
  unfold node
  refine (leads_labelOf hp id).bind fun label q _ h => ?_
  obtain ⟨rfl, rfl⟩ := h
  -- all kinds with clauses compile their children one after the other, and only wrap them differently
  have hclauses : ∀ wrap : List Fragment → Fragment, (∀ fragments s,
      CompiledAll (nodeWithin env fuel) (q.draft.arena.children id) q fragments s →
        Compiled env (nodeWithin env fuel) id q (wrap fragments) s) →
      Leads env (do
        let children ← childrenOf id
        let fragments ← children.mapM (nodeWithin env fuel)
        return wrap fragments)
        (fun fragment s => Compiled env (nodeWithin env fuel) id q fragment s) q := by
    intro wrap hwrap
    refine (leads_childrenOf hp id).bind fun children s es h => ?_
    obtain ⟨rfl, rfl⟩ := h
    exact (leads_compiledAll fuel ih hp _).bind fun fragments t et hall =>
      .pure et.sound (hwrap fragments t hall)
  split
  · next hkind => exact hclauses _ fun fragments s => .conjunction fragments s hkind
  · next hkind => exact hclauses _ fun fragments s => .disjunction fragments s hkind
  · next hkind =>
    refine (Leads.get hp).bind fun s q _ hs => ?_
    obtain ⟨rfl, rfl⟩ := hs
    split
    · next hfilter => exact .pure hp (.admitted (.inl hkind) hfilter)
    · next hfilter =>
      exact hclauses _ fun fragments s => .negation fragments s hkind (eq_false_of_ne_true hfilter)
  · next hkind => exact leads_scope fuel ih hp id hkind
  · next typeName hkind => exact leads_joined fuel ih hp _ id (.inl ⟨typeName, hkind⟩)
  · next typeName hkind =>
    refine (Leads.get hp).bind fun s q _ hs => ?_
    obtain ⟨rfl, rfl⟩ := hs
    split
    · next hfilter => exact .pure hp (.admitted (.inr ⟨typeName, hkind⟩) hfilter)
    · next hfilter =>
      exact leads_joined fuel ih hp _ id (.inr ⟨⟨typeName, hkind⟩, eq_false_of_ne_true hfilter⟩)
  · next link generated hkind =>
    refine (leads_expansion fuel ih hp id generated).mono fun fragment t _ h => ?_
    obtain ⟨stack, s, hstack, hexpanded, rfl⟩ := h
    exact .expansion link generated fragment stack s hkind hstack hexpanded
  · next distance ordered hkind =>
    have hid : id < q.draft.arena.size := by
      by_contra hge
      rw [Arena.label_of_size_le (Nat.le_of_not_lt hge)] at hkind
      exact Kind.noConfusion hkind
    exact ((proximity_looks hp _ hid).leads hp).bind fun fragment t et hlooked =>
      .pure et.sound (.proximity distance ordered _ t hkind hlooked)
  · next hconj hdisj hneg hscope hchild hparent hexp hprox =>
    have hkind : (q.draft.arena.label id).kind.isLeaf = true := by
      cases hk : (q.draft.arena.label id).kind <;> simp_all [Kind.isLeaf]
    refine Leads.bind (R := fun fragment s => Looked env q s ∧
      exec (leaf env (q.draft.arena.label id)) q = (.ok fragment, s)) ?_ fun fragment t et h => ?_
    · exact wp_mono (wp_and ((leaf_looks hp _).leads hp) (wp_exec _ _))
        (fun _ _ h => ⟨h.1.1, h.1.2, h.2⟩) fun _ _ h => h.1
    · exact .pure et.sound (.leaf fragment t hkind h.1 h.2)

end Runs

/-! ## The recursion -/

/-- **Every compilation** below a node is an evolution. -/
theorem nodeWithin_steps (fuel : Nat) (id : NodeId) : Steps env (nodeWithin env fuel id) := by
  induction fuel generalizing id with
  | zero => exact .throw _
  | succ fuel ih => exact fun p hp => (leads_node fuel ih hp id).mono fun _ _ _ _ => trivial

/-- **Every successful compilation** is an evolution, and is spelled out by its last level. -/
theorem compiled_of_ok (hp : Sound env p) {fuel : Nat} {id : NodeId} {fragment : Fragment}
    (h : exec (nodeWithin env fuel id) p = (.ok fragment, q)) :
    Evolves env p q ∧ ∃ bound, fuel = bound + 1 ∧
      Compiled env (nodeWithin env bound) id p fragment q := by
  cases fuel with
  | zero => exact absurd (congrArg Prod.fst h) (by simp [nodeWithin, exec])
  | succ bound =>
    obtain ⟨hevolves, hcompiled⟩ :=
      (wp_of_ok h).mp (leads_node bound (nodeWithin_steps bound) hp id)
    exact ⟨hevolves, bound, rfl, hcompiled⟩

/-- A compiled query. -/
theorem query_steps (id : NodeId) : Steps env (query env id) := by
  intro p hp
  unfold query
  refine (leads_arena hp).bind fun arena q _ h => ?_
  obtain ⟨rfl, rfl⟩ := h
  exact nodeWithin_steps _ id q hp

end LinkedSearch.Compile
