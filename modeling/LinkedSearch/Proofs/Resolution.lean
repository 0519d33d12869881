import LinkedSearch.Proofs.Leading

/-! # What resolving an expansion does

The successful runs of the parts that resolve an expansion, spelled out as relations between states.
Each part is run through once, here; what the result means is read off these relations.

* `Sees`: the visibility of a scan.
* `Joins`: a new node for join values.
* `Resolved`: the node that takes the place of an expansion.
* `leads_resolve`: the resolution of an expansion, in terms of these. -/

namespace LinkedSearch.Compile

open Query (Arena Kind Label NodeId Tree)
open Schema (Mapping)

variable {α β : Type} {env : Environment} {p q : Progress}

/-! ## Relations -/

section Relations

variable (env : Environment) (recur : NodeId → Compile Fragment) (id : NodeId)

/-- **Visibility**: there is no restriction, or it is the first parent scope of the query, compiled
outside of aggregates, and the expansion is not within that scope. The former is so for an index that is
always visible, in a query without such a scope, and within it. -/
inductive Sees (link : Link) (p : Progress) : Option Fragment → Progress → Prop where
  | unrestricted (q : Progress) (hlooked : Looked env p q)
      (hwhy : ∃ mapping, env.resolver.mapping link.index = .ok mapping ∧
        (mapping.alwaysVisible = false → ∀ scope, q.draft.find? (·.kind.isParent) = some scope →
          q.draft.arena.isWithin id scope = true)) : Sees link p none q
  | restricted (scope : NodeId) (filter : Fragment) (s t : Progress) (hlooked : Looked env p s)
      (hscope : s.draft.find? (·.kind.isParent) = some scope)
      (hwithin : s.draft.arena.isWithin id scope = false)
      (hexec : exec (recur scope) { s with aggregating := false } = (.ok filter, t))
      (hindex : ∃ mapping, env.resolver.mapping link.index = .ok mapping ∧
        mapping.alwaysVisible = false) :
      Sees link p (some filter) { t with aggregating := s.aggregating }

/-- The label of a node for the values that a scan has found. -/
def valuesLabel (left : String) (values : List Json) (hits : Nat) : Label :=
  { kind := .array (.external values hits) false, field := some left }

/-- **Join values**: a new node, after no scan or after one. -/
inductive Joins (link : Link) (left right : String) (p : Progress) : NodeId → Progress → Prop where
  | keys (n : NodeId) (q : Progress) (hquery : p.draft.arena.child? id 0 = some n)
      (hkind : (p.draft.arena.label n).kind = .notNull)
      (hdraft : q.draft =
        { p.draft with arena := (p.draft.arena.push { kind := .notNull, field := some left }).1 })
      (hscans : q.scans = p.scans)
      (hreports : ∃ r, r.id = id ∧ r.resolution = .keys ∧ q.reports = p.reports ++ [r]) :
      Joins link left right p p.draft.arena.size q
  | scan (n : NodeId) (s t u q : Progress) (filter : Fragment) (post : Option Fragment)
      (values : List Json) (hits : Nat) (hquery : p.draft.arena.child? id 0 = some n)
      (hlooked : Looked env p s)
      (hexec : exec (recur n) { s with aggregating := false } = (.ok filter, t))
      (hevolves : Evolves env p { t with aggregating := s.aggregating })
      (hsees : Sees env recur id link { t with aggregating := s.aggregating } post u)
      (hevolves' : Evolves env { t with aggregating := s.aggregating } u)
      (hrun : (env.executor.run u.scans (scanRequest env link.index right filter post)).outcome =
        .ok (values, hits))
      (hdraft : q.draft =
        { u.draft with arena := (u.draft.arena.push (valuesLabel left values hits)).1 })
      (hscans : q.scans = u.scans ++ [scanRequest env link.index right filter post])
      (hindex : ∃ mapping, env.resolver.mapping link.index = .ok mapping)
      (howner : ∃ mapping, p.metadata.ownerMapping env.resolver left = .ok mapping)
      (hreports : ∃ r, r.id = id ∧ r.link = link ∧
        r.resolution = .scan (scanRequest env link.index right filter post) ∧
        q.reports = u.reports ++ [r]) : Joins link left right p u.draft.arena.size q

/-- **Resolved**: the query of the expansion itself, join values over a join path, or the values of a
synthesized link, which the keys that have them may replace. -/
inductive Resolved (target link : Link) (p : Progress) : NodeId → Progress → Prop where
  | inPlace (n : NodeId) (q : Progress) (hquery : p.draft.arena.child? id 0 = some n)
      (hwhy : link = p.metadata.primary ∨ env.settings.allowSingleIndex = true)
      (hdraft : q.draft = p.draft) (hscans : q.scans = p.scans)
      (hreports : ∃ r own, r.id = id ∧ r.resolution = .inPlace own ∧ q.reports = p.reports ++ [r])
      (htree : ∃ r ∈ q.reports, r.id = id ∧ (∃ own, r.resolution = .inPlace own) ∧
        r.query = p.draft.arena.treeAt n) :
      Resolved target link p n q
  | joined (path : List String) (first last : String) (s q : Progress) (v : NodeId)
      (hgenerated : (p.draft.arena.label id).kind.isGenerated = false)
      (hpath : env.resolver.joinPath target link = .ok path) (hfirst : path.head? = some first)
      (hlast : path.getLast? = some last) (hlooked : Looked env p s)
      (hjoins : Joins env recur id link (Hop.field first) (Hop.field last) s v q) :
      Resolved target link p v q
  | generated (s q : Progress) (v : NodeId)
      (hgenerated : (p.draft.arena.label id).kind.isGenerated = true)
      (hjoins : Joins env recur id link link.leftField link.rightField p v s)
      (hevolves : Evolves env p s) (hlooked : Looked env s q) : Resolved target link p v q
  | generatedTwice (left right : String) (s t u q : Progress) (w v : NodeId)
      (hgenerated : (p.draft.arena.label id).kind.isGenerated = true)
      (hjoins : Joins env recur id link link.leftField link.rightField p w s)
      (hevolves : Evolves env p s) (hlooked : Looked env s t)
      (hlooked' : Looked env
        { t with draft := { t.draft with arena := t.draft.arena.setChild id 0 w } } u)
      (hevolves' : Evolves env s u)
      (hjoins' : Joins env recur id link left right u v q) : Resolved target link p v q

end Relations

/-- **A new node**: it comes after the expansion, has no edges, and is not a parent scope. -/
structure Fresh (p : Progress) (id v : Nat) : Prop where
  lt_size : v < p.draft.arena.size
  later : id < v
  slot_eq : p.draft.arena.slot? v = some { label := p.draft.arena.label v }
  loose : ∀ j, v ∉ p.draft.arena.children j

theorem Fresh.children_eq {id v : Nat} (h : Fresh p id v) : p.draft.arena.children v = [] :=
  Arena.children_of_slot? h.slot_eq

/-- A pushed node is a new one. -/
theorem fresh_push (hp : Sound env p) {id : Nat} (hid : id < p.draft.arena.size) (label : Label)
    (hdraft : q.draft = { p.draft with arena := (p.draft.arena.push label).1 }) :
    Fresh q id p.draft.arena.size := by
  have harena : q.draft.arena = (p.draft.arena.push label).1 := by rw [hdraft]
  constructor
  · rw [harena, Arena.size_push]
    omega
  · exact hid
  · rw [harena, Arena.slot?_push_size, Arena.label_push_size]
  · intro j hj
    rw [harena, Arena.children_push] at hj
    exact Nat.lt_irrefl _ (hp.ascending.child_lt j _ hj)

/-- The node for join values is a new one. -/
theorem Joins.fresh {recur : NodeId → Compile Fragment} {id : Nat} {link : Link}
    {left right : String} {v : NodeId} (hp : Sound env p)
    (h : Joins env recur id link left right p v q) : Fresh q id v := by
  cases h with
  | keys n _ hquery _ hdraft _ =>
    exact fresh_push hp (Arena.lt_size_of_mem_children (List.mem_of_getElem? hquery)) _ hdraft
  | scan n s t u _ filter post values hits hquery _ _ hevolves _ hevolves' _ hdraft _ _ _ =>
    have hid := Arena.lt_size_of_mem_children (List.mem_of_getElem? hquery)
    have hsize := (hevolves.trans hevolves').size_le
    exact fresh_push hevolves'.sound (Nat.lt_of_lt_of_le hid hsize) _ hdraft

/-- What takes the place of an expansion is its query or a new node. -/
theorem Resolved.child_or_fresh {recur : NodeId → Compile Fragment} {id : Nat} {target link : Link}
    {v : NodeId} (hp : Sound env p) (h : Resolved env recur id target link p v q) :
    q.draft.arena.child? id 0 = some v ∨ Fresh q id v := by
  cases h with
  | inPlace n _ hquery _ hdraft _ => exact .inl (by rw [hdraft]; exact hquery)
  | joined path first last s _ v _ _ _ _ hlooked hjoins =>
    exact .inr (hjoins.fresh (hlooked.evolves hp).sound)
  | generated s _ v _ hjoins _ hlooked =>
    have hfresh := hjoins.fresh hp
    have hdraft := hlooked.draft_eq
    exact .inr ⟨hdraft ▸ hfresh.lt_size, hfresh.later, hdraft ▸ hfresh.slot_eq,
      hdraft ▸ hfresh.loose⟩
  | generatedTwice left right s t u _ w v _ _ _ _ _ hevolves' hjoins' =>
    exact .inr (hjoins'.fresh hevolves'.sound)

/-- The node for join values is a predicate, and the expansion was reported. -/
theorem Joins.reported {recur : NodeId → Compile Fragment} {id : Nat} {link : Link}
    {left right : String} {v : NodeId} (h : Joins env recur id link left right p v q) :
    ∃ r ∈ q.reports, r.id = id ∧ r.Leaves (q.draft.arena.label v).kind := by
  cases h with
  | keys n _ hquery _ hdraft _ hreports =>
    obtain ⟨r, hid, hresolution, hreports⟩ := hreports
    refine ⟨r, by simp [hreports], hid, ?_⟩
    rw [Report.Leaves, hresolution, hdraft]
    simp [Arena.label_push_size]
  | scan n s t u _ filter post values hits hquery _ _ _ _ _ _ hdraft _ _ _ hreports =>
    obtain ⟨r, hid, -, hresolution, hreports⟩ := hreports
    refine ⟨r, by simp [hreports], hid, ?_⟩
    rw [Report.Leaves, hresolution, hdraft]
    simp [Arena.label_push_size, valuesLabel]

/-- What takes the place of an expansion is what was reported. -/
theorem Resolved.reported {recur : NodeId → Compile Fragment} {id : Nat} {target link : Link}
    {v : NodeId} (hp : Sound env p) (h : Resolved env recur id target link p v q) :
    ∃ r ∈ q.reports, r.id = id ∧ r.Leaves (q.draft.arena.label v).kind := by
  cases h with
  | inPlace n _ _ _ hdraft _ _ htree =>
    obtain ⟨r, hr, hid, ⟨own, hresolution⟩, hquery⟩ := htree
    refine ⟨r, hr, hid, ?_⟩
    rw [Report.Leaves, hresolution, hdraft, hquery]
    exact congrArg Label.kind (hp.ascending.holds_treeAt v).label_eq
  | joined path first last s _ v _ _ _ _ _ hjoins => exact hjoins.reported
  | generated s _ v _ hjoins _ hlooked =>
    obtain ⟨md, -, rfl⟩ := hlooked
    exact hjoins.reported
  | generatedTwice left right s t u _ w v _ _ _ _ _ _ hjoins' => exact hjoins'.reported

/-! ## Runs -/

section Runs

variable (fuel : Nat) (ih : ∀ n, Steps env (nodeWithin env fuel n))

include ih

/-- A compilation for a scan. -/
theorem leads_scanQuery (hp : Sound env p) (n : NodeId) :
    Leads env (scanQuery (nodeWithin env fuel) n) (fun filter q => ∃ t,
      exec (nodeWithin env fuel n) { p with aggregating := false } = (.ok filter, t) ∧
        q = { t with aggregating := p.aggregating }) p := by
  have hp' : Sound env { p with aggregating := false } := ⟨hp.ascending, hp.faithful⟩
  have hleave : ∀ t, Evolves env { p with aggregating := false } t →
      Evolves env p { t with aggregating := p.aggregating } := fun t ht =>
    ht.transfer rfl rfl rfl rfl rfl rfl rfl rfl ht.scopeDepth_eq ht.scopePath_eq rfl ht.generated_eq
  unfold Leads scanQuery
  rw [wp_bind, wp_get, wp_within]
  refine wp_mono (wp_and (ih n _ hp') (wp_exec _ _)) ?_ ?_
  · rintro filter t ⟨⟨ht, -⟩, hexec⟩
    exact ⟨hleave t ht, t, hexec, rfl⟩
  · rintro e t ⟨ht, -⟩
    exact hleave t ht

/-- The visibility of a scan. -/
theorem leads_visibility (hp : Sound env p) (id : NodeId) (link : Link) :
    Leads env (visibility env (nodeWithin env fuel) id link)
      (fun post q => Sees env (nodeWithin env fuel) id link p post q) p := by
  unfold visibility
  refine (leads_of_exec hp (exec_mapping hp link.index)).bind fun linked p₁ e₁ h => ?_
  obtain ⟨h₁, hindex⟩ := h
  split
  · next hvisible =>
    refine .pure e₁.sound (.unrestricted p₁ h₁ ⟨linked, hindex, fun hrestricted => ?_⟩)
    rw [hvisible] at hrestricted
    exact absurd hrestricted (by simp)
  · next hrestricted =>
    refine (Leads.get e₁.sound).bind fun s q _ hs => ?_
    obtain ⟨rfl, rfl⟩ := hs
    simp only
    split
    · next hnone =>
      refine .pure e₁.sound (.unrestricted q h₁ ⟨linked, hindex, fun _ scope hscope => ?_⟩)
      rw [hnone] at hscope
      exact absurd hscope (by simp)
    · next scope hscope =>
      split
      · next hwithin =>
        refine .pure e₁.sound (.unrestricted q h₁ ⟨linked, hindex, fun _ scope' hscope' => ?_⟩)
        rw [hscope] at hscope'
        cases hscope'
        exact hwithin
      · next hwithin =>
        refine (leads_scanQuery fuel ih e₁.sound scope).bind fun filter u eu hu => ?_
        obtain ⟨t, hexec, rfl⟩ := hu
        exact .pure eu.sound
          (.restricted scope filter q t h₁ hscope (eq_false_of_ne_true hwithin) hexec
            ⟨linked, hindex, eq_false_of_ne_true hrestricted⟩)

/-- The values of a join. -/
theorem leads_joinValues (hp : Sound env p) (id : NodeId) (link : Link) {left right : String}
    (hfields : JoinFields env.resolver p.metadata.primary link left right) :
    Leads env (joinValues env (nodeWithin env fuel) id link left right)
      (fun v q => Joins env (nodeWithin env fuel) id link left right p v q) p := by
  unfold joinValues
  refine (leads_queryOf hp id).bind fun n q _ h => ?_
  obtain ⟨hn, rfl⟩ := h
  refine (leads_labelOf hp n).bind fun label q' _ h => ?_
  obtain ⟨rfl, rfl⟩ := h
  refine (leads_arena hp).bind fun arena q _ h => ?_
  obtain ⟨rfl, rfl⟩ := h
  refine (leads_of_exec hp (exec_mapping hp link.index)).bind fun linked p₁ e₁ h => ?_
  -- three lookups come first; each one grows the metadata, and leaves what was known before
  obtain ⟨h₁, hindex⟩ := h
  refine (leads_of_exec e₁.sound (exec_mappingOf e₁.sound left)).bind fun leftOwner p₂ e₂ h => ?_
  obtain ⟨h₂, howner⟩ := h
  rw [e₁.grows.ownerMapping_eq] at howner
  refine (leads_of_exec e₂.sound (exec_mappingOf e₂.sound right)).bind fun rightOwner p₃ e₃ h => ?_
  obtain ⟨h₃, howner'⟩ := h
  rw [(e₁.trans e₂).grows.ownerMapping_eq] at howner'
  have hlooked := (h₁.trans h₂).trans h₃
  have hdraft := hlooked.draft_eq
  split
  · next hkeys =>
    simp only [isKeyQuery, Bool.and_eq_true, decide_eq_true_eq, Schema.Mapping.isPrimaryKey,
      beq_iff_eq] at hkeys
    have hgrows := ((e₁.trans e₂).trans e₃).grows
    refine (leads_report e₃.sound id link _ .keys rfl ⟨left, right, linked, leftOwner, rightOwner, ?_⟩).bind
      fun _ p₄ e₄ h₄ => ?_
    · have hlabel := (hp.ascending.holds_treeAt n).label_eq.symm
      constructor
      · rw [hgrows.primary_eq]
        exact hfields
      · exact hindex
      · rw [hgrows.ownerMapping_eq, howner]
      · rw [hgrows.ownerMapping_eq, howner']
      · exact (congrArg Label.kind hlabel).trans hkeys.1.1.1
      · exact (congrArg Label.field hlabel).trans hkeys.1.1.2
      · exact hkeys.1.2
      · exact hkeys.2
    refine (leads_push e₄.sound ⟨rfl, rfl⟩).mono fun v s _ h => ?_
    obtain ⟨rfl, rfl⟩ := h
    subst h₄
    rw [hdraft]
    obtain ⟨md, -, rfl⟩ := hlooked
    exact .keys n _ hn hkeys.1.1.1 rfl rfl ⟨_, rfl, rfl, rfl⟩
  · refine (leads_scanQuery fuel ih e₃.sound n).bind fun filter p₄ e₄ h₄ => ?_
    obtain ⟨t, hexec, rfl⟩ := h₄
    refine (leads_visibility fuel ih e₄.sound id link).bind fun post p₅ e₅ hsees => ?_
    have e₃₅ := e₄.trans e₅
    rw [← bind_assoc]
    refine (leads_scan e₅.sound id link _ _ ?_).bind fun found p₆ e₆ h₆ => ?_
    · -- the request asks for what the query was compiled to in the state after the lookups
      refine ⟨rfl, ⟨linked, hindex⟩, { p₃ with aggregating := false }, t, fuel, n, filter,
        ⟨e₃.sound.ascending, e₃.sound.faithful⟩, rfl, e₃₅.scopeDepth_eq.symm,
        e₃₅.arrayData_eq.symm, e₃₅.grows.origin_eq.symm, e₃₅.grows.primary_eq.symm,
        e₃₅.grows.links_eq.symm, ?_, ?_, hexec, rfl⟩
      · have hnlt := hp.ascending.child_lt id n (List.mem_of_getElem? hn)
        simpa only [hdraft] using hnlt
      · show p₃.draft.arena.treeAt n = _
        rw [hdraft]
        rfl
    · obtain ⟨values, hits⟩ := found
      obtain ⟨hrun, rfl⟩ := h₆
      refine (leads_push e₆.sound ⟨rfl, rfl⟩).mono fun v s _ h => ?_
      obtain ⟨rfl, rfl⟩ := h
      exact .scan n p₃ t p₅ _ filter post values hits hn hlooked hexec
        (((e₁.trans e₂).trans e₃).trans e₄) hsees e₅ hrun rfl rfl ⟨linked, hindex⟩ ⟨leftOwner, howner⟩
        ⟨_, rfl, rfl, rfl, rfl⟩

end Runs

/-- **In place**: the result is the query of the expansion. -/
theorem leads_substitute (hp : Sound env p) (id : NodeId) (link : Link) (own : Bool)
    (h : ∀ query, (reportOn p id link query (.inPlace own)).Genuine env p) :
    Leads env (substitute id link own) (fun n q => p.draft.arena.child? id 0 = some n ∧
      q.draft = p.draft ∧ q.scans = p.scans ∧
      (∃ r own, r.id = id ∧ r.resolution = .inPlace own ∧ q.reports = p.reports ++ [r]) ∧
      ∃ r ∈ q.reports, r.id = id ∧ (∃ own, r.resolution = .inPlace own) ∧
        r.query = p.draft.arena.treeAt n) p := by
  unfold substitute
  refine (leads_queryOf hp id).bind fun n q _ hn => ?_
  obtain ⟨hn, rfl⟩ := hn
  refine (leads_arena hp).bind fun arena q _ harena => ?_
  obtain ⟨rfl, rfl⟩ := harena
  refine (leads_report hp id link _ _ rfl (h _)).bind fun _ s es hs => ?_
  refine .pure es.sound ⟨hn, ?_⟩
  rw [hs]
  exact ⟨rfl, rfl, ⟨_, own, rfl, rfl, rfl⟩, _, List.mem_append_right _ List.mem_cons_self, rfl,
    ⟨own, rfl⟩, rfl⟩

section Runs

variable (fuel : Nat) (ih : ∀ n, Steps env (nodeWithin env fuel n))

include ih

theorem leads_resolveLink (hp : Sound env p) (id : NodeId) (link target : Link)
    (hgenerated : (p.draft.arena.label id).kind.isGenerated = false) :
    Leads env (resolveLink env (nodeWithin env fuel) id link target)
      (fun v q => Resolved env (nodeWithin env fuel) id target link p v q) p := by
  unfold resolveLink
  -- the join path is computed from the links alone
  have hjoin : Leads env (ofExcept (env.resolver.joinPath target link))
      (fun path q => env.resolver.joinPath target link = .ok path ∧ q = p) p := by
    unfold Leads
    rw [wp_ofExcept]
    cases env.resolver.joinPath target link with
    | error e => exact .refl hp
    | ok path => exact ⟨.refl hp, rfl, rfl⟩
  refine hjoin.bind fun path q _ h => ?_
  obtain ⟨hpath, rfl⟩ := h
  refine (leads_joinFields hp path).bind fun fields s es h => ?_
  obtain ⟨left, right, oneToOne⟩ := fields
  obtain ⟨hlooked, first, last, hfirst, hlast, rfl, rfl⟩ := h
  refine (Leads.get es.sound).bind fun s' s _ hs => ?_
  obtain ⟨rfl, rfl⟩ := hs
  split
  · next hsingle =>
    simp only [Bool.and_eq_true, beq_iff_eq, List.length_eq_one_iff] at hsingle
    obtain ⟨⟨-, used, hused⟩, hallow⟩ := hsingle
    refine (leads_substitute es.sound id link false fun query => ?_).mono fun n t _ h => ?_
    · exact ⟨hallow, used, hused ▸ List.prefix_refl _⟩
    · obtain ⟨md, -, rfl⟩ := hlooked
      exact .inPlace n t h.1 (.inr hallow) h.2.1 h.2.2.1 h.2.2.2.1 h.2.2.2.2
  · refine (leads_joinValues fuel ih es.sound id link ?_).mono fun v t _ h =>
      .joined path first last _ t v hgenerated hpath hfirst hlast hlooked h
    exact .ends target path first last hpath hfirst hlast

theorem leads_resolveGenerated (hp : Sound env p) (id : NodeId) (label : Label)
    (target link primary : Link) (hprimary : primary = p.metadata.primary)
    (hgenerated : (p.draft.arena.label id).kind.isGenerated = true) :
    Leads env (resolveGenerated env (nodeWithin env fuel) id label link primary)
      (fun v q => Resolved env (nodeWithin env fuel) id target link p v q) p := by
  unfold resolveGenerated
  refine (leads_joinValues fuel ih hp id link .own).bind fun w p₁ e₁ hjoins => ?_
  refine (leads_of_exec e₁.sound (exec_ownerOf e₁.sound _)).bind fun owner p₂ e₂ howner => ?_
  obtain ⟨hlooked, -⟩ := howner
  split
  · exact .pure e₂.sound (.generated p₁ p₂ w hgenerated hjoins e₁ hlooked)
  · -- the query of the second scan are the values of the first one
    have hfresh := hjoins.fresh hp
    have hlooked' := hlooked
    obtain ⟨md, -, rfl⟩ := hlooked
    refine (leads_setChild e₂.sound ?_).bind fun _ p₃ e₃ h₃ => ?_
    · exact e₂.sound.ascending.setChild 0 hfresh.later hfresh.lt_size hfresh.loose
    · subst h₃
      refine (leads_of_exec e₃.sound (exec_mapping e₃.sound link.index)).bind fun linked p₄ e₄ h => ?_
      obtain ⟨h₄, hlinked⟩ := h
      have hprimary' := (((e₁.trans e₂).trans e₃).trans e₄).grows.primary_eq.trans hprimary.symm
      refine (leads_joinValues fuel ih e₄.sound id link (hprimary' ▸ .keys linked hlinked)).mono
        fun v t _ h => ?_
      exact .generatedTwice _ _ p₁ _ p₄ t w v hgenerated hjoins e₁ hlooked' h₄
        ((e₂.trans e₃).trans e₄) h

/-- **Substitution**: a node replaced by another one, with a boost if there is one. -/
def substituted (arena : Arena) (id v : NodeId) (boost : Boost) : Arena :=
  if boost.isSome then (arena.replace id v).modifyLabel id fun label => { label with boost }
  else arena.replace id v

omit ih in
/-- The labels after a substitution. -/
theorem label_substituted {arena : Arena} (hasc : arena.Ascending) {id v : Nat} (hne : id ≠ v)
    (hid : id < arena.size) (hv : v < arena.size) (boost : Boost) (i : Nat) :
    (substituted arena id v boost).label i =
      if i = id then { arena.label v with boost := boost.or (arena.label v).boost }
      else arena.label i := by
  have hlabel := Arena.label_replace hne hid hv (hasc.not_mem_children_self v) i
  unfold substituted
  cases boost with
  | none => simpa using hlabel
  | some factor =>
    rw [Option.isSome_some, if_pos rfl,
      Arena.label_modifyLabel _ id i (by rwa [Arena.size_replace]), hlabel]
    by_cases hi : i = id
    · simp [hi]
    · rw [if_neg hi, if_neg (Ne.symm hi), if_neg hi]

omit ih in
/-- What takes the place of an expansion keeps the arena ascending. -/
theorem ascending_substituted (hp : Sound env p) {id v : Nat} (boost : Boost)
    (hid : id < p.draft.arena.size) (hv : p.draft.arena.child? id 0 = some v ∨ Fresh p id v) :
    (substituted p.draft.arena id v boost).Ascending := by
  have hreplace : (p.draft.arena.replace id v).Ascending := by
    rcases hv with hchild | hfresh
    · exact hp.ascending.replace_child (List.mem_of_getElem? hchild)
    · refine hp.ascending.replace hid ?_ fun j hj => absurd hj (hfresh.loose j)
      rw [hfresh.children_eq]
      simp
  unfold substituted
  split
  · exact hreplace.modifyLabel _ _
  · exact hreplace

omit ih in
/-- **An expansion gives way** to what it resolves to, which was reported, and passes its boost on. -/
theorem Resolved.evolves {id v : Nat} (h : Evolves env p s)
    (hexpansion : (p.draft.arena.label id).kind.isExpansion = true)
    (hv : s.draft.arena.child? id 0 = some v ∨ Fresh s id v)
    (hreport : ∃ r ∈ s.reports, r.id = id ∧ r.Leaves (s.draft.arena.label v).kind) :
    Evolves env p { s with draft := { s.draft with
      arena := substituted s.draft.arena id v (p.draft.arena.label id).boost } } := by
  have hasc := h.sound.ascending
  have hid := Nat.lt_of_lt_of_le (Arena.lt_size_of_isExpansion hexpansion) h.size_le
  -- the query comes after the expansion as its child, and a new node as the last one
  obtain ⟨hlt, hne⟩ : v < s.draft.arena.size ∧ id ≠ v := by
    rcases hv with hchild | hfresh
    · have hmem := List.mem_of_getElem? hchild
      exact ⟨hasc.child_lt id v hmem, Nat.ne_of_lt (hasc.lt_child id v hmem)⟩
    · exact ⟨hfresh.lt_size, Nat.ne_of_lt hfresh.later⟩
  have hlabel := label_substituted hasc hne hid hlt (p.draft.arena.label id).boost
  refine h.rewriteArena (ascending_substituted h.sound _ hid hv) ?_ (.of_kinds fun i => ?_)
    ⟨fun i hi hkind => ?_, fun i b hb => ?_⟩ fun i hi => ?_
  · unfold substituted
    split <;> simp
  · rw [hlabel]
    split
    · exact ⟨v, rfl⟩
    · exact ⟨i, rfl⟩
  · have hne : i ≠ id := by
      rintro rfl
      exact absurd (hkind.symm.trans hexpansion) (by simp)
    rw [hlabel, if_neg hne]
    exact h.keeps.kind_eq i hi hkind
  · rw [hlabel]
    split
    · next heq =>
      subst heq
      rw [hb]
      rfl
    · exact h.keeps.boost_eq i b hb
  · rw [hlabel]
    split
    · next heq =>
      subst heq
      exact .inr hreport
    · exact h.resolved i hi

/-- **Resolution** of an expansion: what it resolves to takes its place. -/
theorem leads_resolve (hp : Sound env p) (primary target : Link) (id : NodeId)
    (hprimary : primary = p.metadata.primary) :
    Leads env (resolve env (nodeWithin env fuel) primary target id) (fun _ q => ∃ link v s,
      (p.draft.arena.label id).kind.link? = some link ∧
        Resolved env (nodeWithin env fuel) id target link p v s ∧ Evolves env p s ∧
        q = { s with draft := { s.draft with
          arena := substituted s.draft.arena id v (p.draft.arena.label id).boost } }) p := by
  unfold resolve
  refine (leads_labelOf hp id).bind fun label q _ hlabel => ?_
  obtain ⟨rfl, rfl⟩ := hlabel
  refine (leads_linkOf hp id).bind fun link q _ hlink => ?_
  obtain ⟨hlink, rfl⟩ := hlink
  have hexpansion := Kind.isExpansion_of_link? hlink
  -- the boost is the one that the expansion had before it was resolved
  have hfinish : ∀ x, Leads env x (Resolved env (nodeWithin env fuel) id target link q) q →
      Leads env (do
        let v ← x
        modifyArena fun arena => arena.replace id v
        if (q.draft.arena.label id).boost.isSome then
          modifyArena fun arena => arena.modifyLabel id fun new =>
            { new with boost := (q.draft.arena.label id).boost }) (fun _ t => ∃ link v s,
      (q.draft.arena.label id).kind.link? = some link ∧
        Resolved env (nodeWithin env fuel) id target link q v s ∧ Evolves env q s ∧
        t = { s with draft := { s.draft with
          arena := substituted s.draft.arena id v (q.draft.arena.label id).boost } }) q := by
    intro x hx
    unfold Leads
    rw [wp_bind]
    refine wp_mono hx ?_ fun _ _ h => h
    rintro v s ⟨es, hv⟩
    have hexec : exec (do
        modifyArena fun arena => arena.replace id v
        if (q.draft.arena.label id).boost.isSome then
          modifyArena fun arena => arena.modifyLabel id fun new =>
            { new with boost := (q.draft.arena.label id).boost }) s =
        (.ok ⟨⟩, { s with draft := { s.draft with
          arena := substituted s.draft.arena id v (q.draft.arena.label id).boost } }) := by
      unfold substituted
      split <;> rfl
    refine (wp_of_ok hexec).mpr ⟨?_, link, v, s, hlink, hv, es, rfl⟩
    exact Resolved.evolves es hexpansion (hv.child_or_fresh hp) (hv.reported hp)
  refine (Leads.get hp).bind fun s q _ hs => ?_
  obtain ⟨rfl, rfl⟩ := hs
  simp only
  split
  · next hown =>
    simp only [Bool.and_eq_true, beq_iff_eq] at hown
    have hlink' := hown.2.trans hprimary
    exact hfinish _ ((leads_substitute hp id link true fun query => hlink').mono fun v s _ hv =>
      .inPlace v s hv.1 (.inl hlink') hv.2.1 hv.2.2.1 hv.2.2.2.1 hv.2.2.2.2)
  · split
    · next hgenerated =>
      exact hfinish _ (leads_resolveGenerated fuel ih hp id _ target link primary hprimary hgenerated)
    · next hgenerated =>
      exact hfinish _ (leads_resolveLink fuel ih hp id link target (eq_false_of_ne_true hgenerated))

end Runs

end LinkedSearch.Compile
