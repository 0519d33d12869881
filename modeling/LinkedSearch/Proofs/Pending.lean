import LinkedSearch.Proofs.Arena.Pending
import LinkedSearch.Proofs.Aggregates
import LinkedSearch.Proofs.Blaming
import LinkedSearch.Proofs.Rewriting

/-! # Expansions are there when it is their turn

The expansions in an expansion are resolved one after the other, and compiling the visibility of one
may resolve others. In an uncrossed arena it resolves none that is still pending:

* `Joins.pending`, `Resolved.pending`, `resolve_pending`: resolving the last pending expansion leaves
  the others pending.
* `Breaks`, `Firm`: what a computation that fails has done to the arena, and what it reports.
* `stack_firm`: no stack fails because an expansion is gone.
* `nodeWithin_firm`: no compilation does. -/

namespace LinkedSearch

open Query (Arena Kind Label NodeId)

namespace Compile

open Query.Arena (Rewrite Rewrites)

variable {α β : Type} {env : Environment} {p q s : Progress} {m n v : Nat} {ids : List NodeId}
  {link target : Link} {left right : String} {fuel : Nat}

/-! ## Resolving the last pending expansion -/

/-- The visibility of a scan leaves expansions pending. -/
theorem Sees.pending (hp : Sound env p) (huncrossed : p.draft.arena.Uncrossed)
    (hpending : p.draft.arena.Pending m (ids ++ [n])) {post : Option Fragment}
    (h : Sees env (nodeWithin env fuel) n link p post q) : q.draft.arena.Pending m (ids ++ [n]) := by
  cases h with
  | unrestricted _ hlooked => rwa [hlooked.arena_eq]
  | restricted scope filter s t hlooked hscope hwithin hexec =>
    have hs := (hlooked.evolves hp).sound
    rw [← hlooked.arena_eq] at hpending huncrossed
    have hfirst := (find?_eq_some_iff hs.ascending).mp hscope
    obtain ⟨root, -, hfound⟩ := id hfirst
    have hparent := hfound.condition_eq
    obtain ⟨hframed, -⟩ := nodeWithin_framed fuel scope { s with aggregating := false } t filter
      ⟨hs.ascending, hs.faithful⟩ (.inr ⟨scope, hfirst, .refl scope⟩)
      (Query.Arena.lt_size_of_isParent hparent) hexec
    refine hpending.framed hs.ascending hframed fun z hz => ?_
    refine hpending.not_below_scope hs.ascending huncrossed hparent (fun hbelow => ?_) hz
    have hn := Query.Arena.lt_size_of_isExpansion (hpending.isExpansion n (by simp))
    rw [hs.ascending.isWithin_of_below hbelow hn] at hwithin
    exact absurd hwithin (by simp)

/-- **Join values** leave expansions pending. -/
theorem Joins.pending (hp : Sound env p)
    (hsettled : ∀ c, p.draft.arena.child? n 0 = some c → p.draft.arena.Settled c)
    (huncrossed : p.draft.arena.Uncrossed)
    (hpending : p.draft.arena.Pending m (ids ++ [n]))
    (h : Joins env (nodeWithin env fuel) n link left right p v q) :
    q.draft.arena.Pending m (ids ++ [n]) := by
  have hpush : ∀ {arena : Arena} (label : Label), arena.Ascending →
      arena.Pending m (ids ++ [n]) → (arena.push label).1.Pending m (ids ++ [n]) := by
    intro arena label hasc h
    refine h.congr hasc (fun z hz => ?_) fun z _ x _ _ => Query.Arena.children_push label x
    rw [Query.Arena.label_push_of_lt label (Query.Arena.lt_size_of_isExpansion (h.isExpansion z hz))]
    exact h.isExpansion z hz
  cases h with
  | keys c _ _ _ hdraft _ =>
    rw [hdraft]
    exact hpush _ hp.ascending hpending
  | scan c s t u _ filter post values hits hquery hlooked hexec hevolves hsees hevolves' _ hdraft =>
    have hs := (hlooked.evolves hp).sound
    -- the query of the expansion is settled, so that compiling it changes no edge
    have hsettled' : ({ s with aggregating := false } : Progress).draft.arena.Settled c := by
      show s.draft.arena.Settled c
      rw [hlooked.arena_eq]
      exact hsettled c hquery
    have hrested := (wp_of_ok hexec).mp (nodeWithin_rests fuel
      (p := { s with aggregating := false }) ⟨hs.ascending, hs.faithful⟩ hsettled')
    have hdraft' : t.draft = p.draft := hrested.draft_eq.trans hlooked.draft_eq
    rw [← hdraft'] at hpending huncrossed
    rw [hdraft]
    exact hpush _ hevolves'.sound.ascending
      (hsees.pending (p := { t with aggregating := s.aggregating }) hevolves.sound huncrossed
        hpending)

/-- A new query for the last pending expansion. -/
theorem pending_setChild {arena : Arena} (hasc : arena.Ascending)
    (h : arena.Pending m (ids ++ [n])) (w : NodeId) :
    (arena.setChild n 0 w).Pending m (ids ++ [n]) := by
  have hn := Query.Arena.lt_size_of_isExpansion (h.isExpansion n (by simp))
  refine h.congr hasc (fun z hz => ?_) fun z hz x hx hne => ?_
  · rw [Query.Arena.label_setChild]
    exact h.isExpansion z hz
  · rw [Query.Arena.children_setChild _ _ _ _ _ hn, if_neg]
    rintro rfl
    rcases List.mem_append.mp hz with hz | hz
    · exact h.not_below_last hasc hz hx
    · exact hne (List.mem_singleton.mp hz).symm

section Resolved

variable (hp : Sound env p)
  (hquery : ∀ c, p.draft.arena.child? n 0 = some c →
    p.draft.arena.Settled c ∧ p.draft.arena.Bare c)
  (huncrossed : p.draft.arena.Uncrossed) (hpending : p.draft.arena.Pending m (ids ++ [n]))

include hp hquery huncrossed hpending

/-- What resolves an expansion leaves it pending until it takes its place. -/
theorem Resolved.pending (h : Resolved env (nodeWithin env fuel) n target link p v q) :
    q.draft.arena.Pending m (ids ++ [n]) := by
  have hn := hpending.isExpansion n (by simp)
  have hsettled := fun c hc => (hquery c hc).1
  cases h with
  | inPlace _ _ _ _ hdraft _ => rwa [hdraft]
  | joined path first last s _ _ _ _ _ _ hlooked hjoins =>
    have hs := (hlooked.evolves hp).sound
    rw [← hlooked.arena_eq] at hsettled huncrossed hpending
    exact hjoins.pending hs hsettled huncrossed hpending
  | generated s _ _ _ hjoins _ hlooked =>
    rw [hlooked.arena_eq]
    exact hjoins.pending hp hsettled huncrossed hpending
  | generatedTwice left right s t u _ w _ _ hjoins hevolves hlooked hlooked' hevolves' hjoins' =>
    obtain ⟨hrequeried, -, husettled⟩ :=
      hjoins.requeried (fun _ => True) (nodeWithin_proceeds fuel) hp hn hquery trivial hlooked
        hlooked'
    have hfirst := hjoins.pending hp hsettled huncrossed hpending
    rw [← hlooked.arena_eq] at hfirst
    have hupending := pending_setChild (hlooked.evolves hevolves.sound).sound.ascending hfirst w
    refine hjoins'.pending hevolves'.sound (fun c hc => (husettled c hc).1)
      (hrequeried.rewrites.uncrossed hp.ascending huncrossed) ?_
    rwa [hlooked'.arena_eq]

/-- **Resolving the last pending expansion** leaves the others pending. -/
theorem resolve_pending
    (h : exec (resolve env (nodeWithin env fuel) p.metadata.primary target n) p = (.ok (), q)) :
    q.draft.arena.Pending m ids := by
  obtain ⟨-, link, v, s, -, hresolved, hps, rfl⟩ :=
    (wp_of_ok h).mp (leads_resolve fuel (nodeWithin_steps fuel) hp _ target n rfl)
  have hpending' := hresolved.pending hp hquery huncrossed hpending
  have hn := Query.Arena.lt_size_of_isExpansion (hpending'.isExpansion n (by simp))
  have hframed := substituted_framed hps.sound hn (hresolved.child_or_fresh hp)
    (p.draft.arena.label n).boost
  exact hpending'.initial.framed hps.sound.ascending hframed fun z hz =>
    hpending'.not_below_last hps.sound.ascending hz

end Resolved

/-! ## Failures -/

/-- **Breaking off**: a computation that fails has at most rewritten an earlier arena, and reports an
error with some property. -/
def Breaks (P : Error → Prop) (base : Arena) (x : Compile α) (p : Progress) : Prop :=
  wp x (fun _ _ => True) (fun error q => base.Rewrites q.draft.arena ∧ P error) p

/-- **Firm** compilations break off like this in every uncrossed arena. -/
def Firm (env : Environment) (P : Error → Prop) (recur : NodeId → Compile Fragment) : Prop :=
  ∀ (n : Nat) (p : Progress), Sound env p → n < p.draft.arena.size → p.draft.arena.Uncrossed →
    Breaks P p.draft.arena (recur n) p

variable {P : Error → Prop} {base : Arena}

namespace Breaks

theorem pure (a : α) : Breaks P base (pure a) p := trivial

/-- What has happened before may be counted in. -/
theorem rebase {x : Compile α} (h : Breaks P p.draft.arena x p)
    (hbase : base.Rewrites p.draft.arena) : Breaks P base x p :=
  wp_mono h (fun _ _ _ => trivial) fun _ _ h => ⟨hbase.trans h.1, h.2⟩

/-- A sequence breaks off in one of its parts. -/
theorem bind {x : Compile β} {f : β → Compile α} {R : β → Progress → Prop} (hx : Breaks P base x p)
    (hleads : Leads env x R p)
    (hf : ∀ b q, Evolves env p q → R b q → Breaks P base (f b) q) : Breaks P base (x >>= f) p := by
  unfold Breaks
  rw [wp_bind]
  refine wp_mono (wp_and hx hleads) ?_ fun _ _ h => h.1
  rintro b q ⟨-, hpq, hR⟩
  exact hf b q hpq hR

/-- A sequence of which only the first part may fail. -/
theorem bind_safe {x : Compile β} {f : β → Compile α} (hx : Breaks P base x p)
    (hf : ∀ b q, wp (f b) (fun _ _ => True) (fun _ _ => False) q) : Breaks P base (x >>= f) p := by
  unfold Breaks
  rw [wp_bind]
  exact wp_mono hx (fun b q _ => wp_mono (hf b q) (fun _ _ _ => trivial) fun _ _ => False.elim)
    fun _ _ h => h

/-- Lookups break off without any change, and report what they are to be blamed for. -/
theorem of_looks {x : Compile α} (hbase : base.Rewrites p.draft.arena) (h : Looks env x p)
    (hblames : Blames env P x) : Breaks P base x p := by
  obtain ⟨outcome, q, hexec, md, -, rfl⟩ := h
  cases outcome with
  | ok a => exact (wp_of_ok hexec).mpr trivial
  | error error =>
    refine (wp_of_error hexec).mpr ⟨hbase, ?_⟩
    rcases (wp_of_error hexec).mp (hblames p) with hP | ⟨earlier, request, hearlier, hlast, -⟩
    · exact hP
    · -- a lookup is no scan
      have hlength : p.scans.length = earlier.length + 1 := by
        simpa using congrArg List.length hlast
      have hle := hearlier.length_le
      omega

/-- A sequence that starts with a lookup. -/
theorem looks_bind {x : Compile β} {f : β → Compile α} (hp : Sound env p)
    (hbase : base.Rewrites p.draft.arena) (h : Looks env x p) (hblames : Blames env P x)
    (hf : ∀ b q, Looked env p q → Breaks P base (f b) q) : Breaks P base (x >>= f) p :=
  (of_looks hbase h hblames).bind (h.leads hp) fun b q _ hlooked => hf b q hlooked

/-- A change of the progress apart from the arena. -/
theorem within {enter leave : Progress → Progress} {x : Compile α}
    (hleave : ∀ q, (leave q).draft = q.draft) (h : Breaks P base x (enter p)) :
    Breaks P base (within enter leave x) p := by
  unfold Breaks
  rw [wp_within]
  refine wp_mono h (fun _ _ _ => trivial) fun _ q hq => ?_
  rwa [hleave]

end Breaks

section Failures

variable (hP : env.Reports P)
  (hanswers : ∀ earlier request error, (env.executor.run earlier request).outcome = .error error →
    P error)
  (hrecur : Firm env P (nodeWithin env fuel))

include hP hanswers hrecur

omit hP hanswers in
/-- A compilation for a scan. -/
theorem scanQuery_breaks (hp : Sound env p) (hn : n < p.draft.arena.size)
    (huncrossed : p.draft.arena.Uncrossed) :
    Breaks P p.draft.arena (scanQuery (nodeWithin env fuel) n) p := by
  have h := hrecur n { p with aggregating := false } ⟨hp.ascending, hp.faithful⟩ hn huncrossed
  unfold scanQuery Breaks
  rw [wp_bind, wp_get]
  exact h.within fun _ => rfl

omit hanswers in
/-- The visibility of a scan. -/
theorem visibility_breaks (hp : Sound env p) (huncrossed : p.draft.arena.Uncrossed) (id : NodeId)
    (link : Link) :
    Breaks P p.draft.arena (visibility env (nodeWithin env fuel) id link) p := by
  unfold visibility
  refine .looks_bind hp (.refl _) (mapping_looks hp _) (mapping_blames hP _)
    fun mapping q hlooked => ?_
  have hq := (hlooked.evolves hp).sound
  rw [← hlooked.arena_eq] at huncrossed ⊢
  split
  · exact .pure _
  · unfold Breaks
    rw [wp_bind, wp_get]
    simp only
    split
    · trivial
    · next scope hscope =>
      obtain ⟨root, -, hfound⟩ := (find?_eq_some_iff hq.ascending).mp hscope
      split
      · trivial
      · refine (scanQuery_breaks hrecur hq ?_ huncrossed).bind_safe fun _ _ => trivial
        exact Query.Arena.lt_size_of_isParent hfound.condition_eq

/-- **Join values**, for an expansion whose query is settled. -/
theorem joinValues_breaks (hp : Sound env p) (huncrossed : p.draft.arena.Uncrossed) (id : NodeId)
    (hsettled : ∀ c, p.draft.arena.child? id 0 = some c → p.draft.arena.Settled c) (link : Link)
    (left right : String) :
    Breaks P p.draft.arena (joinValues env (nodeWithin env fuel) id link left right) p := by
  unfold joinValues
  -- an expansion without a query fails with an ordinary error
  have hquery : Breaks P p.draft.arena (queryOf id) p := by
    unfold queryOf Breaks
    rw [wp_bind, wp_arena]
    split
    · trivial
    · exact ⟨.refl _, hP.ordinary _ rfl⟩
  refine hquery.bind (leads_queryOf hp id) fun n q _ h => ?_
  obtain ⟨hn, rfl⟩ := h
  unfold Breaks
  rw [wp_bind, wp_labelOf, wp_bind, wp_arena]
  -- the three lookups leave the arena alone, so that all that is known about it still holds
  refine Breaks.looks_bind hp (.refl _) (mapping_looks hp _) (mapping_blames hP _)
    fun linked p₁ h₁ => ?_
  have e₁ := h₁.evolves hp
  rw [← h₁.arena_eq] at huncrossed hsettled hn ⊢
  refine .looks_bind e₁.sound (.refl _) (mappingOf_looks e₁.sound _) (mappingOf_blames hP _)
    fun leftOwner p₂ h₂ => ?_
  have e₂ := h₂.evolves e₁.sound
  rw [← h₂.arena_eq] at huncrossed hsettled hn ⊢
  refine .looks_bind e₂.sound (.refl _) (mappingOf_looks e₂.sound _) (mappingOf_blames hP _)
    fun rightOwner p₃ h₃ => ?_
  have e₃ := h₃.evolves e₂.sound
  rw [← h₃.arena_eq] at huncrossed hsettled hn ⊢
  split
  · exact Breaks.bind_safe (x := report _ _ _ _) trivial fun _ _ => trivial
  · have hnlt := e₃.sound.ascending.child_lt id n (List.mem_of_getElem? hn)
    refine (scanQuery_breaks hrecur e₃.sound hnlt huncrossed).bind
      (leads_scanQuery fuel (nodeWithin_steps fuel) e₃.sound n) fun filter p₄ e₄ h₄ => ?_
    obtain ⟨t, hexec, rfl⟩ := h₄
    have hrewrites := nodeWithin_rewrites fuel n { p₃ with aggregating := false } t filter
      ⟨e₃.sound.ascending, e₃.sound.faithful⟩ hnlt hexec
    have huncrossed' := hrewrites.uncrossed e₃.sound.ascending huncrossed
    refine ((visibility_breaks hP hrecur e₄.sound huncrossed' id link).rebase hrewrites).bind
      (leads_visibility fuel (nodeWithin_steps fuel) e₄.sound id link) fun post p₅ e₅ hsees => ?_
    have hrewrites' := hrewrites.trans
      (hsees.rewrites (p := { t with aggregating := p₃.aggregating }) e₄.sound)
    unfold Breaks report scan
    rw [wp_bind, wp_modify, wp_bind, wp_bind, wp_get, wp_bind, wp_modify, wp_ofExcept]
    split
    · rw [wp_push]
      trivial
    · next error hrun => exact ⟨hrewrites', hanswers _ _ error hrun⟩

omit hanswers hrecur in
/-- The query of an expansion in the place of it. -/
theorem substitute_breaks (id : NodeId) (link : Link) (own : Bool) :
    Breaks P p.draft.arena (substitute id link own) p := by
  unfold substitute queryOf Breaks report
  rw [wp_bind, wp_bind, wp_arena]
  split
  · rw [wp_pure, wp_bind, wp_arena, wp_bind, wp_modify]
    trivial
  · exact ⟨.refl _, hP.ordinary _ rfl⟩

/-- What an expansion over a join path resolves to. -/
theorem resolveLink_breaks (hp : Sound env p) (huncrossed : p.draft.arena.Uncrossed) (id : NodeId)
    (hsettled : ∀ c, p.draft.arena.child? id 0 = some c → p.draft.arena.Settled c)
    (link target : Link) :
    Breaks P p.draft.arena (resolveLink env (nodeWithin env fuel) id link target) p := by
  unfold resolveLink
  refine .looks_bind hp (.refl _) (.ofExcept _) (.ofExcept fun error => hP.joinPath _ _ error)
    fun path q hlooked => ?_
  have hq := (hlooked.evolves hp).sound
  rw [← hlooked.arena_eq] at huncrossed hsettled ⊢
  refine .looks_bind hq (.refl _) ⟨_, exec_joinFields hq path⟩ (joinFields_blames hP path)
    fun fields s hlooked' => ?_
  rw [← hlooked'.arena_eq] at huncrossed hsettled ⊢
  unfold Breaks
  rw [wp_bind, wp_get]
  split
  · exact substitute_breaks hP id link false
  · exact joinValues_breaks hP hanswers hrecur (hlooked'.evolves hq).sound huncrossed id hsettled
      link _ _

/-- What an expansion over a synthesized link resolves to. -/
theorem resolveGenerated_breaks (hp : Sound env p) (huncrossed : p.draft.arena.Uncrossed)
    (hn : (p.draft.arena.label n).kind.isExpansion = true)
    (hquery : ∀ c, p.draft.arena.child? n 0 = some c →
      p.draft.arena.Settled c ∧ p.draft.arena.Bare c) (label : Label) (link primary : Link) :
    Breaks P p.draft.arena (resolveGenerated env (nodeWithin env fuel) n label link primary) p := by
  have hproceeding : Proceeding env (nodeWithin env fuel) := nodeWithin_proceeds fuel
  have hsettled := fun c hc => (hquery c hc).1
  unfold resolveGenerated
  refine (joinValues_breaks hP hanswers hrecur hp huncrossed n hsettled link _ _).bind
    (leads_joinValues fuel (nodeWithin_steps fuel) hp n link .own) fun w s es hjoins => ?_
  obtain ⟨u, pushed, hu, hpushed, -, -, hs, -⟩ :=
    hjoins.proceeds (fun _ => True) hproceeding hp hn hsettled trivial
  have hbase : p.draft.arena.Rewrites s.draft.arena := by
    rw [hs]
    exact hu.rewrites.trans (Rewrite.push u.draft.arena pushed hpushed).rewrites
  refine .looks_bind es.sound hbase ⟨_, exec_ownerOf es.sound _⟩ (ownerOf_blames hP _)
    fun owner t hlooked => ?_
  have ht := (hlooked.evolves es.sound).sound
  split
  · exact .pure _
  · -- the values of the first scan become the query of the second one
    have hfresh := hjoins.fresh hp
    have hset : Sound env { t with draft := { t.draft with arena := t.draft.arena.setChild n 0 w } } := by
      refine ⟨ht.ascending.setChild 0 hfresh.later ?_ ?_, ht.faithful⟩
      · rw [hlooked.arena_eq]
        exact hfresh.lt_size
      · rw [hlooked.arena_eq]
        exact hfresh.loose
    have hrequeried := fun {u : Progress} =>
      hjoins.requeried (u := u) (fun _ => True) hproceeding hp hn hquery trivial hlooked
    unfold Breaks
    rw [wp_bind, wp_modifyArena]
    refine Breaks.looks_bind hset (hrequeried (.refl _)).1.rewrites (mapping_looks hset _)
      (mapping_blames hP _) fun linked u hlooked' => ?_
    obtain ⟨hbase, -, husettled⟩ := hrequeried hlooked'
    have hu := (hlooked'.evolves hset).sound
    exact (joinValues_breaks hP hanswers hrecur hu (hbase.rewrites.uncrossed hp.ascending huncrossed) n
      (fun c hc => (husettled c hc).1) link _ _).rebase hbase.rewrites

/-- **Resolving an expansion** that is there, whose query is settled and bare. -/
theorem resolve_breaks (hp : Sound env p) (huncrossed : p.draft.arena.Uncrossed)
    (hn : (p.draft.arena.label n).kind.isExpansion = true)
    (hquery : ∀ c, p.draft.arena.child? n 0 = some c →
      p.draft.arena.Settled c ∧ p.draft.arena.Bare c) (primary target : Link) :
    Breaks P p.draft.arena (resolve env (nodeWithin env fuel) primary target n) p := by
  obtain ⟨link, generated, hkind⟩ := Kind.exists_of_isExpansion hn
  have hfinish : ∀ v q, wp (do
      modifyArena fun arena => arena.replace n v
      if (p.draft.arena.label n).boost.isSome then
        modifyArena fun arena => arena.modifyLabel n fun new =>
          { new with boost := (p.draft.arena.label n).boost })
      (fun _ _ => True) (fun _ _ => False) q := by
    intro v q
    rw [wp_bind, wp_modifyArena]
    split <;> trivial
  have hlinkOf : exec (linkOf n) p = (.ok link, p) := exec_linkOf (by rw [hkind]; rfl)
  unfold resolve Breaks
  rw [wp_bind, wp_labelOf, wp_bind, wp_of_ok hlinkOf, wp_bind, wp_get]
  simp only
  split
  · exact (substitute_breaks hP n link true).bind_safe hfinish
  · split
    · exact (resolveGenerated_breaks hP hanswers hrecur hp huncrossed hn hquery _ link
        primary).bind_safe hfinish
    · exact (resolveLink_breaks hP hanswers hrecur hp huncrossed n (fun c hc => (hquery c hc).1) link
        target).bind_safe hfinish

/-! ### Stacks -/

/-- What the resolution of a stack that was computed in an earlier arena does to an uncrossed arena in
which it is the end of a list of pending expansions. -/
def StackFirm (env : Environment) (P : Error → Prop) (fuel : Nat) (primary target : Link)
    (top : NodeId) (arena : Arena) (depth m : Nat) : Prop :=
  ∀ p ids, Sound env p → primary = p.metadata.primary → arena.Advanced p.draft.arena →
    p.draft.arena.Uncrossed → p.draft.arena.Pending top (ids ++ arena.expansionsWithin depth m) →
    wp ((arena.expansionsWithin depth m).reverse.forM (resolve env (nodeWithin env fuel) primary target))
      (fun _ q => q.draft.arena.Pending top ids)
      (fun error q => p.draft.arena.Rewrites q.draft.arena ∧ P error) p

variable {primary : Link} {top : NodeId} {arena : Arena} (harena : arena.Ascending)

omit hP hanswers hrecur in
include harena in
/-- The stacks below some nodes, the last one first. -/
theorem stacks_firm {depth : Nat} (cs : List NodeId)
    (hcs : ∀ c ∈ cs, (c : Nat) < arena.size ∧ arena.size ≤ depth + c)
    (ih : ∀ c ∈ cs, StackFirm env P fuel primary target top arena depth c) (hp : Sound env p)
    (hprimary : primary = p.metadata.primary) (hadvanced : arena.Advanced p.draft.arena)
    (huncrossed : p.draft.arena.Uncrossed)
    (hpending : p.draft.arena.Pending top (ids ++ cs.flatMap (arena.expansionsWithin depth))) :
    wp ((cs.flatMap (arena.expansionsWithin depth)).reverse.forM
      (resolve env (nodeWithin env fuel) primary target))
      (fun _ q => q.draft.arena.Pending top ids)
      (fun error q => p.draft.arena.Rewrites q.draft.arena ∧ P error) p := by
  induction cs generalizing ids with
  | nil => simpa using hpending
  | cons c rest ihr =>
    have hlater := fun c' hc' => hcs c' (List.mem_cons_of_mem c hc')
    rw [List.flatMap_cons, ← List.append_assoc] at hpending
    rw [List.flatMap_cons, List.reverse_append, wp_forM_append]
    refine wp_mono (wp_and (ihr hlater (fun c' hc' => ih c' (List.mem_cons_of_mem c hc')) hpending)
      (wp_exec _ _)) ?_ fun _ _ h => h.1
    rintro _ s ⟨hspending, hrest⟩
    obtain ⟨hps, hadvance, -⟩ := stacks_settle harena rest hlater hp hprimary hadvanced hrest
    have hrewrites := stacks_rewrites harena rest hlater hp hprimary hadvanced hrest
    exact wp_mono (ih c List.mem_cons_self s ids hps.sound
      (hprimary.trans hps.grows.primary_eq.symm) (hadvanced.trans hadvance.advanced)
      (hrewrites.uncrossed hp.ascending huncrossed) hspending) (fun _ _ h => h)
      fun _ _ h => ⟨hrewrites.trans h.1, h.2⟩

include harena in
/-- **A stack that was computed in advance** is resolved to its end, or breaks off for some other reason
than that an expansion is gone. -/
theorem stack_firm (depth m : Nat) (hm : m < arena.size) (hdepth : arena.size ≤ depth + m) :
    StackFirm env P fuel primary target top arena depth m := by
  induction depth generalizing m with
  | zero => omega
  | succ depth ih =>
    have hlater := harena.reach_children hdepth
    intro p ids hp hprimary hadvanced huncrossed hpending
    rw [Query.Arena.expansionsWithin] at hpending ⊢
    split at hpending
    · next hkind =>
      rw [if_pos hkind, List.reverse_cons, wp_forM_append]
      rw [← List.singleton_append, ← List.append_assoc] at hpending
      -- the query of the expansion comes first
      have hinner : wp (((arena.child? m 0).elim [] (arena.expansionsWithin depth)).reverse.forM
          (resolve env (nodeWithin env fuel) primary target))
          (fun _ s => s.draft.arena.Pending top (ids ++ [m]) ∧ Evolves env p s ∧ Advance p s ∧
            p.draft.arena.Rewrites s.draft.arena ∧
            ∀ c, arena.child? m 0 = some c → s.draft.arena.Settled c ∧ s.draft.arena.Bare c)
          (fun error q => p.draft.arena.Rewrites q.draft.arena ∧ P error) p := by
        cases hc : arena.child? m 0 with
        | none =>
          rw [hc] at hpending
          exact ⟨by simpa using hpending, .refl hp, .refl p, .refl _, by simp⟩
        | some c =>
          rw [hc] at hpending
          obtain ⟨hlt, hreach⟩ := hlater c (List.mem_of_getElem? hc)
          refine wp_mono (wp_and (ih c hlt hreach p (ids ++ [m]) hp hprimary hadvanced huncrossed
            hpending) (wp_exec _ _)) ?_ fun _ _ h => h.1
          rintro _ s ⟨hspending, hexec⟩
          obtain ⟨hps, hadvance, hsettled⟩ := stack_advance (nodeWithin_advance fuel) harena depth c
            hlt hreach p s hp hprimary hadvanced hexec
          obtain ⟨hrewrites, hbare⟩ := stack_rewrites harena depth c hlt hreach hp hprimary hadvanced
            hexec
          refine ⟨hspending, hps, hadvance, hrewrites, fun c' hc' => ?_⟩
          cases hc'
          exact ⟨hsettled, hbare⟩
      refine wp_mono hinner ?_ fun _ _ h => h
      rintro _ s ⟨hspending, hps, hadvance, hrewrites, hquery⟩
      have huncrossed' := hrewrites.uncrossed hp.ascending huncrossed
      have hexpansion := hspending.isExpansion m (by simp)
      have hquery' : ∀ c, s.draft.arena.child? m 0 = some c →
          s.draft.arena.Settled c ∧ s.draft.arena.Bare c := by
        intro c hc
        rw [(hadvanced.trans hadvance.advanced).child?_eq hexpansion] at hc
        exact hquery c hc
      have hprimary' := hprimary.trans hps.grows.primary_eq.symm
      show wp ([m].forM _) _ _ s
      rw [wp_forM_cons]
      refine wp_mono (wp_and (resolve_breaks hP hanswers hrecur hps.sound huncrossed' hexpansion
        hquery' primary target) (wp_exec _ _)) ?_ fun _ _ h => ⟨hrewrites.trans h.1.1, h.1.2⟩
      rintro _ q ⟨-, hself⟩
      rw [hprimary'] at hself
      exact resolve_pending hps.sound hquery' huncrossed' hspending hself
    · next hkind =>
      rw [if_neg hkind]
      exact stacks_firm harena _ hlater (fun c hc => ih c (hlater c hc).1 (hlater c hc).2) hp
        hprimary hadvanced huncrossed hpending

/-- **A compiled expansion.** -/
theorem expand_breaks (hp : Sound env p) (huncrossed : p.draft.arena.Uncrossed)
    (hlink : (p.draft.arena.label n).kind.link? = some link) :
    Breaks P p.draft.arena (expand env (nodeWithin env fuel) n) p := by
  have hn := Kind.isExpansion_of_link? hlink
  have hnlt := Query.Arena.lt_size_of_isExpansion hn
  have hpending := Query.Arena.Pending.of_expansions hp.ascending hn
  -- stripping the name of the link changes fields only
  have hrest : ∀ t : Progress, Sound env t → t.metadata = p.metadata →
      p.draft.arena.Advanced t.draft.arena → p.draft.arena.Rewrites t.draft.arena →
      t.draft.arena.Pending n ([] ++ p.draft.arena.expansions n) → ∀ target,
      Breaks P p.draft.arena (do
        (p.draft.arena.expansions n).reverse.forM
          (resolve env (nodeWithin env fuel) p.metadata.primary target)
        nodeWithin env fuel n) t := by
    intro t ht hmetadata hadvanced hbase hpending target
    have hprimary : p.metadata.primary = t.metadata.primary := by rw [hmetadata]
    have huncrossed' := hbase.uncrossed hp.ascending huncrossed
    unfold Breaks
    rw [wp_bind]
    refine wp_mono (wp_and (stack_firm hP hanswers hrecur hp.ascending _ n hnlt (by omega) t [] ht
      hprimary hadvanced huncrossed' hpending) (wp_exec _ _)) ?_
      fun _ _ h => ⟨hbase.trans h.1.1, h.1.2⟩
    rintro _ q ⟨-, hexec⟩
    obtain ⟨htq, -, -⟩ := stack_advance (nodeWithin_advance fuel) hp.ascending _ n hnlt (by omega)
      t q ht hprimary hadvanced hexec
    obtain ⟨hrewrites, -⟩ := stack_rewrites hp.ascending _ n hnlt (by omega) ht hprimary hadvanced hexec
    exact (hrecur n q htq.sound
      (Nat.lt_of_lt_of_le hnlt (Nat.le_trans hadvanced.size_le htq.size_le))
      (hrewrites.uncrossed ht.ascending huncrossed')).rebase (hbase.trans hrewrites)
  unfold expand Breaks
  rw [wp_bind, wp_of_ok (exec_linkOf hlink), wp_bind, wp_arena, wp_bind, wp_get, wp_bind, wp_get]
  simp only
  split
  · next name hname =>
    obtain ⟨hsize, hkind, hchildren, hparent⟩ := p.draft.arena.stripName_spec n name
    rw [wp_bind, wp_modifyArena]
    refine hrest { p with draft := { p.draft with arena := p.draft.arena.stripName n name } }
      ⟨hp.ascending.of_edges hsize hchildren hparent, hp.faithful⟩ rfl
      (.of_same hsize hkind hchildren) (Rewrite.strip _ n name hn).rewrites ?_ _
    refine hpending.congr hp.ascending (fun z hz => ?_) fun z _ x _ _ => hchildren x
    show ((p.draft.arena.stripName n name).label z).kind.isExpansion = true
    rw [hkind]
    exact hpending.isExpansion z hz
  · exact hrest p hp rfl (.refl _) (.refl _) hpending _

/-! ### Nodes -/

omit hP hanswers in
/-- Some nodes, compiled one after the other. -/
theorem mapM_breaks (cs : List NodeId) (hp : Sound env p) (huncrossed : p.draft.arena.Uncrossed)
    (hcs : ∀ c ∈ cs, (c : Nat) < p.draft.arena.size) :
    Breaks P p.draft.arena (cs.mapM (nodeWithin env fuel)) p := by
  induction cs generalizing p with
  | nil => exact .pure []
  | cons c rest ih =>
    rw [List.mapM_cons]
    have hc := hcs c List.mem_cons_self
    have hleads : Leads env (nodeWithin env fuel c)
        (fun fragment q => exec (nodeWithin env fuel c) p = (.ok fragment, q)) p :=
      wp_mono (wp_and (nodeWithin_steps fuel c p hp) (wp_exec _ _))
        (fun _ _ h => ⟨h.1.1, h.2⟩) fun _ _ h => h.1
    refine (hrecur c p hp hc huncrossed).bind hleads fun fragment q hpq hexec => ?_
    have hrewrites := nodeWithin_rewrites fuel c p q fragment hp hc hexec
    refine ((ih hpq.sound (hrewrites.uncrossed hp.ascending huncrossed) fun c' hc' => ?_).rebase
      hrewrites).bind_safe fun _ _ => trivial
    exact Nat.lt_of_lt_of_le (hcs c' (List.mem_cons_of_mem c hc')) hpq.size_le

/-- One level of a compilation. -/
theorem node_breaks (hp : Sound env p) (hn : n < p.draft.arena.size)
    (huncrossed : p.draft.arena.Uncrossed) :
    Breaks P p.draft.arena (node env (nodeWithin env fuel) n) p := by
  have hchildren := hp.ascending.child_lt n
  -- clauses and joins break off where their children do
  have hclauses : ∀ wrap : List Fragment → Fragment, Breaks P p.draft.arena (do
      return wrap (← (← childrenOf n).mapM (nodeWithin env fuel))) p := by
    intro wrap
    unfold Breaks
    rw [wp_bind, wp_childrenOf]
    exact (mapM_breaks hrecur _ hp huncrossed hchildren).bind_safe fun _ _ => trivial
  have hjoined : ∀ join, Breaks P p.draft.arena (joined env (nodeWithin env fuel) join n) p := by
    intro join
    unfold joined Breaks
    rw [wp_bind, wp_childrenOf]
    split
    · trivial
    · next child rest heq =>
      exact (hrecur child p hp (hchildren child (by simp [heq])) huncrossed).bind_safe
        fun _ _ => trivial
  unfold node Breaks
  rw [wp_bind, wp_labelOf]
  split
  · exact hclauses _
  · exact hclauses _
  · rw [wp_bind, wp_get]
    split
    · trivial
    · exact hclauses _
  · -- a scope looks its path up before its children are compiled
    have hrest : ∀ q : Progress, q.draft = p.draft → Sound env q → Breaks P p.draft.arena
        (scopeClauses (nodeWithin env fuel) (p.draft.arena.children n)) q := by
      intro q hdraft hq
      unfold scopeClauses
      refine Breaks.bind_safe (.within (fun _ => rfl) ?_) fun fragments t => ?_
      · rw [← hdraft] at huncrossed hchildren ⊢
        exact mapM_breaks hrecur (p := { q with scopeDepth := q.scopeDepth + 1 }) _
          ⟨hq.ascending, hq.faithful⟩ huncrossed hchildren
      · rw [wp_bind, wp_get]
        split
        · trivial
        · rw [wp_bind, wp_set]
          split <;> trivial
    unfold scope
    rw [wp_bind, wp_childrenOf, wp_bind, wp_get]
    simp only
    split
    · refine Breaks.looks_bind hp (.refl _) (sharedPath_looks hp n) (sharedPath_blames hP n)
        fun path q hlooked => ?_
      have hq := (hlooked.evolves hp).sound
      exact hrest { q with scopePath := path } hlooked.draft_eq ⟨hq.ascending, hq.faithful⟩
    · exact hrest p rfl hp
  · exact hjoined _
  · rw [wp_bind, wp_get]
    split
    · trivial
    · exact hjoined _
  · next link generated hkind =>
    have hlink : (p.draft.arena.label n).kind.link? = some link := by rw [hkind]; rfl
    unfold expansion
    split
    · refine Breaks.within (fun _ => rfl) ?_
      exact expand_breaks hP hanswers hrecur (p := { p with generated := n :: p.generated })
        ⟨hp.ascending, hp.faithful⟩ huncrossed hlink
    · exact expand_breaks hP hanswers hrecur hp huncrossed hlink
  · exact (Breaks.of_looks (.refl _) (proximity_looks hp _ hn) (proximity_blames hP _ n)).bind_safe
      fun _ _ => trivial
  · exact (Breaks.of_looks (.refl _) (leaf_looks hp _) (leaf_blames hP _)).bind_safe
      fun _ _ => trivial

end Failures

/-- **No compilation** in an uncrossed arena fails because an expansion is gone: if it fails, it reports
what its parts and its surroundings report. -/
theorem nodeWithin_firm (hP : env.Reports P)
    (hanswers : ∀ earlier request error,
      (env.executor.run earlier request).outcome = .error error → P error) (fuel : Nat) :
    Firm env P (nodeWithin env fuel) := by
  induction fuel with
  | zero => exact fun n p _ _ _ => ⟨.refl _, hP.ordinary _ rfl⟩
  | succ fuel ih => exact fun n p hp hn huncrossed => node_breaks hP hanswers ih hp hn huncrossed

end Compile

end LinkedSearch
