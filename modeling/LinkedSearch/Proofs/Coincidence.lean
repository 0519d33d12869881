import LinkedSearch.Proofs.Framing
import LinkedSearch.Proofs.Rewriting

/-! # Computations that coincide

Compiling a node and resolving an expansion take the compiler of nodes as an argument. Two such compilers
may be exchanged if they coincide wherever they are called; and while an expansion is resolved, they are
called for its query and for the parent scope of the query only.

* `Coincides`: two computations that do the same from a state.
* `Stage`: the states in which the resolution of an expansion calls the compiler of nodes.
* `resolve_coincides`: the resolution of an expansion by two compilers of nodes.
* `node_coincides`: the compilation of a node by two compilers of nodes. -/

namespace LinkedSearch.Compile

open Query (Arena Draft Kind Label NodeId)

variable {α β : Type} {env : Environment} {p q s : Progress} {n c e : Nat}

/-- **Computations that coincide** from a state: the outcome is the same, and so is the progress. -/
def Coincides (x y : Compile α) (p : Progress) : Prop := exec x p = exec y p

namespace Coincides

theorem refl (x : Compile α) (p : Progress) : Coincides x x p := rfl

theorem bind {x y : Compile β} {f g : β → Compile α} (h : Coincides x y p)
    (hf : ∀ b q, exec y p = (.ok b, q) → Coincides (f b) (g b) q) : Coincides (x >>= f) (y >>= g) p := by
  unfold Coincides
  rw [exec_bind, exec_bind, h]
  rcases hexec : exec y p with ⟨error | b, q⟩
  · rfl
  · exact hf b q hexec

/-- What comes before is the same anyway. -/
theorem bind_right {x : Compile β} {f g : β → Compile α}
    (hf : ∀ b q, exec x p = (.ok b, q) → Coincides (f b) (g b) q) : Coincides (x >>= f) (x >>= g) p :=
  (refl x p).bind hf

/-- What comes before succeeds, with a known result. -/
theorem bind_known {x : Compile β} {f g : β → Compile α} {b : β} (hx : exec x p = (.ok b, q))
    (hf : Coincides (f b) (g b) q) : Coincides (x >>= f) (x >>= g) p := by
  refine bind_right fun b' q' h => ?_
  obtain ⟨hb, rfl⟩ := Prod.mk.inj (hx.symm.trans h)
  obtain rfl := Except.ok.inj hb
  exact hf

/-- What comes after is the same anyway. -/
theorem bind_left {x y : Compile β} (f : β → Compile α) (h : Coincides x y p) :
    Coincides (x >>= f) (y >>= f) p :=
  h.bind fun b q _ => refl (f b) q

/-- Looking something up leaves the draft alone. -/
theorem looks_bind {x : Compile β} {f g : β → Compile α} (hx : Looks env x p)
    (hf : ∀ b q, Looked env p q → Coincides (f b) (g b) q) : Coincides (x >>= f) (x >>= g) p := by
  obtain ⟨outcome, q, hexec, hlooked⟩ := hx
  refine bind_right fun b q' h => ?_
  obtain ⟨-, rfl⟩ := Prod.mk.inj (hexec.symm.trans h)
  exact hf b q hlooked

theorem within {enter leave : Progress → Progress} {x y : Compile α} (h : Coincides x y (enter p)) :
    Coincides (within enter leave x) (within enter leave y) p :=
  congrArg (fun result : Except Error α × Progress => (result.1, leave result.2)) h

theorem mapM {γ : Type} {f g : γ → Compile α} (l : List γ)
    (h : ∀ before a after, l = before ++ a :: after → ∀ bs q,
      exec (before.mapM g) p = (.ok bs, q) → Coincides (f a) (g a) q) :
    Coincides (l.mapM f) (l.mapM g) p := by
  induction l generalizing p with
  | nil => rfl
  | cons a rest ih =>
    rw [List.mapM_cons, List.mapM_cons]
    refine (h [] a rest rfl [] p rfl).bind fun b q hb => bind_left _ (ih ?_)
    rintro before a' after rfl bs s hbs
    exact h (a :: before) a' after rfl (b :: bs) s (exec_mapM_cons_ok.mpr ⟨b, q, bs, hb, hbs, rfl⟩)

theorem forM {γ : Type} {f g : γ → Compile PUnit} (l : List γ)
    (h : ∀ before a after, l = before ++ a :: after → ∀ q,
      exec (before.forM g) p = (.ok ⟨⟩, q) → Coincides (f a) (g a) q) :
    Coincides (l.forM f) (l.forM g) p := by
  induction l generalizing p with
  | nil => rfl
  | cons a rest ih =>
    refine Coincides.bind (h [] a rest rfl p rfl) fun b q hb => ih ?_
    rintro before a' after rfl s hs
    exact h (a :: before) a' after rfl s (exec_bind_ok.mpr ⟨b, q, hb, hs⟩)

end Coincides

/-! ## Resolutions -/

/-- **The states in which an expansion asks for compiled nodes**, from the start of its resolution on: it is
still there, its query has no expansions left, and its place is still a calm one if it was. -/
structure Stage (env : Environment) (e : NodeId) (p q : Progress) : Prop where
  sound : Sound env q
  size_le : p.draft.arena.size ≤ q.draft.arena.size
  keeps : p.draft.arena.Keeps q.draft.arena
  rewrites : p.draft.arena.Rewrites q.draft.arena
  isExpansion : (q.draft.arena.label e).kind.isExpansion = true
  query : ∀ c, q.draft.arena.child? e 0 = some c → q.draft.arena.Settled c ∧ q.draft.arena.Bare c
  calm : Calm p.draft e → Calm q.draft e

/-- A node that an expansion asks for: its query, or the parent scope if that is not around it. -/
def Asked (draft : Draft) (e c : NodeId) : Prop :=
  draft.arena.child? e 0 = some c ∨
    draft.find? (·.kind.isParent) = some c ∧ draft.arena.isWithin e c = false

/-- Compilers of nodes that coincide on what an expansion asks for. -/
def CoincidesFor (env : Environment) (recur recur' : NodeId → Compile Fragment) (e : NodeId)
    (draft : Draft) : Prop :=
  ∀ q c, Sound env q → q.draft = draft → Asked draft e c → Coincides (recur c) (recur' c) q

section Resolution

variable {recur : NodeId → Compile Fragment} {fuel : Nat}

/-- A compilation for a scan. -/
theorem scanQuery_coincides {recur' : NodeId → Compile Fragment}
    (h : Coincides (recur c) (recur' c) { p with aggregating := false }) :
    Coincides (scanQuery recur c) (scanQuery recur' c) p := by
  unfold scanQuery
  exact .bind_known rfl (.within h)

/-- A settled query, compiled for a scan, leaves the draft alone. -/
theorem scanQuery_rested (hp : Sound env p) (hc : p.draft.arena.Settled c) {F : Fragment}
    (h : exec (scanQuery (nodeWithin env fuel) c) p = (.ok F, q)) : Rested env p q := by
  have hrests : Rests env (scanQuery (nodeWithin env fuel) c) p :=
    Rests.get (.within hp ⟨rfl, rfl, rfl, rfl⟩ (fun _ => ⟨rfl, rfl, rfl, rfl⟩) fun henter =>
      nodeWithin_rests fuel henter.sound hc)
  exact (wp_of_ok h).mp hrests

/-- The visibility of a scan. -/
theorem visibility_coincides {recur' : NodeId → Compile Fragment} (hp : Sound env p)
    (h : CoincidesFor env recur recur' e p.draft) (link : Link) :
    Coincides (visibility env recur e link) (visibility env recur' e link) p := by
  unfold visibility
  refine Coincides.looks_bind (mapping_looks hp link.index) fun linked q hlooked => ?_
  have hq := (hlooked.evolves hp).sound
  split
  · rfl
  · refine Coincides.bind_known rfl ?_
    simp only
    split
    · rfl
    · next scope hscope =>
      split
      · rfl
      · next hwithin =>
        refine (scanQuery_coincides (h _ scope ⟨hq.ascending, hq.faithful⟩ hlooked.draft_eq ?_)).bind_left _
        rw [← hlooked.draft_eq]
        exact .inr ⟨hscope, eq_false_of_ne_true hwithin⟩

/-- The values of a join. -/
theorem joinValues_coincides (hp : Sound env p)
    (hsettled : ∀ c, p.draft.arena.child? e 0 = some c → p.draft.arena.Settled c)
    (h : CoincidesFor env recur (nodeWithin env fuel) e p.draft) (link : Link) (left right : String) :
    Coincides (joinValues env recur e link left right)
      (joinValues env (nodeWithin env fuel) e link left right) p := by
  unfold joinValues
  cases hc : p.draft.arena.child? e 0 with
  | none =>
    refine Coincides.bind_right fun c q hq => ?_
    obtain ⟨hq, -⟩ := Prod.mk.inj ((exec_queryOf_none hc).symm.trans hq)
    exact absurd hq (by simp)
  | some c =>
    refine .bind_known (exec_queryOf hc) (.bind_known rfl (.bind_known rfl ?_))
    -- both compilers look up the same three mappings, and leave the draft alone by that
    refine .looks_bind (mapping_looks hp _) fun linked p₁ h₁ => ?_
    have hp₁ := (h₁.evolves hp).sound
    refine .looks_bind (mappingOf_looks hp₁ _) fun leftOwner p₂ h₂ => ?_
    have hp₂ := (h₂.evolves hp₁).sound
    refine .looks_bind (mappingOf_looks hp₂ _) fun rightOwner p₃ h₃ => ?_
    have hp₃ := (h₃.evolves hp₂).sound
    have hdraft := ((h₁.trans h₂).trans h₃).draft_eq
    split
    · rfl
    · refine (scanQuery_coincides (h _ c ⟨hp₃.ascending, hp₃.faithful⟩ hdraft (.inl hc))).bind
        fun filter p₄ hfilter => ?_
      have hrested := scanQuery_rested hp₃ (by rw [hdraft]; exact hsettled c hc) hfilter
      refine (visibility_coincides hrested.sound ?_ link).bind_left _
      rw [hrested.draft_eq, hdraft]
      exact h

/-- What an expansion over a join path resolves to. -/
theorem resolveLink_coincides (hp : Sound env p)
    (hsettled : ∀ c, p.draft.arena.child? e 0 = some c → p.draft.arena.Settled c)
    (h : CoincidesFor env recur (nodeWithin env fuel) e p.draft) (link target : Link) :
    Coincides (resolveLink env recur e link target)
      (resolveLink env (nodeWithin env fuel) e link target) p := by
  unfold resolveLink
  refine Coincides.bind_right fun path q hq => ?_
  obtain rfl : q = p := by
    rcases hpath : env.resolver.joinPath target link with error | path'
    · rw [hpath] at hq
      exact absurd (congrArg Prod.fst hq) (by simp [ofExcept, exec])
    · rw [hpath] at hq
      exact (congrArg Prod.snd hq).symm
  refine .looks_bind ⟨_, exec_joinFields hp path⟩ fun fields s hlooked => ?_
  refine .bind_known rfl ?_
  split
  · rfl
  · refine joinValues_coincides (hlooked.evolves hp).sound ?_ ?_ link _ _
    · rw [hlooked.draft_eq]
      exact hsettled
    · rw [hlooked.draft_eq]
      exact h

/-- What an expansion over a synthesized link resolves to. -/
theorem resolveGenerated_coincides (hp : Sound env p)
    (hn : (p.draft.arena.label e).kind.isExpansion = true)
    (hquery : ∀ c, p.draft.arena.child? e 0 = some c →
      p.draft.arena.Settled c ∧ p.draft.arena.Bare c)
    (h : ∀ q, Stage env e p q → CoincidesFor env recur (nodeWithin env fuel) e q.draft)
    (label : Label) (link primary : Link) :
    Coincides (resolveGenerated env recur e label link primary)
      (resolveGenerated env (nodeWithin env fuel) e label link primary) p := by
  have hsettled := fun c hc => (hquery c hc).1
  have hparent := Kind.isParent_of_isExpansion hn
  unfold resolveGenerated
  refine (joinValues_coincides hp hsettled
    (h p ⟨hp, Nat.le_refl _, .refl _, .refl _, hn, hquery, id⟩) link _ _).bind fun w s hs => ?_
  obtain ⟨es, hjoins⟩ := (wp_of_ok hs).mp
    (leads_joinValues fuel (nodeWithin_steps fuel) hp e link .own)
  refine .looks_bind ⟨_, exec_ownerOf es.sound _⟩ fun owner t hlooked => ?_
  split
  · rfl
  · -- the values of the first scan become the query of the second one
    have ht := (hlooked.evolves es.sound).sound
    have hfresh := hjoins.fresh hp
    have hset : Sound env { t with draft := { t.draft with arena := t.draft.arena.setChild e 0 w } } := by
      refine ⟨ht.ascending.setChild 0 hfresh.later ?_ ?_, ht.faithful⟩
      · rw [hlooked.draft_eq]
        exact hfresh.lt_size
      · rw [hlooked.draft_eq]
        exact hfresh.loose
    refine .bind_known rfl (.looks_bind (mapping_looks hset _) fun linked u hlooked' => ?_)
    have hu := (hlooked'.evolves hset).sound
    obtain ⟨hproceeds, hexpansion, huquery⟩ := hjoins.requeried (fun _ => True)
      (nodeWithin_proceeds fuel) hp hn hquery trivial hlooked hlooked'
    refine joinValues_coincides hu (fun c hc => (huquery c hc).1) (h u ?_) link _ _
    have hlt := Query.Arena.lt_size_of_isExpansion hn
    -- the second scan starts in a stage of its own, behind the first one
    have hevolves : Evolves env p u := es.trans (((hlooked.evolves es.sound).trans
      (.changeArena ht hset.ascending (Nat.le_of_eq (Query.Arena.size_setChild ..).symm)
        (.of_kinds fun i => ⟨i, by rw [Query.Arena.label_setChild]⟩)
        fun i _ => by rw [Query.Arena.label_setChild]; exact ⟨rfl, rfl⟩)).trans (hlooked'.evolves hset))
    refine ⟨hu, hevolves.size_le, hevolves.keeps, hproceeds.rewrites, hexpansion, huquery,
      fun hcalm => ?_⟩
    obtain ⟨hframed, -⟩ :=
      hjoins.requeried_framed (nodeWithin_framed fuel) hp hcalm hlt hparent hlooked hlooked'
    refine hcalm.framed hp hevolves hframed hlt fun htrue => ?_
    exact absurd (hparent.symm.trans htrue) (by simp)

/-- **The resolution of an expansion** coincides if the compilers of nodes do so on what it asks for. -/
theorem resolve_coincides (hp : Sound env p)
    (hquery : (p.draft.arena.label e).kind.isExpansion = true → ∀ c,
      p.draft.arena.child? e 0 = some c → p.draft.arena.Settled c ∧ p.draft.arena.Bare c)
    (h : ∀ q, Stage env e p q → CoincidesFor env recur (nodeWithin env fuel) e q.draft)
    (primary target : Link) :
    Coincides (resolve env recur primary target e) (resolve env (nodeWithin env fuel) primary target e) p := by
  unfold resolve
  refine .bind_known rfl ?_
  cases hlink : (p.draft.arena.label e).kind.link? with
  | none =>
    -- a node that is no expansion any more has no link
    refine Coincides.bind_right fun link q hq => ?_
    obtain ⟨-, hlink', -⟩ := (wp_of_ok hq).mp (leads_linkOf hp e)
    exact absurd (hlink.symm.trans hlink') (by simp)
  | some link =>
    have hn := Kind.isExpansion_of_link? hlink
    have hstart := h p ⟨hp, Nat.le_refl _, .refl _, .refl _, hn, hquery hn, id⟩
    refine .bind_known (exec_linkOf hlink) (.bind_known rfl ?_)
    simp only
    split
    · rfl
    · split
      · exact (resolveGenerated_coincides hp hn (hquery hn) h _ link primary).bind_left _
      · exact (resolveLink_coincides hp (fun c hc => (hquery hn c hc).1) hstart link target).bind_left _

end Resolution

/-! ## Nodes -/

section Node

variable {recur recur' : NodeId → Compile Fragment}

/-- Compilers of nodes that coincide on the children of a node, one after the other. -/
def CoincidesAll (env : Environment) (recur recur' : NodeId → Compile Fragment) (n : NodeId)
    (p : Progress) : Prop :=
  ∀ s, Sound env s → s.draft = p.draft → ∀ before c after, p.draft.arena.children n = before ++ c :: after →
    ∀ fragments q, exec (before.mapM recur') s = (.ok fragments, q) → Coincides (recur c) (recur' c) q

/-- A compiled scope. -/
theorem scope_coincides (hp : Sound env p) (h : CoincidesAll env recur recur' n p) :
    Coincides (scope env recur n) (scope env recur' n) p := by
  have hrest : ∀ s : Progress, Sound env s → s.draft = p.draft → Coincides
      (within (fun progress => { progress with scopeDepth := progress.scopeDepth + 1 })
        (fun progress => { progress with scopeDepth := progress.scopeDepth - 1 })
        ((p.draft.arena.children n).mapM recur))
      (within (fun progress => { progress with scopeDepth := progress.scopeDepth + 1 })
        (fun progress => { progress with scopeDepth := progress.scopeDepth - 1 })
        ((p.draft.arena.children n).mapM recur')) s := fun s hs hdraft =>
    .within (.mapM _ (h { s with scopeDepth := s.scopeDepth + 1 } ⟨hs.ascending, hs.faithful⟩ hdraft))
  unfold scope
  refine .bind_known rfl (.bind_known rfl ?_)
  simp only
  split
  · refine .looks_bind (sharedPath_looks hp n) fun path q hlooked => .bind_known rfl ?_
    have hq := (hlooked.evolves hp).sound
    exact (hrest { q with scopePath := path } ⟨hq.ascending, hq.faithful⟩ hlooked.draft_eq).bind_left _
  · exact (hrest p hp rfl).bind_left _

/-- **A compiled node**, other than an expansion, coincides if the compilers of nodes do so on its
children. -/
theorem node_coincides (hp : Sound env p) (hkind : (p.draft.arena.label n).kind.isExpansion = false)
    (h : CoincidesAll env recur recur' n p) : Coincides (node env recur n) (node env recur' n) p := by
  have hclauses : ∀ wrap : List Fragment → Fragment, Coincides (do
      return wrap (← (← childrenOf n).mapM recur)) (do
      return wrap (← (← childrenOf n).mapM recur')) p := fun wrap =>
    .bind_known rfl ((Coincides.mapM _ (h p hp rfl)).bind_left _)
  have hjoined : ∀ join, Coincides (joined env recur join n) (joined env recur' join n) p := by
    intro join
    unfold joined
    refine .bind_known rfl ?_
    split
    · rfl
    · next child rest hchildren =>
      exact (h p hp rfl [] child rest hchildren [] p rfl).bind_left _
  -- one case for each branch of the compiler, in its order
  unfold node
  refine .bind_known rfl ?_
  split
  · exact hclauses _
  · exact hclauses _
  · refine .bind_known rfl ?_
    split
    · rfl
    · exact hclauses _
  · exact scope_coincides hp h
  · exact hjoined _
  · refine .bind_known rfl ?_
    split
    · rfl
    · exact hjoined _
  · next hk =>
    rw [hk] at hkind
    exact absurd hkind (by simp [Kind.isExpansion])
  · rfl
  · rfl

end Node

end LinkedSearch.Compile
