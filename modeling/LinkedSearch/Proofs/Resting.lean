import LinkedSearch.Proofs.Arena.Settling
import LinkedSearch.Proofs.Leading

/-! # Settled queries are left alone

A compilation that meets no expansion changes nothing but what is known about the indexes, whether it
succeeds or fails, and also inside the filter of an aggregate.

* `Rested`: the same draft, the same scans and the same reports, in a sound state.
* `Compile.Rests`: a computation that ends like that with every outcome.
* `nodeWithin_rests`: so does every compilation of a settled node. -/

namespace LinkedSearch

open Query (Arena Kind Label NodeId)

/-- **At rest**: neither the draft nor the scans and the reports on them have changed. -/
structure Rested (env : Environment) (p q : Progress) : Prop where
  sound : Sound env q
  draft_eq : q.draft = p.draft
  scans_eq : q.scans = p.scans
  reports_eq : q.reports = p.reports

namespace Rested

variable {env : Environment} {p q s : Progress}

theorem refl (h : Sound env p) : Rested env p p := ⟨h, rfl, rfl, rfl⟩

theorem trans (h : Rested env p q) (h' : Rested env q s) : Rested env p s :=
  ⟨h'.sound, h'.draft_eq.trans h.draft_eq, h'.scans_eq.trans h.scans_eq,
    h'.reports_eq.trans h.reports_eq⟩

end Rested

namespace Compile

variable {α β : Type} {env : Environment} {p q : Progress}

/-- Looking things up changes neither the draft nor the scans. -/
theorem Looked.rested (hp : Sound env p) (h : Looked env p q) : Rested env p q := by
  have hsound := (h.evolves hp).sound
  obtain ⟨md, -, rfl⟩ := h
  exact ⟨hsound, rfl, rfl, rfl⟩

/-- **Resting**: whatever the outcome, the draft and the scans are as before. -/
def Rests (env : Environment) (x : Compile α) (p : Progress) : Prop :=
  wp x (fun _ q => Rested env p q) (fun _ q => Rested env p q) p

namespace Rests

theorem pure (h : Sound env p) (a : α) : Rests env (pure a) p := .refl h

theorem throw (h : Sound env p) (e : Error) : Rests env (throw e : Compile α) p := .refl h

theorem bind {x : Compile β} {f : β → Compile α} (hx : Rests env x p)
    (hf : ∀ b q, Rested env p q → Rests env (f b) q) : Rests env (x >>= f) p := by
  unfold Rests
  rw [wp_bind]
  refine wp_mono hx ?_ fun _ _ h => h
  intro b q hpq
  exact wp_mono (hf b q hpq) (fun _ _ => hpq.trans) fun _ _ => hpq.trans

/-- Reading the state. -/
theorem get {f : Progress → Compile α} (hf : Rests env (f p) p) :
    Rests env (MonadState.get >>= f) p := by
  unfold Rests
  rwa [wp_bind, wp_get]

/-- Looking things up. -/
theorem of_looks {x : Compile α} (hp : Sound env p) (h : Looks env x p) : Rests env x p := by
  obtain ⟨outcome, q, hexec, hlooked⟩ := h
  cases outcome with
  | error e => exact (wp_of_error hexec).mpr (hlooked.rested hp)
  | ok a => exact (wp_of_ok hexec).mpr (hlooked.rested hp)

/-- A loop of which every step rests. -/
theorem mapM {γ : Type} {f : γ → Compile α} (l : List γ) (hp : Sound env p)
    (h : ∀ a ∈ l, ∀ q, Rested env p q → Rests env (f a) q) : Rests env (l.mapM f) p := by
  induction l generalizing p with
  | nil => exact pure hp []
  | cons a l ih =>
    rw [List.mapM_cons]
    refine (h a List.mem_cons_self p (.refl hp)).bind fun b q hpq => ?_
    refine (ih hpq.sound fun a' ha' s hqs => ?_).bind fun bs s hqs => pure hqs.sound (b :: bs)
    exact h a' (List.mem_cons_of_mem a ha') s (hpq.trans hqs)

/-- A scope that neither entering nor leaving changes the draft, the metadata, the scans or the
reports. -/
theorem within {enter leave : Progress → Progress} {x : Compile α} (hp : Sound env p)
    (henter : (enter p).draft = p.draft ∧ (enter p).metadata = p.metadata ∧
      (enter p).scans = p.scans ∧ (enter p).reports = p.reports)
    (hleave : ∀ q, (leave q).draft = q.draft ∧ (leave q).metadata = q.metadata ∧
      (leave q).scans = q.scans ∧ (leave q).reports = q.reports)
    (hx : Rested env p (enter p) → Rests env x (enter p)) :
    Rests env (within enter leave x) p := by
  have hsame : ∀ {q s : Progress}, Sound env q → s.draft = q.draft → s.metadata = q.metadata →
      Sound env s := fun hq hdraft hmetadata =>
    ⟨hdraft ▸ hq.ascending, hmetadata ▸ hq.faithful⟩
  have hpe : Rested env p (enter p) :=
    ⟨hsame hp henter.1 henter.2.1, henter.1, henter.2.2.1, henter.2.2.2⟩
  have hout : ∀ q, Rested env (enter p) q → Rested env p (leave q) := by
    intro q hq
    obtain ⟨hdraft, hmetadata, hscans, hreports⟩ := hleave q
    exact ⟨hsame hq.sound hdraft hmetadata, hdraft.trans (hq.draft_eq.trans hpe.draft_eq),
      hscans.trans (hq.scans_eq.trans hpe.scans_eq),
      hreports.trans (hq.reports_eq.trans hpe.reports_eq)⟩
  unfold Rests
  rw [wp_within]
  exact wp_mono (hx hpe) (fun _ q => hout q) fun _ q => hout q

end Rests

/-! ## Nodes -/

section Node

variable {recur : NodeId → Compile Fragment} {id : Nat}

/-- Reading the children of a node. -/
theorem Rests.childrenOf {f : List NodeId → Compile α}
    (hf : Rests env (f (p.draft.arena.children id)) p) :
    Rests env (Compile.childrenOf id >>= f) p := by
  unfold Rests
  rwa [wp_bind, wp_childrenOf]

/-- Reading the label of a node. -/
theorem Rests.labelOf {f : Label → Compile α} (hf : Rests env (f (p.draft.arena.label id)) p) :
    Rests env (Compile.labelOf id >>= f) p := by
  unfold Rests
  rwa [wp_bind, wp_labelOf]

/-- Only the path of the scope changes. -/
theorem rested_scopePath (hp : Sound env p) (path : Option String) :
    Rested env p { p with scopePath := path } :=
  ⟨⟨hp.ascending, hp.faithful⟩, rfl, rfl, rfl⟩

/-- A scope rests if its children do. -/
theorem scope_rests (hp : Sound env p)
    (h : ∀ c ∈ p.draft.arena.children id, ∀ q, Rested env p q → Rests env (recur c) q) :
    Rests env (scope env recur id) p := by
  unfold scope
  refine Rests.childrenOf ?_
  have hrest : ∀ s, Rested env p s → Rests env
      (scopeClauses recur (p.draft.arena.children id)) s := by
    intro s hps
    refine Rests.bind ?_ fun fragments q hq => ?_
    · refine .within hps.sound ⟨rfl, rfl, rfl, rfl⟩ (fun _ => ⟨rfl, rfl, rfl, rfl⟩) fun hs => ?_
      exact .mapM _ hs.sound fun c hc q hq => h c hc q ((hps.trans hs).trans hq)
    refine .get ?_
    split
    · exact .pure hq.sound _
    · refine Rests.bind (rested_scopePath hq.sound none) fun _ t ht => ?_
      split <;> exact .pure ht.sound _
  refine .get ?_
  simp only
  split
  · refine (Rests.of_looks hp (sharedPath_looks hp id)).bind fun path q hq => ?_
    have hpath := rested_scopePath hq.sound path
    refine Rests.bind hpath fun _ s hs => ?_
    exact hrest s (hq.trans hs)
  · exact hrest p (.refl hp)

/-- A parent or child scope rests if its first child does. -/
theorem joined_rests (join : Fragment → Fragment) (hp : Sound env p)
    (h : ∀ c ∈ (p.draft.arena.children id).take 1, Rests env (recur c) p) :
    Rests env (joined env recur join id) p := by
  unfold joined
  refine Rests.childrenOf ?_
  split
  · exact .pure hp _
  · next child rest hchildren =>
    refine (h child ?_).bind fun fragment q hq => .pure hq.sound _
    rw [hchildren]
    simp

/-- **A node that is no expansion** rests if the children do that are visited. -/
theorem node_rests (hp : Sound env p) (hkind : (p.draft.arena.label id).kind.isExpansion = false)
    (hid : id < p.draft.arena.size)
    (h : ∀ c ∈ (p.draft.arena.label id).kind.visits (p.draft.arena.children id), ∀ q,
      Rested env p q → Rests env (recur c) q) :
    Rests env (node env recur id) p := by
  -- clauses rest if the children do one after the other
  have hclauses : ∀ wrap : List Fragment → Fragment,
      (∀ c ∈ p.draft.arena.children id, ∀ q, Rested env p q → Rests env (recur c) q) →
      Rests env (do
        let children ← childrenOf id
        let fragments ← children.mapM recur
        return wrap fragments) p := by
    intro wrap hall
    refine Rests.childrenOf ?_
    exact (Rests.mapM _ hp hall).bind fun fragments q hq => .pure hq.sound _
  unfold node
  refine Rests.labelOf ?_
  split
  · next heq => exact hclauses _ (by rw [heq] at h; exact h)
  · next heq => exact hclauses _ (by rw [heq] at h; exact h)
  · next heq =>
    refine .get ?_
    split
    · exact .pure hp _
    · exact hclauses _ (by rw [heq] at h; exact h)
  · next heq => exact scope_rests hp (by rw [heq] at h; exact h)
  · next typeName heq =>
    exact joined_rests _ hp fun c hc => h c (by rw [heq]; exact hc) p (.refl hp)
  · next typeName heq =>
    refine .get ?_
    split
    · exact .pure hp _
    · exact joined_rests _ hp fun c hc => h c (by rw [heq]; exact hc) p (.refl hp)
  · next link generated heq =>
    rw [heq] at hkind
    exact absurd hkind (by simp [Kind.isExpansion])
  · exact (Rests.of_looks hp (proximity_looks hp _ hid)).bind fun _ q hq => .pure hq.sound _
  · exact (Rests.of_looks hp (leaf_looks hp _)).bind fun _ q hq => .pure hq.sound _

end Node

/-- **A settled query is left alone**, whatever the outcome of compiling it is. -/
theorem nodeWithin_rests (fuel : Nat) (hp : Sound env p) {n : Nat}
    (hn : p.draft.arena.Settled n) : Rests env (nodeWithin env fuel n) p := by
  induction fuel generalizing n p with
  | zero => exact .throw hp _
  | succ fuel ih =>
    refine node_rests hp hn.isExpansion_eq hn.lt_size fun c hc q hpq => ih hpq.sound ?_
    rw [hpq.draft_eq]
    exact hn.visited c hc

end Compile

end LinkedSearch
