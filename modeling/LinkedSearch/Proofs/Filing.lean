import LinkedSearch.Proofs.Aggregates
import LinkedSearch.Proofs.Coincidence
import LinkedSearch.Proofs.Filtering
import LinkedSearch.Proofs.Standing
import LinkedSearch.Proofs.Turns

/-! # Reports up to a failure

A compilation that fails has reported on expansions before, and leaves an arena that it has rewritten part of
the way. What can be said about its reports is said for every outcome:

* `Files`: computations with reports of some sort only, which rewrite the arena step by step even if they fail.
* `Files.bind`, `Files.mapM`, `Files.within`, …: the statements of a computation one by one.
* `Peeks`, `Asking`: what becomes of the draft while an expansion is resolved.
* `resolve_files`: the resolution of an expansion, with reports on this expansion and those of the parent scope.
* `expand_files`, `node_files`: compiled nodes.
* `nodeWithin_files_below`: in a calm place, all reports are on expansions below the node. -/

namespace LinkedSearch.Compile

open Query (Arena Draft Kind Label NodeId)

variable {α β : Type} {env : Environment} {p q s : Progress} {n c e fuel : Nat} {F F' : Report → Prop}
  {base : Arena}

/-! ## Filing -/

/-- All new reports are of some sort. -/
def Filed (F : Report → Prop) (p q : Progress) : Prop := ∀ r ∈ q.reports, r ∈ p.reports ∨ F r

namespace Filed

@[refl] theorem refl (p : Progress) : Filed F p p := fun _ hr => .inl hr

theorem of_eq (h : q.reports = p.reports) : Filed F p q := fun _ hr => .inl (h ▸ hr)

theorem trans (h : Filed F p q) (h' : Filed F q s) : Filed F p s :=
  fun r hr => (h' r hr).elim (h r) .inr

end Filed

/-- **Filing**: whatever its outcome, a computation reports on nothing but what is of some sort. If it fails, it
has rewritten the arena step by step. -/
def Files (F : Report → Prop) (base : Arena) (x : Compile α) (p : Progress) : Prop :=
  wp x (fun _ q => Filed F p q) (fun _ q => base.Rewrites q.draft.arena ∧ Filed F p q) p

namespace Files

theorem pure (a : α) : Files F base (pure a) p := Filed.refl p

theorem throw (hbase : base.Rewrites p.draft.arena) (error : Error) :
    Files F base (throw error : Compile α) p := ⟨hbase, .refl p⟩

/-- What was rewritten before may be counted in. -/
theorem rebase {x : Compile α} (h : Files F p.draft.arena x p) (hbase : base.Rewrites p.draft.arena) :
    Files F base x p :=
  wp_mono h (fun _ _ h => h) fun _ _ h => ⟨hbase.trans h.1, h.2⟩

theorem mono {x : Compile α} (h : Files F base x p) (hF : ∀ r, F r → F' r) : Files F' base x p :=
  wp_mono h (fun _ _ h r hr => (h r hr).imp_right (hF r))
    fun _ _ h => ⟨h.1, fun r hr => (h.2 r hr).imp_right (hF r)⟩

/-- What leaves the draft and the reports alone. -/
theorem of_rests {x : Compile α} (hbase : base.Rewrites p.draft.arena) (h : Rests env x p) :
    Files F base x p :=
  wp_mono h (fun _ _ h => .of_eq h.reports_eq) fun _ _ h => ⟨h.draft_eq ▸ hbase, .of_eq h.reports_eq⟩

/-- **Sequences**: the second part starts where the first one has succeeded. -/
theorem bind {x : Compile β} {f : β → Compile α} (hx : Files F base x p)
    (hf : ∀ b q, exec x p = (.ok b, q) → Files F base (f b) q) : Files F base (x >>= f) p := by
  unfold Files
  rw [wp_bind]
  rcases hexec : exec x p with ⟨error | b, q⟩
  · exact (wp_of_error hexec).mpr ((wp_of_error hexec).mp hx)
  · have hpq : Filed F p q := (wp_of_ok hexec).mp hx
    exact (wp_of_ok hexec).mpr (wp_mono (hf b q hexec) (fun _ _ h => hpq.trans h)
      fun _ _ h => ⟨h.1, hpq.trans h.2⟩)

/-- A sequence whose first part is known to succeed, without a report. -/
theorem bind_known {x : Compile β} {f : β → Compile α} {b : β} (hx : exec x p = (.ok b, q))
    (hreports : q.reports = p.reports) (hf : Files F base (f b) q) : Files F base (x >>= f) p := by
  refine Files.bind ((wp_of_ok hx).mpr (.of_eq hreports)) fun b' q' h => ?_
  obtain ⟨hb, rfl⟩ := Prod.mk.inj (hx.symm.trans h)
  obtain rfl := Except.ok.inj hb
  exact hf

/-- A sequence whose first part is known to fail. -/
theorem bind_error {x : Compile β} {f : β → Compile α} {error : Error} (hx : exec x p = (.error error, p))
    (hbase : base.Rewrites p.draft.arena) : Files F base (x >>= f) p := by
  refine Files.bind ((wp_of_error hx).mpr ⟨hbase, .refl p⟩) fun b q h => ?_
  exact absurd (hx.symm.trans h) (by simp)

/-- Looking something up. -/
theorem looks_bind {x : Compile β} {f : β → Compile α} (hp : Sound env p) (hbase : base.Rewrites p.draft.arena)
    (hx : Looks env x p) (hf : ∀ b q, Looked env p q → Files F base (f b) q) : Files F base (x >>= f) p := by
  refine Files.bind (.of_rests hbase (.of_looks hp hx)) fun b q h => hf b q ?_
  obtain ⟨outcome, q', hexec, hlooked⟩ := hx
  obtain ⟨-, rfl⟩ := Prod.mk.inj (hexec.symm.trans h)
  exact hlooked

/-- A report, and what comes after it. -/
theorem report_bind {id : NodeId} {link : Link} {query : Query.Tree} {resolution : Resolution}
    {f : Unit → Compile α} (hF : F (reportOn p id link query resolution))
    (hf : Files F base (f ()) { p with
      reports := p.reports ++ [reportOn p id link query resolution] }) :
    Files F base (report id link query resolution >>= f) p := by
  refine Files.bind (x := report id link query resolution) (fun r hr => ?_) fun b q h => ?_
  · rcases List.mem_append.mp hr with hold | hnew
    · exact .inl hold
    · exact .inr (List.mem_singleton.mp hnew ▸ hF)
  · obtain ⟨-, rfl⟩ := Prod.mk.inj h
    exact hf

theorem within {enter leave : Progress → Progress} {x : Compile α} (henter : (enter p).reports = p.reports)
    (hleave : ∀ q, (leave q).draft = q.draft ∧ (leave q).reports = q.reports)
    (h : Files F base x (enter p)) : Files F base (within enter leave x) p := by
  have hfiled : ∀ q, Filed F (enter p) q → Filed F p (leave q) := by
    intro q hq r hr
    rw [(hleave q).2] at hr
    exact henter ▸ hq r hr
  unfold Files
  rw [wp_within]
  exact wp_mono h (fun _ q hq => hfiled q hq) fun _ q hq => ⟨(hleave q).1.symm ▸ hq.1, hfiled q hq.2⟩

theorem mapM {γ : Type} {f : γ → Compile α} (l : List γ)
    (h : ∀ before a after, l = before ++ a :: after → ∀ bs q,
      exec (before.mapM f) p = (.ok bs, q) → Files F base (f a) q) : Files F base (l.mapM f) p := by
  induction l generalizing p with
  | nil => exact .pure []
  | cons a rest ih =>
    rw [List.mapM_cons]
    refine (h [] a rest rfl [] p rfl).bind fun b q hb => (ih ?_).bind fun bs s _ => .pure _
    rintro before a' after rfl bs s hbs
    exact h (a :: before) a' after rfl (b :: bs) s (exec_mapM_cons_ok.mpr ⟨b, q, bs, hb, hbs, rfl⟩)

theorem forM {γ : Type} {f : γ → Compile PUnit} (l : List γ)
    (h : ∀ before a after, l = before ++ a :: after → ∀ q,
      exec (before.forM f) p = (.ok ⟨⟩, q) → Files F base (f a) q) : Files F base (l.forM f) p := by
  induction l generalizing p with
  | nil => exact .pure _
  | cons a rest ih =>
    refine Files.bind (h [] a rest rfl p rfl) fun b q hb => ih ?_
    rintro before a' after rfl s hs
    exact h (a :: before) a' after rfl s (exec_bind_ok.mpr ⟨b, q, hb, hs⟩)

end Files

/-! ## What becomes of the draft -/

/-- **Peeking** at the parent scope: it is compiled, if it is not around the expansion. -/
def Peeks (env : Environment) (fuel : Nat) (e : NodeId) (p q : Progress) : Prop :=
  q.draft = p.draft ∨ ∃ scope s t fragment, Sound env s ∧ s.draft = p.draft ∧
    p.draft.find? (·.kind.isParent) = some scope ∧ p.draft.arena.isWithin e scope = false ∧
    exec (nodeWithin env fuel scope) s = (.ok fragment, t) ∧ q.draft = t.draft

/-- The labels of the nodes that stand for join values. -/
def IsJoinLabel (label : Label) : Prop :=
  label.kind = .notNull ∨ ∃ values hits, label.kind = .array (.external values hits) false

theorem IsJoinLabel.kind_eq {label : Label} (h : IsJoinLabel label) :
    label.kind.isExpansion = false ∧ label.kind.isParent = false := by
  rcases h with hkind | ⟨values, hits, hkind⟩ <;> exact hkind ▸ ⟨rfl, rfl⟩

/-- A draft in which a node was pushed. -/
def Pushed (label : Label) (p q : Progress) : Prop :=
  q.draft = { p.draft with arena := (p.draft.arena.push label).1 }

/-- Values in the place of the query of an expansion. -/
def Requeries (label : Label) (e : NodeId) (p q : Progress) : Prop :=
  q.draft = { p.draft with arena := (p.draft.arena.push label).1.setChild e 0 p.draft.arena.size }

/-- The visibility of a scan is a peek. -/
theorem Sees.peeks {link : Link} {post : Option Fragment} (hp : Sound env p)
    (h : Sees env (nodeWithin env fuel) e link p post q) : Peeks env fuel e p q := by
  cases h with
  | unrestricted _ hlooked => exact .inl hlooked.draft_eq
  | restricted scope filter s t hlooked hscope hwithin hexec =>
    have hs := (hlooked.evolves hp).sound
    rw [hlooked.draft_eq] at hscope hwithin
    exact .inr ⟨scope, { s with aggregating := false }, t, filter, ⟨hs.ascending, hs.faithful⟩,
      hlooked.draft_eq, hscope, hwithin, hexec, rfl⟩

/-- **Join values** are pushed after a peek. -/
theorem Joins.peeks {link : Link} {left right : String} {v : NodeId} (hp : Sound env p)
    (hsettled : ∀ c, p.draft.arena.child? e 0 = some c → p.draft.arena.Settled c)
    (h : Joins env (nodeWithin env fuel) e link left right p v q) :
    ∃ u label, Peeks env fuel e p u ∧ IsJoinLabel label ∧ v = u.draft.arena.size ∧ Pushed label u q := by
  cases h with
  | keys m _ _ _ hdraft => exact ⟨p, _, .inl rfl, .inl rfl, rfl, hdraft⟩
  | scan m s t u _ filter post values hits hquery hlooked hexec hevolves hsees _ _ hdraft =>
    have hs := (hlooked.evolves hp).sound
    -- the query of the expansion is settled, so nothing happens to it
    have hrested := (wp_of_ok hexec).mp (nodeWithin_rests fuel (p := { s with aggregating := false })
      ⟨hs.ascending, hs.faithful⟩ (n := m)
      (by show s.draft.arena.Settled m; rw [hlooked.draft_eq]; exact hsettled m hquery))
    have hdraft' : t.draft = p.draft := hrested.draft_eq.trans hlooked.draft_eq
    have hpeeks : Peeks env fuel e p u := by
      have hseen := hsees.peeks hevolves.sound
      unfold Peeks at hseen ⊢
      rwa [show ({ t with aggregating := s.aggregating } : Progress).draft = p.draft from hdraft'] at hseen
    exact ⟨u, _, hpeeks, .inr ⟨values, hits, rfl⟩, rfl, hdraft⟩

/-- **The states in which an expansion asks** for compiled nodes: the draft is as it was, or the values of a
synthesized link have taken the place of its query. -/
structure Asking (env : Environment) (fuel : Nat) (e : NodeId) (p q : Progress) : Prop
    extends Stage env e p q where
  draft : q.draft = p.draft ∨ (p.draft.arena.label e).kind.isGenerated = true ∧
    ∃ u label, Peeks env fuel e p u ∧ IsJoinLabel label ∧ Requeries label e u q

/-- At the start of its resolution. -/
theorem Asking.start (hp : Sound env p) (hn : (p.draft.arena.label e).kind.isExpansion = true)
    (hquery : ∀ c, p.draft.arena.child? e 0 = some c → p.draft.arena.Settled c ∧ p.draft.arena.Bare c) :
    Asking env fuel e p p :=
  ⟨⟨hp, Nat.le_refl _, .refl _, .refl _, hn, hquery, id⟩, .inl rfl⟩

/-- The root belongs to the request. -/
theorem Peeks.root_eq (h : Peeks env fuel e p q) : q.draft.root = p.draft.root := by
  rcases h with hdraft | ⟨scope, s, t, fragment, hs, hdraft, -, -, hexec, hq⟩
  · rw [hdraft]
  · rw [hq, (compiled_of_ok hs hexec).1.root_eq, hdraft]

theorem Asking.root_eq (h : Asking env fuel e p q) : q.draft.root = p.draft.root := by
  rcases h.draft with hdraft | ⟨-, u, label, hpeeks, -, hrequeries⟩
  · rw [hdraft]
  · rw [show q.draft = _ from hrequeries]
    exact hpeeks.root_eq

/-- When the values of a first scan have become its query. -/
theorem Joins.asking {link : Link} {left right : String} {t u : Progress} {w : NodeId} (hp : Sound env p)
    (hn : (p.draft.arena.label e).kind.isExpansion = true)
    (hgenerated : (p.draft.arena.label e).kind.isGenerated = true)
    (hquery : ∀ c, p.draft.arena.child? e 0 = some c → p.draft.arena.Settled c ∧ p.draft.arena.Bare c)
    (h : Joins env (nodeWithin env fuel) e link left right p w s) (es : Evolves env p s)
    (hlooked : Looked env s t)
    (hlooked' : Looked env { t with draft := { t.draft with arena := t.draft.arena.setChild e 0 w } } u) :
    Asking env fuel e p u := by
  have hparent := Query.Kind.isParent_of_isExpansion hn
  have ht := (hlooked.evolves es.sound).sound
  have hset := evolves_requeried ht ((h.fresh hp).congr hlooked.draft_eq)
  obtain ⟨hproceeds, hexpansion, huquery⟩ := h.requeried (u := u) (fun _ => True)
    (nodeWithin_proceeds fuel) hp hn hquery trivial hlooked hlooked'
  have hlt := Query.Arena.lt_size_of_isExpansion hn
  have hevolves : Evolves env p u :=
    ((es.trans (hlooked.evolves es.sound)).trans hset).trans (hlooked'.evolves hset.sound)
  refine ⟨⟨hevolves.sound, hevolves.size_le, hevolves.keeps, hproceeds.rewrites, hexpansion, huquery,
    fun hcalm => ?_⟩, .inr ⟨hgenerated, ?_⟩⟩
  · obtain ⟨hframed, -⟩ :=
      h.requeried_framed (nodeWithin_framed fuel) hp hcalm hlt hparent hlooked hlooked'
    exact hcalm.framed hp hevolves hframed hlt fun htrue =>
      absurd (hparent.symm.trans htrue) (by simp)
  · obtain ⟨v, values, hpeeks, hvalues, hw, hpushes⟩ := h.peeks hp fun c hc => (hquery c hc).1
    have hdraft : s.draft = { v.draft with arena := (v.draft.arena.push values).1 } := hpushes
    refine ⟨v, values, hpeeks, hvalues, ?_⟩
    rw [Requeries, hlooked'.draft_eq]
    simp only [hlooked.draft_eq, hdraft, hw]

/-- **What an expansion resolves to** is its query, in a draft that is as it was, or it is pushed after a
last peek. -/
theorem Resolved.peeks {link target : Link} {v : NodeId} (hp : Sound env p)
    (hn : (p.draft.arena.label e).kind.isExpansion = true)
    (hquery : ∀ c, p.draft.arena.child? e 0 = some c → p.draft.arena.Settled c ∧ p.draft.arena.Bare c)
    (h : Resolved env (nodeWithin env fuel) e target link p v q) :
    q.draft = p.draft ∧ p.draft.arena.child? e 0 = some v ∨
      ∃ s u label, Asking env fuel e p s ∧ Peeks env fuel e s u ∧ IsJoinLabel label ∧
        v = u.draft.arena.size ∧ Pushed label u q := by
  have hstart : Asking env fuel e p p := .start hp hn hquery
  cases h with
  | inPlace n q hchild _ hdraft => exact .inl ⟨hdraft, hchild⟩
  | joined path first last s q v _ _ _ _ hlooked hjoins =>
    have hs := (hlooked.evolves hp).sound
    obtain ⟨u, label, hpeeks, hrest⟩ := hjoins.peeks hs fun c hc => by
      rw [hlooked.draft_eq] at hc ⊢
      exact (hquery c hc).1
    refine .inr ⟨p, u, label, hstart, ?_, hrest⟩
    rwa [Peeks, hlooked.draft_eq] at hpeeks
  | generated s q v _ hjoins _ hlooked =>
    obtain ⟨u, label, hpeeks, hlabel, hv, hpushes⟩ := hjoins.peeks hp fun c hc => (hquery c hc).1
    exact .inr ⟨p, u, label, hstart, hpeeks, hlabel, hv, hlooked.draft_eq.trans hpushes⟩
  | generatedTwice left right s t u q w v hgenerated hjoins hevolves hlooked hlooked' _ hjoins' =>
    have hasking := hjoins.asking hp hn hgenerated hquery hevolves hlooked hlooked'
    obtain ⟨u', label, hrest⟩ := hjoins'.peeks hasking.sound fun c hc => (hasking.query c hc).1
    exact .inr ⟨u, u', label, hasking, hrest⟩

/-! ## Resolutions -/

/-- What is reported while the parent scope is compiled, if that is not around the expansion. -/
def FilesScope (env : Environment) (F : Report → Prop) (base : Arena) (fuel : Nat) (e : NodeId)
    (draft : Draft) : Prop :=
  ∀ q scope, Sound env q → q.draft = draft → draft.find? (·.kind.isParent) = some scope →
    draft.arena.isWithin e scope = false → Files F base (nodeWithin env fuel scope) q

/-- Reports on an expansion, with its query, are of some sort. -/
def Approves (F : Report → Prop) (e : NodeId) (draft : Draft) : Prop :=
  ∀ r c, draft.arena.child? e 0 = some c → r.id = e → r.query = draft.arena.treeAt c → F r

section Resolution

variable (hp : Sound env p) (hbase : base.Rewrites p.draft.arena)

include hp hbase

/-- The visibility of a scan. -/
theorem visibility_files (hscope : FilesScope env F base fuel e p.draft) (link : Link) :
    Files F base (visibility env (nodeWithin env fuel) e link) p := by
  unfold visibility
  refine .looks_bind hp hbase (mapping_looks hp link.index) fun linked q hlooked => ?_
  have hq := (hlooked.evolves hp).sound
  have hscan : ∀ scope, q.draft.find? (·.kind.isParent) = some scope →
      q.draft.arena.isWithin e scope = false → Files F base (scanQuery (nodeWithin env fuel) scope) q := by
    intro scope hfound hwithin
    rw [hlooked.draft_eq] at hfound hwithin
    unfold scanQuery
    exact .bind_known rfl rfl (.within rfl (fun _ => ⟨rfl, rfl⟩)
      (hscope _ scope ⟨hq.ascending, hq.faithful⟩ hlooked.draft_eq hfound hwithin))
  split
  · exact .pure _
  · refine .bind_known rfl rfl ?_
    simp only
    split
    · exact .pure _
    · next scope hfound =>
      split
      · exact .pure _
      · next hwithin => exact (hscan scope hfound (eq_false_of_ne_true hwithin)).bind fun _ _ _ => .pure _

/-- The values of a join. -/
theorem joinValues_files
    (hsettled : ∀ c, p.draft.arena.child? e 0 = some c → p.draft.arena.Settled c)
    (hscope : FilesScope env F base fuel e p.draft) (hown : Approves F e p.draft) (link : Link)
    (left right : String) : Files F base (joinValues env (nodeWithin env fuel) e link left right) p := by
  unfold joinValues
  cases hc : p.draft.arena.child? e 0 with
  | none => exact .bind_error (exec_queryOf_none hc) hbase
  | some c =>
    refine .bind_known (exec_queryOf hc) rfl (.bind_known rfl rfl (.bind_known rfl rfl ?_))
    refine .looks_bind hp hbase (mapping_looks hp _) fun linked p₁ h₁ => ?_
    have hp₁ := (h₁.evolves hp).sound
    refine .looks_bind hp₁ (h₁.draft_eq ▸ hbase) (mappingOf_looks hp₁ _) fun leftOwner p₂ h₂ => ?_
    have hp₂ := (h₂.evolves hp₁).sound
    have hdraft₂ := (h₁.trans h₂).draft_eq
    refine .looks_bind hp₂ (hdraft₂ ▸ hbase) (mappingOf_looks hp₂ _) fun rightOwner p₃ h₃ => ?_
    have hp₃ := (h₃.evolves hp₂).sound
    have hdraft := ((h₁.trans h₂).trans h₃).draft_eq
    have hbase₃ : base.Rewrites p₃.draft.arena := hdraft ▸ hbase
    split
    · exact .report_bind (hown _ c hc rfl rfl) (Filed.refl _)
    · have hrests : Rests env (scanQuery (nodeWithin env fuel) c) p₃ :=
        Rests.get (.within hp₃ ⟨rfl, rfl, rfl, rfl⟩ (fun _ => ⟨rfl, rfl, rfl, rfl⟩) fun henter =>
          nodeWithin_rests fuel henter.sound (by
            show p₃.draft.arena.Settled c
            rw [hdraft]
            exact hsettled c hc))
      refine (Files.of_rests hbase₃ hrests).bind fun filter p₄ hfilter => ?_
      have hrested := (wp_of_ok hfilter).mp hrests
      have hdraft₄ : p₄.draft = p.draft := hrested.draft_eq.trans hdraft
      have hbase₄ : base.Rewrites p₄.draft.arena := hdraft₄ ▸ hbase
      refine (visibility_files hrested.sound hbase₄ (hdraft₄ ▸ hscope) link).bind fun post u hpost => ?_
      have hrewrites : p₄.draft.arena.Rewrites u.draft.arena := Sees.rewrites hrested.sound
        ((wp_of_ok hpost).mp (leads_visibility fuel (nodeWithin_steps fuel) hrested.sound e link)).2
      refine .report_bind (hown _ c hc rfl rfl) (Files.bind ?_ fun values t _ => Filed.refl t)
      -- the scan itself reports nothing
      unfold scan
      refine .bind_known rfl rfl (.bind_known rfl rfl ?_)
      unfold Files
      rw [wp_ofExcept]
      split
      · exact .refl _
      · exact ⟨hbase₄.trans hrewrites, .refl _⟩

omit hp in
/-- The query of an expansion in its place. -/
theorem substitute_files (hown : Approves F e p.draft) (link : Link) (own : Bool) :
    Files F base (substitute e link own) p := by
  unfold substitute
  cases hc : p.draft.arena.child? e 0 with
  | none => exact .bind_error (exec_queryOf_none hc) hbase
  | some c =>
    exact .bind_known (exec_queryOf hc) rfl (.bind_known rfl rfl
      (.report_bind (hown _ c hc rfl rfl) (.pure _)))

/-- What an expansion over a join path resolves to. -/
theorem resolveLink_files
    (hsettled : ∀ c, p.draft.arena.child? e 0 = some c → p.draft.arena.Settled c)
    (hscope : FilesScope env F base fuel e p.draft) (hown : Approves F e p.draft) (link target : Link) :
    Files F base (resolveLink env (nodeWithin env fuel) e link target) p := by
  unfold resolveLink
  refine .looks_bind hp hbase (.ofExcept _) fun path q hlooked => ?_
  have hq := (hlooked.evolves hp).sound
  refine .looks_bind hq (hlooked.draft_eq ▸ hbase) ⟨_, exec_joinFields hq path⟩ fun fields s hlooked' => ?_
  have hs := (hlooked'.evolves hq).sound
  have hdraft := (hlooked.trans hlooked').draft_eq
  refine .bind_known rfl rfl ?_
  split
  · exact substitute_files (hdraft ▸ hbase) (hdraft ▸ hown) link false
  · exact joinValues_files hs (hdraft ▸ hbase) (by rwa [hdraft]) (hdraft ▸ hscope) (hdraft ▸ hown) link _ _

end Resolution

/-- What an expansion over a synthesized link resolves to. -/
theorem resolveGenerated_files (hp : Sound env p) (hbase : base.Rewrites p.draft.arena)
    (hn : (p.draft.arena.label e).kind.isExpansion = true)
    (hgenerated : (p.draft.arena.label e).kind.isGenerated = true)
    (hquery : ∀ c, p.draft.arena.child? e 0 = some c → p.draft.arena.Settled c ∧ p.draft.arena.Bare c)
    (h : ∀ q, Asking env fuel e p q → FilesScope env F base fuel e q.draft ∧ Approves F e q.draft)
    (label : Label) (link primary : Link) :
    Files F base (resolveGenerated env (nodeWithin env fuel) e label link primary) p := by
  have hsettled := fun c hc => (hquery c hc).1
  obtain ⟨hscope, hown⟩ := h p (.start hp hn hquery)
  unfold resolveGenerated
  refine (joinValues_files hp hbase hsettled hscope hown link _ _).bind fun w s hs => ?_
  obtain ⟨es, hjoins⟩ := (wp_of_ok hs).mp
    (leads_joinValues fuel (nodeWithin_steps fuel) hp e link .own)
  -- one node is new after the first scan, besides what the scan has rewritten
  have hbase' : base.Rewrites s.draft.arena := by
    obtain ⟨u, values, hproceeds, hvalues, -, -, hdraft, -⟩ :=
      hjoins.proceeds (fun _ => True) (nodeWithin_proceeds fuel) hp hn hsettled trivial
    rw [hdraft]
    exact hbase.trans (hproceeds.rewrites.trans (Query.Arena.Rewrite.push _ values hvalues).rewrites)
  refine .looks_bind es.sound hbase' ⟨_, exec_ownerOf es.sound _⟩ fun owner t hlooked => ?_
  split
  · exact .pure _
  · -- the values of the first scan become the query of the second one
    have ht := (hlooked.evolves es.sound).sound
    have hset := (evolves_requeried ht ((hjoins.fresh hp).congr hlooked.draft_eq)).sound
    have hasking := fun u hlooked' =>
      hjoins.asking (u := u) hp hn hgenerated hquery es hlooked hlooked'
    refine .bind_known rfl rfl (.looks_bind hset (hbase.trans (hasking _ (.refl _)).rewrites)
      (mapping_looks hset _) fun linked u hlooked' => ?_)
    have hu := hasking u hlooked'
    obtain ⟨hscope', hown'⟩ := h u hu
    exact joinValues_files hu.sound (hbase.trans hu.rewrites) (fun c hc => (hu.query c hc).1) hscope'
      hown' link _ _

/-- A node without a link is no expansion. -/
theorem exec_linkOf_none (h : (p.draft.arena.label e).kind.link? = none) :
    exec (linkOf e) p = (.error (.notAnExpansion (p.draft.arena.label e).kind.name), p) := by
  rw [linkOf, exec_labelOf_bind]
  simp only [h]
  rfl

/-- **The resolution of an expansion**, if what it asks for reports on what is of some sort only. -/
theorem resolve_files (hp : Sound env p) (hbase : base.Rewrites p.draft.arena)
    (hquery : (p.draft.arena.label e).kind.isExpansion = true → ∀ c,
      p.draft.arena.child? e 0 = some c → p.draft.arena.Settled c ∧ p.draft.arena.Bare c)
    (h : ∀ q, Asking env fuel e p q → FilesScope env F base fuel e q.draft ∧ Approves F e q.draft)
    (primary target : Link) : Files F base (resolve env (nodeWithin env fuel) primary target e) p := by
  unfold resolve
  refine .bind_known rfl rfl ?_
  cases hlink : (p.draft.arena.label e).kind.link? with
  | none => exact .bind_error (exec_linkOf_none hlink) hbase
  | some link =>
    have hn := Query.Kind.isExpansion_of_link? hlink
    have hsettled := fun c hc => (hquery hn c hc).1
    obtain ⟨hscope, hown⟩ := h p (.start hp hn (hquery hn))
    refine .bind_known (exec_linkOf hlink) rfl (.bind_known rfl rfl ?_)
    simp only
    -- nothing fails after that, and nothing is reported
    have hplace : ∀ (v : NodeId) (q : Progress), Files F base (do
        modifyArena fun arena => arena.replace e v
        if (p.draft.arena.label e).boost.isSome then
          modifyArena fun arena => arena.modifyLabel e fun new =>
            { new with boost := (p.draft.arena.label e).boost }) q := by
      intro v q
      refine .bind_known rfl rfl ?_
      split
      · exact Filed.refl _
      · exact .pure _
    split
    · exact (substitute_files hbase hown link true).bind fun v q _ => hplace v q
    · split
      · next hgenerated =>
        exact (resolveGenerated_files hp hbase hn hgenerated (hquery hn) h _ link primary).bind
          fun v q _ => hplace v q
      · exact (resolveLink_files hp hbase hsettled hscope hown link target).bind fun v q _ => hplace v q

/-! ## Expansions -/

/-- Removing the name of a link settles nothing, and is a step of rewriting. -/
theorem stripped_rewrites (hn : (p.draft.arena.label n).kind.isExpansion = true) (link : Link) :
    p.draft.arena.Advanced (stripped p n link).draft.arena ∧
      p.draft.arena.Rewrites (stripped p n link).draft.arena := by
  unfold stripped
  split
  · exact ⟨.refl _, .refl _⟩
  · next name _ =>
    obtain ⟨hsize, hkinds, hchildren, -⟩ := p.draft.arena.stripName_spec n name
    exact ⟨.of_same hsize hkinds hchildren, (Query.Arena.Rewrite.strip _ n name hn).rewrites⟩

section Expansion

variable {link primary target : Link} (hp : Sound env p) (hprimary : primary = p.metadata.primary)
  (hn : (p.draft.arena.label n).kind.isExpansion = true)

include hp hprimary hn

/-- The turns of the stack of an expansion. -/
theorem expansions_turns : Turns (resolve env (nodeWithin env fuel) primary target)
    (Turn env (stripped p n link)) (p.draft.arena.expansions n).reverse (stripped p n link) := by
  have hstrip := evolves_stripped hp n link
  exact stack_turns hp.ascending _ n (Query.Arena.lt_size_of_isExpansion hn) (by omega) _ hstrip.sound
    (hprimary.trans hstrip.grows.primary_eq.symm) (stripped_rewrites hn link).1

/-- What the resolved stack of an expansion leaves. -/
theorem expansions_resolved (h : exec ((p.draft.arena.expansions n).reverse.forM
      (resolve env (nodeWithin env fuel) primary target)) (stripped p n link) = (.ok ⟨⟩, q)) :
    Evolves env p q ∧ p.draft.arena.Rewrites q.draft.arena ∧ q.draft.arena.Settled n ∧
      q.draft.arena.Bare n := by
  have hstrip := evolves_stripped hp n link
  have hlt := Query.Arena.lt_size_of_isExpansion hn
  have hprimary' := hprimary.trans hstrip.grows.primary_eq.symm
  obtain ⟨hadvanced, hrewrites⟩ := stripped_rewrites hn link
  obtain ⟨hevolves, -, hsettled⟩ := stack_advance (nodeWithin_advance fuel) hp.ascending _ n hlt (by omega)
    _ q hstrip.sound hprimary' hadvanced h
  obtain ⟨hrewrites', hbare⟩ := stack_rewrites hp.ascending _ n hlt (by omega) hstrip.sound hprimary'
    hadvanced h
  exact ⟨hstrip.trans hevolves, hrewrites.trans hrewrites', hsettled, hbare⟩

omit hp hprimary in
/-- **A compiled expansion**, if every turn of its stack files, and what stands in its place. -/
theorem expand_files (hbase : base.Rewrites p.draft.arena)
    (hlink : (p.draft.arena.label n).kind.link? = some link)
    (hturns : ∀ target,
      Turns (resolve env (nodeWithin env fuel) p.metadata.primary target)
        (fun q e => Files F base (resolve env (nodeWithin env fuel) p.metadata.primary target e) q)
        (p.draft.arena.expansions n).reverse (stripped p n link))
    (hplace : ∀ target q, exec ((p.draft.arena.expansions n).reverse.forM
        (resolve env (nodeWithin env fuel) p.metadata.primary target)) (stripped p n link) = (.ok ⟨⟩, q) →
      Files F base (nodeWithin env fuel n) q) :
    Files F base (expand env (nodeWithin env fuel) n) p := by
  unfold expand
  refine .bind_known (exec_linkOf hlink) rfl (.bind_known rfl rfl (.bind_known rfl rfl
    (.bind_known rfl rfl ?_)))
  generalize (if p.generated.isEmpty then p.metadata.primary else link) = target
  have hstrip : base.Rewrites (stripped p n link).draft.arena := hbase.trans (stripped_rewrites hn link).2
  -- whether the link has a name or not, the stack is resolved in the stripped state
  have hrest : Files F base (do
      ((p.draft.arena.expansions n).reverse.forM
        (resolve env (nodeWithin env fuel) p.metadata.primary target))
      nodeWithin env fuel n) (stripped p n link) :=
    (Files.forM _ (hturns target)).bind fun _ q hq => hplace target q hq
  unfold stripped at hrest
  simp only
  split
  · next name hname =>
    rw [hname] at hrest
    exact .bind_known rfl rfl hrest
  · next hname =>
    have hnone : link.name = none := by
      cases hlinkName : link.name with
      | none => rfl
      | some name => exact absurd hlinkName (hname name)
    rw [hnone] at hrest
    exact hrest

end Expansion

/-! ## Nodes -/

section Node

variable {recur : NodeId → Compile Fragment}

/-- A compiler of nodes that files the children of a node, one after the other. -/
def FilesAll (env : Environment) (F : Report → Prop) (base : Arena) (recur : NodeId → Compile Fragment)
    (n : NodeId) (p : Progress) : Prop :=
  ∀ s, Sound env s → s.draft = p.draft → ∀ before c after, p.draft.arena.children n = before ++ c :: after →
    ∀ fragments q, exec (before.mapM recur) s = (.ok fragments, q) → Files F base (recur c) q

variable (hp : Sound env p) (hbase : base.Rewrites p.draft.arena) (h : FilesAll env F base recur n p)

include hp hbase h

/-- A compiled scope. -/
theorem scope_files : Files F base (scope env recur n) p := by
  unfold scope
  refine .bind_known rfl rfl (.bind_known rfl rfl ?_)
  extract_lets rest
  have hrest : ∀ s : Progress, Sound env s → s.draft = p.draft → Files F base (rest ⟨⟩) s := by
    intro s hs hdraft
    have hchildren := h { s with scopeDepth := s.scopeDepth + 1 } ⟨hs.ascending, hs.faithful⟩ hdraft
    refine Files.bind (.within rfl (fun _ => ⟨rfl, rfl⟩) (.mapM _ hchildren)) fun fragments q _ =>
      .bind_known rfl rfl ?_
    split
    · exact .pure _
    · refine .bind_known rfl rfl ?_
      split
      · exact .pure _
      · exact .pure _
  split
  · refine .looks_bind hp hbase (sharedPath_looks hp n) fun path q hlooked => .bind_known rfl rfl ?_
    have hq := (hlooked.evolves hp).sound
    exact hrest { q with scopePath := path } ⟨hq.ascending, hq.faithful⟩ hlooked.draft_eq
  · exact hrest p hp rfl

/-- **A compiled node**, other than an expansion, if its children are filed. -/
theorem node_files (hn : n < p.draft.arena.size)
    (hkind : (p.draft.arena.label n).kind.isExpansion = false) : Files F base (node env recur n) p := by
  have hclauses : ∀ wrap : List Fragment → Fragment, Files F base (do
      return wrap (← (← childrenOf n).mapM recur)) p := fun wrap =>
    .bind_known rfl rfl ((Files.mapM _ (h p hp rfl)).bind fun _ _ _ => .pure _)
  have hjoined : ∀ join, Files F base (joined env recur join n) p := by
    intro join
    unfold joined
    refine .bind_known rfl rfl ?_
    split
    · exact .pure _
    · next child rest hchildren =>
      exact (h p hp rfl [] child rest hchildren [] p rfl).bind fun _ _ _ => .pure _
  -- one case for each branch of the compiler, in its order
  unfold node
  refine .bind_known rfl rfl ?_
  split
  · exact hclauses _
  · exact hclauses _
  · refine .bind_known rfl rfl ?_
    split
    · exact .pure _
    · exact hclauses _
  · exact scope_files hp hbase h
  · exact hjoined _
  · refine .bind_known rfl rfl ?_
    split
    · exact .pure _
    · exact hjoined _
  · next hk =>
    rw [hk] at hkind
    exact absurd hkind (by simp [Kind.isExpansion])
  · exact .looks_bind hp hbase (proximity_looks hp _ hn) fun _ _ _ => .pure _
  · exact .looks_bind hp hbase (leaf_looks hp _) fun _ _ _ => .pure _

end Node

/-- **A compiled node** of any kind, if its parts are filed. -/
theorem nodeWithin_succ_files (hp : Sound env p) (hbase : base.Rewrites p.draft.arena)
    (hn : n < p.draft.arena.size)
    (hall : (p.draft.arena.label n).kind.isExpansion = false → FilesAll env F base (nodeWithin env fuel) n p)
    (hexpand : ∀ link generated stack, (p.draft.arena.label n).kind = .expansion link generated →
      Files F base (expand env (nodeWithin env fuel) n) { p with generated := stack }) :
    Files F base (nodeWithin env (fuel + 1) n) p := by
  show Files F base (node env (nodeWithin env fuel) n) p
  cases hkind : (p.draft.arena.label n).kind.isExpansion with
  | false => exact node_files hp hbase (hall hkind) hn hkind
  | true =>
    obtain ⟨link, generated, hk⟩ := Kind.exists_of_isExpansion hkind
    unfold node
    refine .bind_known rfl rfl ?_
    rw [hk]
    simp only [expansion]
    split
    · exact .within rfl (fun _ => ⟨rfl, rfl⟩) (hexpand link generated _ hk)
    · exact hexpand link generated p.generated hk

/-! ## Calm places -/

/-- An expansion in a calm place: nothing is asked for but its query. -/
theorem expand_files_below {link : Link} (hp : Sound env p) (hcalm : Calm p.draft n)
    (hlink : (p.draft.arena.label n).kind.link? = some link) :
    Files (fun r => r.id < p.draft.arena.size → p.draft.arena.Below n r.id) p.draft.arena
      (expand env (nodeWithin env fuel) n) p := by
  have hkind := Query.Kind.isExpansion_of_link? hlink
  have hn := Query.Arena.lt_size_of_isExpansion hkind
  have hstrip := evolves_stripped hp n link
  obtain ⟨hframed, hsame⟩ := stripped_framed p n link
  have hcalm' : Calm (stripped p n link).draft n := hcalm.framed hp hstrip hframed hn fun htrue =>
    absurd ((Query.Kind.isParent_of_isExpansion hkind).symm.trans htrue) (by simp)
  refine expand_files hkind (.refl _) hlink (fun target before e after hstack q hq => ?_)
    fun target q hq => ?_
  · have hmem : e ∈ (p.draft.arena.expansions n).reverse := hstack ▸ by simp
    have hbelow := (Query.Arena.open_of_mem_expansionsWithin _ (List.mem_reverse.mp hmem)).1.below
    have hturn := expansions_turns hp rfl hkind before e after hstack q hq
    have hquiet : Calm q.draft e := stack_calm _ n _ hstrip.sound hstrip.grows.primary_eq.symm hcalm'
      (Nat.lt_of_lt_of_le hn hframed.size_le) before e after (hsame ▸ hstack) q hq
    refine resolve_files hturn.evolves.sound ((stripped_rewrites hkind link).2.trans hturn.rewrites)
      hturn.query (fun u hu => ⟨fun v scope hv hdraft hscope hwithin => ?_, ?_⟩) _ _
    · -- the parent scope is around the expansion
      rw [(hu.calm hquiet).isWithin hu.sound.ascending
        (Query.Arena.lt_size_of_isExpansion hu.isExpansion) hscope] at hwithin
      exact absurd hwithin (by simp)
    · rintro r c - rfl - -
      exact hbelow
  · obtain ⟨hevolves, hrewrites, hsettled, -⟩ := expansions_resolved hp rfl hkind hq
    exact .of_rests hrewrites (nodeWithin_rests fuel hevolves.sound hsettled)

/-- **In a calm place** all reports are on expansions below the node that is compiled. -/
theorem nodeWithin_files_below (fuel : Nat) (n : Nat) (p : Progress) (hp : Sound env p)
    (hcalm : Calm p.draft n) (hn : n < p.draft.arena.size) :
    Files (fun r => r.id < p.draft.arena.size → p.draft.arena.Below n r.id) p.draft.arena
      (nodeWithin env fuel n) p := by
  induction fuel generalizing n p with
  | zero => exact .throw (.refl _) _
  | succ fuel ih =>
    refine nodeWithin_succ_files hp (.refl _) hn (fun _ s hs hdraft before c after hchildren fragments q hq =>
      ?_) fun link generated stack hk => ?_
    · -- the children before this one have changed nothing but what is below them
      rw [← hdraft] at hcalm hn hchildren ⊢
      have hmem : ∀ x ∈ before ++ c :: after, x ∈ s.draft.arena.children n := by simp [hchildren]
      have hbefore := fun x (hx : x ∈ before) => hmem x (List.mem_append_left _ hx)
      have hc := hmem c (by simp)
      obtain ⟨hsq, hframed⟩ := compiledAll_framed (nodeWithin_framed fuel) before hs hcalm hbefore hq
      have hrewrites := compiledAll_rewrites before hs (fun x hx => hs.ascending.child_lt n x (hbefore x hx)) hq
      have hc' : c ∈ q.draft.arena.children n := by rwa [hframed.children_eq]
      have hcalm' : Calm q.draft n := hcalm.framed hs hsq hframed.framed hn fun htrue => by
        rwa [Query.Arena.label_congr hframed.slot_eq]
      refine ((ih c q hsq.sound (hcalm'.child hc') (hsq.sound.ascending.child_lt n c hc')).rebase
        hrewrites).mono fun r hr hlt => ?_
      have htraced := hrewrites.traced hs.ascending
      exact .of_child hc (htraced.below c r.id hlt (hr (Nat.lt_of_lt_of_le hlt htraced.size_le)))
    · exact expand_files_below (p := { p with generated := stack }) ⟨hp.ascending, hp.faithful⟩ hcalm
        (by rw [hk]; rfl)

end LinkedSearch.Compile
