import LinkedSearch.Proofs.Advance
import LinkedSearch.Proofs.Arena.Tracing

/-! # How compilations proceed

Every successful compilation proceeds in steps of a few kinds. It rewrites the arena, reports on
expansions before anything takes their place, and decides on the visibility of a scan before the scan is
reported:

* `Proceeds`: the steps, with what may be asked of them. The expansions that are scanned are known in
  advance.
* `Joins.proceeds`, `Resolved.proceeds`: the parts that resolve an expansion.
* `stack_proceeds`: a resolved stack, which leaves no expansion below its node.
* `nodeWithin_proceeds`, `nodeWithin_rewrites`: every compiled node, with its reports and without. -/

namespace LinkedSearch

open Query (Arena Kind Label NodeId)

/-- A state with another arena. -/
def Progress.withArena (p : Progress) (arena : Arena) : Progress :=
  { p with draft := { p.draft with arena } }

/-- A state with one more report. -/
def Progress.log (p : Progress) (r : Report) : Progress := { p with reports := p.reports ++ [r] }

/-- The expansion is replaced by values, and not by its query. -/
def Resolution.isJoin : Resolution → Bool
  | .inPlace _ => false
  | _ => true

namespace Compile

open Query.Arena (Rewrite Rewrites)

variable {env : Environment} {known : NodeId → Prop} {p q s : Progress} {n m v : Nat}

/-! ## New queries of expansions -/

/-- Freshness is about the draft. -/
theorem Fresh.congr (h : Fresh p n v) (hdraft : q.draft = p.draft) : Fresh q n v := by
  obtain ⟨hlt, hlater, hslot, hloose⟩ := h
  exact ⟨by rwa [hdraft], hlater, by rwa [hdraft], by rwa [hdraft]⟩

/-- A new query for an expansion is an evolution. -/
theorem evolves_requeried (hp : Sound env p) (hfresh : Fresh p n v) :
    Evolves env p (p.withArena (p.draft.arena.setChild n 0 v)) := by
  refine .changeArena hp (hp.ascending.setChild 0 hfresh.later hfresh.lt_size hfresh.loose) ?_ ?_
    fun i _ => ?_
  · exact Nat.le_of_eq (Query.Arena.size_setChild ..).symm
  · exact .of_kinds fun i => ⟨i, by rw [Query.Arena.label_setChild]⟩
  · rw [Query.Arena.label_setChild]
    exact ⟨rfl, rfl⟩

/-! ## Steps -/

/-- **Proceeding** from one state to a later one. What is scanned must be known, or be found below the
parent scope that is compiled for the visibility of a scan. -/
inductive Proceeds (env : Environment) : (NodeId → Prop) → Progress → Progress → Prop where
  /-- Neither the draft nor the reports change. -/
  | still {known : NodeId → Prop} {p q : Progress} (hdraft : q.draft = p.draft)
      (hreports : q.reports = p.reports) : Proceeds env known p q
  | trans {known : NodeId → Prop} {p q s : Progress} (hpq : Proceeds env known p q)
      (hqs : Proceeds env known q s) : Proceeds env known p s
  /-- A new node outside the query. -/
  | push {known : NodeId → Prop} (p : Progress) (label : Label)
      (hexpansion : label.kind.isExpansion = false) (hparent : label.kind.isParent = false) :
      Proceeds env known p (p.withArena (p.draft.arena.push label).1)
  /-- The fields below an expansion without the name of its link. -/
  | strip {known : NodeId → Prop} (p : Progress) (e : Nat) (name : String)
      (he : (p.draft.arena.label e).kind.isExpansion = true) :
      Proceeds env known p (p.withArena (p.draft.arena.stripName e name))
  /-- A new node as the query of an expansion that was scanned. -/
  | requery {known : NodeId → Prop} (p : Progress) (e : Nat) (label : Label)
      (he : (p.draft.arena.label e).kind.isExpansion = true)
      (hexpansion : label.kind.isExpansion = false) (hparent : label.kind.isParent = false)
      (hquery : ∀ c, p.draft.arena.child? e 0 = some c → p.draft.arena.Bare c)
      (hreported : ∃ r ∈ p.reports, r.id = e ∧ r.resolution.isJoin = true) :
      Proceeds env known p
        (p.withArena ((p.draft.arena.push label).1.setChild e 0 p.draft.arena.size))
  /-- The query of an expansion in its place. -/
  | inline {known : NodeId → Prop} (p : Progress) (e v : Nat) (boost : Boost)
      (he : (p.draft.arena.label e).kind.isExpansion = true)
      (hquery : p.draft.arena.child? e 0 = some v) (hbare : p.draft.arena.Bare v)
      (hreported : ∃ r ∈ p.reports, r.id = e ∧ ∃ own, r.resolution = .inPlace own) :
      Proceeds env known p (p.withArena (substituted p.draft.arena e v boost))
  /-- A new node in the place of an expansion. -/
  | join {known : NodeId → Prop} (p : Progress) (e v : Nat) (boost : Boost)
      (he : (p.draft.arena.label e).kind.isExpansion = true) (hfresh : Fresh p e v)
      (hexpansion : (p.draft.arena.label v).kind.isExpansion = false)
      (hparent : (p.draft.arena.label v).kind.isParent = false)
      (hquery : ∀ c, p.draft.arena.child? e 0 = some c → p.draft.arena.Bare c)
      (hreported : ∃ r ∈ p.reports, r.id = e ∧ r.resolution.isJoin = true) :
      Proceeds env known p (p.withArena (substituted p.draft.arena e v boost))
  /-- A report on an expansion that is not scanned. -/
  | report {known : NodeId → Prop} (p : Progress) (r : Report)
      (hresolution : r.resolution.request? = none) : Proceeds env known p (p.log r)
  /-- The report on an unrestricted scan. -/
  | scan {known : NodeId → Prop} (p : Progress) (r : Report) (request : ScanRequest)
      (hresolution : r.resolution = .scan request) (hknown : known r.id)
      (he : (p.draft.arena.label r.id).kind.isExpansion = true) (hpost : request.postFilter = none)
      (hwhy : ∃ mapping, env.resolver.mapping request.index = .ok mapping ∧
        (mapping.alwaysVisible = false → ∀ scope, p.draft.find? (·.kind.isParent) = some scope →
          p.draft.arena.isWithin r.id scope = true)) : Proceeds env known p (p.log r)
  /-- The report on a restricted scan, before which a parent scope was compiled. -/
  | filteredScan {known : NodeId → Prop} (p q : Progress) (r : Report) (request : ScanRequest)
      (scope : NodeId) (hresolution : r.resolution = .scan request) (hknown : known r.id)
      (he : (p.draft.arena.label r.id).kind.isExpansion = true)
      (hpost : request.postFilter.isSome = true)
      (hindex : ∃ mapping, env.resolver.mapping request.index = .ok mapping ∧
        mapping.alwaysVisible = false)
      (hscope : p.draft.find? (·.kind.isParent) = some scope)
      (hwithin : p.draft.arena.isWithin r.id scope = false)
      (hinner : Proceeds env (fun x => known x ∨
        (p.draft.arena.label x).kind.isExpansion = true ∧ p.draft.arena.Open scope x) p q) :
      Proceeds env known p (q.log r)

namespace Proceeds

@[refl] theorem refl (p : Progress) : Proceeds env known p p := .still rfl rfl

/-- Only the draft and the reports matter. -/
theorem transfer {p' q' : Progress} (h : Proceeds env known p' q') (hdraft : p'.draft = p.draft)
    (hreports : p'.reports = p.reports) (hdraft' : q.draft = q'.draft)
    (hreports' : q.reports = q'.reports) : Proceeds env known p q :=
  .trans (.still hdraft hreports) (.trans h (.still hdraft' hreports'))

/-- The arena is rewritten. -/
theorem rewrites (h : Proceeds env known p q) : p.draft.arena.Rewrites q.draft.arena := by
  induction h with
  | still hdraft _ => rw [hdraft]
  | trans _ _ ih ih' => exact ih.trans ih'
  | push p label hexpansion _ => exact (Rewrite.push _ label hexpansion).rewrites
  | strip p e name he => exact (Rewrite.strip _ e name he).rewrites
  | requery p e label he hexpansion _ hquery _ =>
    exact (Rewrite.requery _ e label he hexpansion hquery).rewrites
  | inline p e v boost he hquery hbare _ =>
    refine (Rewrite.resolve _ e v boost he (.inl hquery) hbare fun c hc => ?_).rewrites
    rw [hquery] at hc
    cases hc
    exact hbare
  | join p e v boost he hfresh hexpansion _ hquery _ =>
    have hbare := Query.Arena.bare_of_childless hexpansion hfresh.children_eq
    have hv : p.draft.arena.Replaces e v := .inr ⟨hfresh.later, hfresh.slot_eq, hfresh.loose⟩
    exact (Rewrite.resolve _ e v boost he hv hbare hquery).rewrites
  | report => exact .refl _
  | scan => exact .refl _
  | filteredScan p q r request scope _ _ _ _ _ _ _ _ ih => exact ih

/-- The root belongs to the request. -/
theorem root_eq (h : Proceeds env known p q) : q.draft.root = p.draft.root := by
  induction h with
  | still hdraft _ => rw [hdraft]
  | trans _ _ ih ih' => exact ih'.trans ih
  | filteredScan _ _ _ _ _ _ _ _ _ _ _ _ _ ih => exact ih
  | _ => rfl

/-- Reports stay on record. -/
theorem reports_prefix (h : Proceeds env known p q) : p.reports <+: q.reports := by
  induction h with
  | still _ hreports => exact hreports ▸ List.prefix_refl _
  | trans _ _ ih ih' => exact ih.trans ih'
  | report p r _ => exact List.prefix_append _ _
  | scan p r _ _ _ _ _ _ => exact List.prefix_append _ _
  | filteredScan p q r _ _ _ _ _ _ _ _ _ _ ih => exact ih.trans (List.prefix_append _ _)
  | _ => exact List.prefix_refl _

/-- More may be known. -/
theorem mono (h : Proceeds env known p q) {known' : NodeId → Prop} (hmono : ∀ x, known x → known' x) :
    Proceeds env known' p q := by
  induction h generalizing known' with
  | still hdraft hreports => exact .still hdraft hreports
  | trans _ _ ih ih' => exact .trans (ih hmono) (ih' hmono)
  | push p label hexpansion hparent => exact .push p label hexpansion hparent
  | strip p e name he => exact .strip p e name he
  | requery p e label he hexpansion hparent hquery hreported =>
    exact .requery p e label he hexpansion hparent hquery hreported
  | inline p e v boost he hquery hbare hreported => exact .inline p e v boost he hquery hbare hreported
  | join p e v boost he hfresh hexpansion hparent hquery hreported =>
    exact .join p e v boost he hfresh hexpansion hparent hquery hreported
  | report p r hresolution => exact .report p r hresolution
  | scan p r request hresolution hknown he hpost hwhy =>
    exact .scan p r request hresolution (hmono _ hknown) he hpost hwhy
  | filteredScan p q r request scope hresolution hknown he hpost hindex hscope hwithin _ ih =>
    exact .filteredScan p q r request scope hresolution (hmono _ hknown) he hpost hindex hscope hwithin
      (ih fun x hx => hx.imp_left (hmono x))

end Proceeds

/-- **Charted**: the expansions that are open to a node are known. -/
def Charted (known : NodeId → Prop) (arena : Arena) (n : Nat) : Prop :=
  ∀ x, (arena.label x).kind.isExpansion = true → arena.Open n x → known x

namespace Charted

variable {arena other : Arena}

/-- There is nothing to know below a bare node. -/
theorem of_bare (h : arena.Bare n) : Charted known arena n := by
  intro x hx hopen
  rw [h x hopen.below] at hx
  exact absurd hx (by simp)

theorem child (h : Charted known arena n) (hkind : (arena.label n).kind.isExpansion = false)
    (hm : m ∈ arena.children n) : Charted known arena m :=
  fun x hx hopen => h x hx (.of_child hkind hm hopen)

/-- What is known stays known. -/
theorem traced (h : Charted known arena n) (htraced : arena.Traced other) : Charted known other n :=
  fun x hx hopen => h x (htraced.remaining x hx) (htraced.open_before n x hx hopen)

end Charted

/-- How a successful compilation proceeds. -/
def Proceeding (env : Environment) (recur : NodeId → Compile Fragment) : Prop :=
  ∀ (known : NodeId → Prop) (n : Nat) (p q : Progress) (fragment : Fragment), Sound env p →
    n < p.draft.arena.size → Charted known p.draft.arena n →
    exec (recur n) p = (.ok fragment, q) → Proceeds env known p q

theorem Looked.reports_eq (h : Looked env p q) : q.reports = p.reports := by
  obtain ⟨md, -, rfl⟩ := h
  rfl

theorem Looked.proceeds (h : Looked env p q) : Proceeds env known p q :=
  .still h.draft_eq h.reports_eq

theorem Looked.arena_eq (h : Looked env p q) : q.draft.arena = p.draft.arena := by
  rw [h.draft_eq]

section Expansion

variable {fuel : Nat} (hrecur : Proceeding env (nodeWithin env fuel)) {link target : Link}
  {left right : String}

include hrecur

/-- **A scan** on record, from the decision on its visibility to its report. -/
theorem Sees.proceeds (hp : Sound env p) {post : Option Fragment} {r : Report} {request : ScanRequest}
    (hresolution : r.resolution = .scan request) (hindex : request.index = link.index)
    (hpost : request.postFilter = post) (hknown : known r.id)
    (he : (p.draft.arena.label r.id).kind.isExpansion = true)
    (h : Sees env (nodeWithin env fuel) r.id link p post q) : Proceeds env known p (q.log r) := by
  cases h with
  | unrestricted _ hlooked hwhy =>
    rw [← hindex, hlooked.draft_eq] at hwhy
    refine .trans (.scan p r request hresolution hknown he hpost hwhy) (.still hlooked.draft_eq ?_)
    exact congrArg (· ++ [r]) hlooked.reports_eq
  | restricted scope filter s t hlooked hscope hwithin hexec hmapping =>
    have hs := (hlooked.evolves hp).sound
    obtain ⟨root, -, hfirst⟩ := (find?_eq_some_iff hs.ascending).mp hscope
    have hinner := hrecur (fun x => known x ∨
        (p.draft.arena.label x).kind.isExpansion = true ∧ p.draft.arena.Open scope x) scope
      { s with aggregating := false } t filter ⟨hs.ascending, hs.faithful⟩
      (Query.Arena.lt_size_of_isParent hfirst.condition_eq)
      (fun x hx hopen => .inr (by rw [← hlooked.arena_eq]; exact ⟨hx, hopen⟩)) hexec
    rw [hlooked.draft_eq] at hscope hwithin
    rw [← hindex] at hmapping
    refine .trans (.filteredScan p t r request scope hresolution hknown he (by rw [hpost]; rfl) hmapping
      hscope hwithin (hinner.transfer hlooked.draft_eq hlooked.reports_eq rfl rfl)) (.still rfl rfl)

variable (known) in
/-- **Join values**: something is reported on the expansion, and then a node is pushed. -/
theorem Joins.proceeds (hp : Sound env p) (hn : (p.draft.arena.label n).kind.isExpansion = true)
    (hsettled : ∀ c, p.draft.arena.child? n 0 = some c → p.draft.arena.Settled c) (hknown : known n)
    (h : Joins env (nodeWithin env fuel) n link left right p v q) :
    ∃ (u : Progress) (label : Label), Proceeds env known p u ∧ label.kind.isExpansion = false ∧
      label.kind.isParent = false ∧ v = u.draft.arena.size ∧
      q.draft = (u.withArena (u.draft.arena.push label).1).draft ∧ q.reports = u.reports ∧
      u.draft.arena.slot? n = p.draft.arena.slot? n ∧
      ∃ r ∈ u.reports, r.id = n ∧ r.resolution.isJoin = true := by
  obtain ⟨-, -, hslot, -⟩ := h.advance (nodeWithin_advance fuel) hp hsettled
  cases h with
  | keys m _ hquery _ hdraft _ hreports =>
    obtain ⟨r, hid, hresolution, hreports⟩ := hreports
    exact ⟨p.log r, _, .report p r (by rw [hresolution]; rfl), rfl, rfl, rfl, hdraft, hreports, rfl,
      r, by simp [Progress.log], hid, by rw [hresolution]; rfl⟩
  | scan m s t u _ filter post values hits hquery hlooked hexec hevolves hsees hevolves' _ hdraft _ _ _
      hreports =>
    obtain ⟨r, rfl, -, hresolution, hreports⟩ := hreports
    have hnlt := Query.Arena.lt_size_of_isExpansion hn
    have hs := (hlooked.evolves hp).sound
    -- the query of the expansion is settled, so nothing happens to it
    have hrests := nodeWithin_rests fuel (p := { s with aggregating := false })
      ⟨hs.ascending, hs.faithful⟩ (n := m)
      (by show s.draft.arena.Settled m; rw [hlooked.draft_eq]; exact hsettled m hquery)
    have hrested := (wp_of_ok hexec).mp hrests
    have hfirst : Proceeds env known p { t with aggregating := s.aggregating } :=
      hlooked.proceeds.trans (.still hrested.draft_eq hrested.reports_eq)
    have hlabel : (t.draft.arena.label r.id).kind.isExpansion = true := by
      rw [hrested.draft_eq]
      show (s.draft.arena.label r.id).kind.isExpansion = true
      rwa [hlooked.arena_eq]
    refine ⟨u.log r, _, hfirst.trans (hsees.proceeds hrecur hevolves.sound hresolution rfl rfl hknown
      hlabel), rfl, rfl, rfl, hdraft, hreports, ?_, r, by simp [Progress.log], rfl,
      by rw [hresolution]; rfl⟩
    have hnu := Nat.lt_of_lt_of_le hnlt (hevolves.trans hevolves').size_le
    rw [← hslot, hdraft]
    exact (Query.Arena.slot?_push_of_lt _ hnu).symm

variable (known) in
/-- **A new query**: the values of a first scan become the query of the expansion. -/
theorem Joins.requeried {t u : Progress} {w : NodeId} (hp : Sound env p)
    (hn : (p.draft.arena.label n).kind.isExpansion = true)
    (hquery : ∀ c, p.draft.arena.child? n 0 = some c →
      p.draft.arena.Settled c ∧ p.draft.arena.Bare c) (hknown : known n)
    (h : Joins env (nodeWithin env fuel) n link left right p w s) (hlooked : Looked env s t)
    (hlooked' : Looked env
      { t with draft := { t.draft with arena := t.draft.arena.setChild n 0 w } } u) :
    Proceeds env known p u ∧ (u.draft.arena.label n).kind.isExpansion = true ∧
      ∀ c, u.draft.arena.child? n 0 = some c →
        u.draft.arena.Settled c ∧ u.draft.arena.Bare c := by
  obtain ⟨first, label, hfirst, hexpansion, hparent, hw, hs, hreports, hslot, hreported⟩ :=
    h.proceeds known hrecur hp hn (fun c hc => (hquery c hc).1) hknown
  have hfirstKind : (first.draft.arena.label n).kind.isExpansion = true := by
    rw [Query.Arena.label_congr hslot]
    exact hn
  have hnlt := Query.Arena.lt_size_of_isExpansion hfirstKind
  have hbare : ∀ c, first.draft.arena.child? n 0 = some c → first.draft.arena.Bare c := by
    intro c hc
    rw [Query.Arena.child?, Query.Arena.children_congr hslot] at hc
    have hclt := hp.ascending.child_lt n c (List.mem_of_getElem? hc)
    exact (hfirst.rewrites.pruned hp.ascending).bare hp.ascending hclt (hquery c hc).2
  -- the lookups in between leave the draft alone, so the new query is one step after the scan
  have hudraft : u.draft = (first.withArena
      ((first.draft.arena.push label).1.setChild n 0 first.draft.arena.size)).draft := by
    rw [hlooked'.draft_eq]
    simp only [hlooked.draft_eq, hs, hw]
    rfl
  have hu : u.draft.arena = (first.draft.arena.push label).1.setChild n 0 first.draft.arena.size := by
    rw [hudraft]
    rfl
  have hureports : u.reports = first.reports :=
    hlooked'.reports_eq.trans (hlooked.reports_eq.trans hreports)
  have hlabels : ∀ i, u.draft.arena.label i = (first.draft.arena.push label).1.label i := by
    intro i
    rw [hu, Query.Arena.label_setChild]
  have hnlt' : n < (first.draft.arena.push label).1.size := by
    rw [Query.Arena.size_push]
    omega
  have hnew : u.draft.arena.children first.draft.arena.size = [] := by
    rw [hu, Query.Arena.children_setChild _ _ _ _ _ hnlt', if_neg (Nat.ne_of_gt hnlt),
      Query.Arena.children_push, Query.Arena.children_of_size_le (Nat.le_refl _)]
  have hnewKind : (u.draft.arena.label first.draft.arena.size).kind.isExpansion = false := by
    rw [hlabels, Query.Arena.label_push_size]
    exact hexpansion
  refine ⟨?_, ?_, fun c hc => ?_⟩
  · exact hfirst.trans ((Proceeds.requery first n label hfirstKind hexpansion hparent hbare
      hreported).trans (.still hudraft hureports))
  · rw [hlabels, Query.Arena.label_push_of_lt label hnlt]
    exact hfirstKind
  · rw [hu, Query.Arena.child?_setChild _ _ _ hnlt'] at hc
    cases hc
    refine ⟨.of_childless ?_ hnewKind hnew, Query.Arena.bare_of_childless hnewKind hnew⟩
    rw [hu, Query.Arena.size_setChild, Query.Arena.size_push]
    omega

/-- **What an expansion resolves to** takes its place in the end. -/
theorem Resolved.proceeds (hp : Sound env p)
    (hn : (p.draft.arena.label n).kind.isExpansion = true)
    (hquery : ∀ c, p.draft.arena.child? n 0 = some c →
      p.draft.arena.Settled c ∧ p.draft.arena.Bare c) (hknown : known n)
    (h : Resolved env (nodeWithin env fuel) n target link p v s) (boost : Boost) :
    Proceeds env known p (s.withArena (substituted s.draft.arena n v boost)) := by
  -- a node that was pushed after a report takes the place of the expansion
  have hpushed : ∀ {t u : Progress} {label : Label}, Sound env t →
      (∀ c, t.draft.arena.child? n 0 = some c → t.draft.arena.Bare c) →
      (t.draft.arena.label n).kind.isExpansion = true → Proceeds env known t u →
      label.kind.isExpansion = false → label.kind.isParent = false → v = u.draft.arena.size →
      s.draft = (u.withArena (u.draft.arena.push label).1).draft → s.reports = u.reports →
      u.draft.arena.slot? n = t.draft.arena.slot? n →
      (∃ r ∈ u.reports, r.id = n ∧ r.resolution.isJoin = true) → Fresh s n v →
      Proceeds env known t (s.withArena (substituted s.draft.arena n v boost)) := by
    intro t u label ht hbare hkind hu hexpansion hparent hv hdraft hreports hslot hreported hfresh
    have harena : s.draft.arena = (u.draft.arena.push label).1 := by
      rw [hdraft]
      rfl
    have hnu : (u.draft.arena.label n).kind.isExpansion = true := by
      rw [Query.Arena.label_congr hslot]
      exact hkind
    have hnlt := Query.Arena.lt_size_of_isExpansion hnu
    have hlabel : s.draft.arena.label v = label := by
      rw [harena, hv, Query.Arena.label_push_size]
    have hts : Proceeds env known t s :=
      hu.trans ((Proceeds.push u label hexpansion hparent).trans (.still hdraft hreports))
    refine hts.trans (.join s n v boost ?_ hfresh (by rwa [hlabel]) (by rwa [hlabel]) ?_
      (by rwa [hreports]))
    · rw [harena, Query.Arena.label_push_of_lt label hnlt]
      exact hnu
    · intro c hc
      rw [harena, Query.Arena.child?, Query.Arena.children_push,
        Query.Arena.children_congr hslot] at hc
      have hclt := ht.ascending.child_lt n c (List.mem_of_getElem? hc)
      exact (hts.rewrites.pruned ht.ascending).bare ht.ascending hclt (hbare c hc)
  have hbare := fun c hc => (hquery c hc).2
  have hsettled := fun c hc => (hquery c hc).1
  cases h with
  | inPlace _ _ hchild _ hdraft _ hreports =>
    obtain ⟨r, own, hid, hresolution, hreports⟩ := hreports
    have hps : Proceeds env known p s :=
      (Proceeds.report p r (by rw [hresolution]; rfl)).trans (.still hdraft hreports)
    refine hps.trans (.inline s n v boost (by rwa [hdraft]) (by rwa [hdraft]) ?_
      ⟨r, by rw [hreports]; simp, hid, own, hresolution⟩)
    rw [hdraft]
    exact hbare v hchild
  | joined path first last t _ _ _ _ _ _ hlooked hjoins =>
    have ht := (hlooked.evolves hp).sound
    rw [← hlooked.arena_eq] at hn hsettled hbare
    obtain ⟨u, label, hu, hexpansion, hparent, hv, hdraft, hreports, hslot, hreported⟩ :=
      hjoins.proceeds known hrecur ht hn hsettled hknown
    exact hlooked.proceeds.trans (hpushed ht hbare hn hu hexpansion hparent hv hdraft hreports hslot
      hreported (hjoins.fresh ht))
  | generated t _ _ hgenerated hjoins hevolves hlooked =>
    obtain ⟨u, label, hu, hexpansion, hparent, hv, hdraft, hreports, hslot, hreported⟩ :=
      hjoins.proceeds known hrecur hp hn hsettled hknown
    have hfresh := hjoins.fresh hp
    rw [← hlooked.draft_eq] at hdraft
    refine hpushed hp hbare hn hu hexpansion hparent hv hdraft (hlooked.reports_eq.trans hreports)
      hslot hreported ?_
    exact ⟨hlooked.draft_eq ▸ hfresh.lt_size, hfresh.later, hlooked.draft_eq ▸ hfresh.slot_eq,
      hlooked.draft_eq ▸ hfresh.loose⟩
  | generatedTwice left right t t' u _ w _ hgenerated hjoins hevolves hlooked hlooked' hevolves'
      hjoins' =>
    obtain ⟨hrequeried, hkind, huquery⟩ :=
      hjoins.requeried known hrecur hp hn hquery hknown hlooked hlooked'
    have hu := hevolves'.sound
    obtain ⟨x, label, hx, hexpansion, hparent, hv, hdraft, hreports, hslot, hreported⟩ :=
      hjoins'.proceeds known hrecur hu hkind (fun c hc => (huquery c hc).1) hknown
    exact hrequeried.trans (hpushed hu (fun c hc => (huquery c hc).2) hkind hx hexpansion hparent hv
      hdraft hreports hslot hreported (hjoins'.fresh hu))

/-- **Resolving an expansion** whose query is settled and bare. -/
theorem resolve_proceeds (hp : Sound env p)
    (hquery : (p.draft.arena.label n).kind.isExpansion = true →
      ∀ c, p.draft.arena.child? n 0 = some c → p.draft.arena.Settled c ∧ p.draft.arena.Bare c)
    (hknown : known n)
    (h : exec (resolve env (nodeWithin env fuel) p.metadata.primary target n) p = (.ok (), q)) :
    Proceeds env known p q ∧ q.draft.arena.Bare n := by
  obtain ⟨-, -, hsettledn⟩ := resolve_advance (nodeWithin_advance fuel) hp
    (fun hexp c hc => (hquery hexp c hc).1) h
  obtain ⟨hpq, link, v, s, hlink, hresolved, hps, rfl⟩ :=
    (wp_of_ok h).mp (leads_resolve fuel (nodeWithin_steps fuel) hp _ target n rfl)
  have hn := Kind.isExpansion_of_link? hlink
  have hproceeds := hresolved.proceeds hrecur hp hn (hquery hn) hknown (p.draft.arena.label n).boost
  exact ⟨hproceeds,
    (hproceeds.rewrites.pruned hp.ascending).emptied n hn hsettledn.isExpansion_eq⟩

/-! ### Stacks -/

omit hrecur in
/-- What the resolution of a stack does that was computed in an earlier arena, where its expansions are
charted. -/
def StackProceeds (env : Environment) (fuel : Nat) (known : NodeId → Prop) (primary target : Link)
    (arena : Arena) (depth m : Nat) : Prop :=
  Charted known arena m → ∀ p q, Sound env p → primary = p.metadata.primary →
    arena.Advanced p.draft.arena →
    exec ((arena.expansionsWithin depth m).reverse.forM
      (resolve env (nodeWithin env fuel) primary target)) p = (.ok (), q) →
    Proceeds env known p q ∧ q.draft.arena.Bare m

omit hrecur in
/-- The stacks below some nodes, the last one first. -/
theorem stacks_proceeds {primary : Link} {arena : Arena} (harena : arena.Ascending) {depth : Nat}
    (ids : List NodeId) (hids : ∀ c ∈ ids, (c : Nat) < arena.size ∧ arena.size ≤ depth + c)
    (ih : ∀ c ∈ ids, StackProceeds env fuel known primary target arena depth c)
    (hcharted : ∀ c ∈ ids, Charted known arena c) (hp : Sound env p)
    (hprimary : primary = p.metadata.primary) (hadvanced : arena.Advanced p.draft.arena)
    (h : exec ((ids.flatMap (arena.expansionsWithin depth)).reverse.forM
      (resolve env (nodeWithin env fuel) primary target)) p = (.ok (), q)) :
    Proceeds env known p q ∧ ∀ c ∈ ids, q.draft.arena.Bare c := by
  induction ids generalizing q with
  | nil =>
    obtain ⟨-, rfl⟩ := Prod.mk.inj h
    exact ⟨.refl _, by simp⟩
  | cons c rest ihr =>
    rw [List.flatMap_cons, List.reverse_append] at h
    obtain ⟨s, hrest, hc⟩ := exec_forM_append_ok.mp h
    have hlater := fun c' hc' => hids c' (List.mem_cons_of_mem c hc')
    -- the later siblings come first, and the stack of the first one is still as it was
    obtain ⟨hps, hadvance, -⟩ := stacks_settle harena rest hlater hp hprimary hadvanced hrest
    obtain ⟨hproceeds, hbare⟩ := ihr hlater (fun c' hc' => ih c' (List.mem_cons_of_mem c hc'))
      (fun c' hc' => hcharted c' (List.mem_cons_of_mem c hc')) hrest
    obtain ⟨hproceeds', hbare'⟩ := ih c List.mem_cons_self (hcharted c List.mem_cons_self) s q
      hps.sound (hprimary.trans hps.grows.primary_eq.symm) (hadvanced.trans hadvance.advanced) hc
    refine ⟨hproceeds.trans hproceeds', fun c' hc' => ?_⟩
    rcases List.mem_cons.mp hc' with rfl | hmem
    · exact hbare'
    · have hlt := Nat.lt_of_lt_of_le (hlater c' hmem).1
        (Nat.le_trans hadvanced.size_le hadvance.advanced.size_le)
      exact (hproceeds'.rewrites.pruned hps.sound.ascending).bare hps.sound.ascending hlt
        (hbare c' hmem)

/-- **A stack that was computed in advance** is resolved step by step, which leaves no expansion below
its node. -/
theorem stack_proceeds {primary : Link} {arena : Arena} (harena : arena.Ascending) (depth m : Nat)
    (hm : m < arena.size) (hdepth : arena.size ≤ depth + m) :
    StackProceeds env fuel known primary target arena depth m := by
  induction depth generalizing m with
  | zero => omega
  | succ depth ih =>
    have hlater := harena.reach_children hdepth
    intro hcharted p q hp hprimary hadvanced h
    rw [Arena.expansionsWithin] at h
    split at h
    · next hkind =>
      rw [List.reverse_cons] at h
      obtain ⟨s, hinner, hself⟩ := exec_forM_append_ok.mp h
      rw [exec_forM_singleton] at hself
      have hfirst : Evolves env p s ∧ Advance p s ∧ Proceeds env known p s ∧
          ∀ c, arena.child? m 0 = some c → s.draft.arena.Settled c ∧ s.draft.arena.Bare c := by
        cases hc : arena.child? m 0 with
        | none =>
          rw [hc] at hinner
          obtain ⟨-, rfl⟩ := Prod.mk.inj hinner
          exact ⟨.refl hp, .refl p, .refl _, by simp⟩
        | some c =>
          rw [hc] at hinner
          have hmem := List.mem_of_getElem? hc
          obtain ⟨hlt, hreach⟩ := hlater c hmem
          obtain ⟨hps, hadvance, hsettled⟩ := stack_advance (nodeWithin_advance fuel) harena depth c
            hlt hreach p s hp hprimary hadvanced hinner
          obtain ⟨hproceeds, hbare⟩ := ih c hlt hreach
            (fun x hx hopen => hcharted x hx (.of_query hc hopen)) p s hp hprimary hadvanced hinner
          refine ⟨hps, hadvance, hproceeds, fun c' hc' => ?_⟩
          cases hc'
          exact ⟨hsettled, hbare⟩
      obtain ⟨hps, hadvance, hproceeds, hquery⟩ := hfirst
      rw [hprimary.trans hps.grows.primary_eq.symm] at hself
      obtain ⟨hproceeds', hbare⟩ := resolve_proceeds hrecur hps.sound
        (fun hexpansion c hc => by
          -- the node is still an expansion, so that its query is the one that was found before
          rw [(hadvanced.trans hadvance.advanced).child?_eq hexpansion] at hc
          exact hquery c hc) (hcharted m hkind (.refl m)) hself
      exact ⟨hproceeds.trans hproceeds', hbare⟩
    · next hkind =>
      have hids := fun c hc => ih c (hlater c hc).1 (hlater c hc).2
      obtain ⟨-, hadvance, -⟩ := stacks_settle harena _ hlater hp hprimary hadvanced h
      obtain ⟨hproceeds, hbare⟩ := stacks_proceeds harena _ hlater hids
        (fun c hc => hcharted.child (eq_false_of_ne_true hkind) hc) hp hprimary hadvanced h
      refine ⟨hproceeds, fun x hx => ?_⟩
      obtain ⟨hsame, hchildren⟩ := (hadvanced.trans hadvance.advanced).kept m hm
        (eq_false_of_ne_true hkind)
      rcases Query.Arena.Below.iff_self_or_child.mp hx with rfl | ⟨c, hc, hcx⟩
      · rw [hsame]
        exact eq_false_of_ne_true hkind
      · rcases hchildren with heq | hnil
        · exact hbare c (heq ▸ hc) x hcx
        · rw [hnil] at hc
          exact absurd hc (by simp)

/-- A compiled expansion. Before its place is compiled there is no expansion left below it. -/
theorem Expanded.proceeds (hp : Sound env p) (hcharted : Charted known p.draft.arena n)
    {fragment : Fragment} (h : Expanded env (nodeWithin env fuel) n p fragment q) :
    ∃ s, Evolves env p s ∧ Proceeds env known p s ∧ s.draft.arena.Settled n ∧
      s.draft.arena.Bare n ∧ exec (nodeWithin env fuel n) s = (.ok fragment, q) ∧
      Proceeds env known s q := by
  obtain ⟨link, target, s, hlink, -, hstack, hstrip, hps, hexec⟩ := h
  have hkind := Kind.isExpansion_of_link? hlink
  have hn := Query.Arena.lt_size_of_isExpansion hkind
  have hstripped : p.draft.arena.Advanced (stripped p n link).draft.arena ∧
      Proceeds env known p (stripped p n link) := by
    unfold stripped
    split
    · exact ⟨.refl _, .refl _⟩
    · next name _ =>
      obtain ⟨hsize, hkinds, hchildren, -⟩ := p.draft.arena.stripName_spec n name
      exact ⟨.of_same hsize hkinds hchildren, .strip p n name hkind⟩
  obtain ⟨-, -, hsettled⟩ := stack_advance (nodeWithin_advance fuel) hp.ascending _ n hn (by omega)
    _ s hstrip.sound hstrip.grows.primary_eq.symm hstripped.1 hstack
  obtain ⟨hproceeds, hbare⟩ := stack_proceeds hrecur hp.ascending _ n hn (by omega) hcharted _ s
    hstrip.sound hstrip.grows.primary_eq.symm hstripped.1 hstack
  refine ⟨s, hps, hstripped.2.trans hproceeds, hsettled, hbare, hexec, ?_⟩
  exact hrecur known n s q fragment hps.sound (Nat.lt_of_lt_of_le hn hps.size_le) (.of_bare hbare) hexec

/-! ### Nodes -/

/-- Some nodes, compiled one after the other. -/
theorem compiledAll_proceeds (ids : List NodeId) {fragments : List Fragment} (hp : Sound env p)
    (hids : ∀ c ∈ ids, (c : Nat) < p.draft.arena.size ∧ Charted known p.draft.arena c)
    (h : CompiledAll (nodeWithin env fuel) ids p fragments q) : Proceeds env known p q := by
  induction ids generalizing p fragments with
  | nil =>
    obtain ⟨-, rfl⟩ := Prod.mk.inj h
    exact .refl _
  | cons c rest ih =>
    obtain ⟨fragment, s, fragments', hc, hrest, -⟩ := exec_mapM_cons_ok.mp h
    obtain ⟨hps, -⟩ := compiled_of_ok hp hc
    obtain ⟨hclt, hcharted⟩ := hids c List.mem_cons_self
    have hfirst := hrecur known c p s fragment hp hclt hcharted hc
    refine hfirst.trans (ih hps.sound (fun c' hc' => ?_) hrest)
    obtain ⟨hlt, hcharted'⟩ := hids c' (List.mem_cons_of_mem c hc')
    exact ⟨Nat.lt_of_lt_of_le hlt hps.size_le, hcharted'.traced (hfirst.rewrites.traced hp.ascending)⟩

end Expansion

/-- **Every successful compilation** proceeds step by step. -/
theorem nodeWithin_proceeds (fuel : Nat) : Proceeding env (nodeWithin env fuel) := by
  induction fuel with
  | zero =>
    intro known n p q fragment hp _ _ h
    obtain ⟨-, bound, hbound, -⟩ := compiled_of_ok hp h
    omega
  | succ fuel ih =>
    intro known n p q fragment hp hn hcharted h
    obtain ⟨-, bound, hbound, hcompiled⟩ := compiled_of_ok hp h
    obtain rfl : fuel = bound := by omega
    -- the children of a node that is no expansion are charted as it is
    have hids : (p.draft.arena.label n).kind.isExpansion = false → ∀ c ∈ p.draft.arena.children n,
        (c : Nat) < p.draft.arena.size ∧ Charted known p.draft.arena c := fun hkind c hc =>
      ⟨hp.ascending.child_lt n c hc, hcharted.child hkind hc⟩
    cases hcompiled with
    | conjunction fragments _ hkind hall =>
      exact compiledAll_proceeds ih _ hp (hids (by rw [hkind]; rfl)) hall
    | disjunction fragments _ hkind hall =>
      exact compiledAll_proceeds ih _ hp (hids (by rw [hkind]; rfl)) hall
    | negation fragments _ hkind _ hall =>
      exact compiledAll_proceeds ih _ hp (hids (by rw [hkind]; rfl)) hall
    | scope path fragments _ s t hkind hl hall path' =>
      obtain ⟨md, hgrows, rfl⟩ := hl
      have hparts := compiledAll_proceeds ih
        (p := { p with metadata := md, scopePath := path, scopeDepth := p.scopeDepth + 1 }) (q := t)
        _ ⟨hp.ascending, hgrows.faithful hp.faithful⟩ (hids (by rw [hkind]; rfl)) hall
      exact hparts.transfer rfl rfl rfl rfl
    | joined child rest fragment _ _ hkind hchildren hexec =>
      have hkind' : (p.draft.arena.label n).kind.isExpansion = false := by
        rcases hkind with ⟨typeName, hkind⟩ | ⟨⟨typeName, hkind⟩, -⟩ <;> rw [hkind] <;> rfl
      obtain ⟨hlt, hcharted'⟩ := hids hkind' child (by simp [hchildren])
      exact ih known child p q fragment hp hlt hcharted' hexec
    | childless => exact .refl _
    | admitted => exact .refl _
    | expansion link generated _ stack s _ _ hexpanded =>
      obtain ⟨t, -, hfirst, -, -, -, hlast⟩ := hexpanded.proceeds ih
        (show Sound env { p with generated := stack } from ⟨hp.ascending, hp.faithful⟩) hcharted
      exact (hfirst.trans hlast).transfer rfl rfl rfl rfl
    | proximity distance ordered _ _ _ hl => exact hl.proceeds
    | leaf fragment _ _ hl _ => exact hl.proceeds

/-! ## Rewriting -/

/-- **Every successful compilation** rewrites the arena step by step. -/
theorem nodeWithin_rewrites (fuel n : Nat) (p q : Progress) (fragment : Fragment) (hp : Sound env p)
    (hn : n < p.draft.arena.size) (h : exec (nodeWithin env fuel n) p = (.ok fragment, q)) :
    p.draft.arena.Rewrites q.draft.arena :=
  (nodeWithin_proceeds fuel (fun _ => True) n p q fragment hp hn (fun _ _ _ => trivial) h).rewrites

/-- The visibility of a scan. -/
theorem Sees.rewrites {fuel : Nat} {link : Link} {post : Option Fragment} (hp : Sound env p)
    (h : Sees env (nodeWithin env fuel) n link p post q) : p.draft.arena.Rewrites q.draft.arena := by
  cases h with
  | unrestricted _ hlooked => rw [hlooked.arena_eq]
  | restricted scope filter s t hlooked hscope hwithin hexec =>
    have hs := (hlooked.evolves hp).sound
    obtain ⟨root, -, hfirst⟩ := (find?_eq_some_iff hs.ascending).mp hscope
    have hrewrites := nodeWithin_rewrites fuel scope { s with aggregating := false } t filter
      ⟨hs.ascending, hs.faithful⟩ (Query.Arena.lt_size_of_isParent hfirst.condition_eq) hexec
    rwa [← hlooked.arena_eq]

/-- Some nodes, compiled one after the other. -/
theorem compiledAll_rewrites {fuel : Nat} (ids : List NodeId) {fragments : List Fragment}
    (hp : Sound env p) (hids : ∀ c ∈ ids, (c : Nat) < p.draft.arena.size)
    (h : CompiledAll (nodeWithin env fuel) ids p fragments q) :
    p.draft.arena.Rewrites q.draft.arena :=
  (compiledAll_proceeds (nodeWithin_proceeds fuel) ids hp
    (fun c hc => ⟨hids c hc, fun _ _ _ => trivial⟩) h).rewrites

/-- A stack that was computed in advance. -/
theorem stack_rewrites {fuel : Nat} {primary target : Link} {arena : Arena} (harena : arena.Ascending)
    (depth m : Nat) (hm : m < arena.size) (hdepth : arena.size ≤ depth + m) (hp : Sound env p)
    (hprimary : primary = p.metadata.primary) (hadvanced : arena.Advanced p.draft.arena)
    (h : exec ((arena.expansionsWithin depth m).reverse.forM
      (resolve env (nodeWithin env fuel) primary target)) p = (.ok (), q)) :
    p.draft.arena.Rewrites q.draft.arena ∧ q.draft.arena.Bare m := by
  obtain ⟨hproceeds, hbare⟩ := stack_proceeds (nodeWithin_proceeds fuel)
    harena depth m hm hdepth (fun _ _ _ => trivial) p q hp hprimary hadvanced h
  exact ⟨hproceeds.rewrites, hbare⟩

/-- Stacks below some nodes that were computed in advance. -/
theorem stacks_rewrites {fuel : Nat} {primary target : Link} {arena : Arena}
    (harena : arena.Ascending) {depth : Nat} (ids : List NodeId)
    (hids : ∀ c ∈ ids, (c : Nat) < arena.size ∧ arena.size ≤ depth + c) (hp : Sound env p)
    (hprimary : primary = p.metadata.primary) (hadvanced : arena.Advanced p.draft.arena)
    (h : exec ((ids.flatMap (arena.expansionsWithin depth)).reverse.forM
      (resolve env (nodeWithin env fuel) primary target)) p = (.ok (), q)) :
    p.draft.arena.Rewrites q.draft.arena :=
  (stacks_proceeds harena ids hids (fun c hc => stack_proceeds (nodeWithin_proceeds fuel) harena depth c
    (hids c hc).1 (hids c hc).2) (fun _ _ _ _ _ => trivial) hp hprimary hadvanced h).1.rewrites

/-- A compiled expansion. -/
theorem Expanded.rewrites {fuel : Nat} (hp : Sound env p) {fragment : Fragment}
    (h : Expanded env (nodeWithin env fuel) n p fragment q) :
    ∃ s, Evolves env p s ∧ p.draft.arena.Rewrites s.draft.arena ∧ s.draft.arena.Settled n ∧
      s.draft.arena.Bare n ∧ exec (nodeWithin env fuel n) s = (.ok fragment, q) ∧
      s.draft.arena.Rewrites q.draft.arena := by
  obtain ⟨s, hps, hfirst, hsettled, hbare, hexec, hlast⟩ :=
    h.proceeds (nodeWithin_proceeds fuel) hp fun _ _ _ => trivial
  exact ⟨s, hps, hfirst.rewrites, hsettled, hbare, hexec, hlast.rewrites⟩

end Compile

end LinkedSearch
