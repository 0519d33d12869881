import LinkedSearch.Proofs.Events
import LinkedSearch.Proofs.Framing
import LinkedSearch.Proofs.Rewriting

/-! # Computations that take a course

The compiler works on an arena and a course on trees. A computation below a node takes a course if the
arena holds at the node what the course says the query has become, the reports tell of its events, and
both succeed or fail together:

* `After`: a state that a course has led to.
* `Takes`: a computation that takes a course.
* `brings_joinValues`, `resolve_takes`: the resolution of one expansion. -/

namespace LinkedSearch

open Query (Arena Kind Label NodeId Tree)

namespace Query.Arena

variable {arena other : Arena} {n c : Nat}

/-- A forest of which one query is exchanged. -/
theorem HoldsAll.exchange {ids : List NodeId} {trees : List Tree} {tree : Tree} {i : Nat}
    (h : arena.HoldsAll ids trees) (hnodup : ids.Nodup) (hc : ids[i]? = some c)
    (htree : other.Holds c tree)
    (hothers : ∀ d ∈ ids, d ≠ c → ∀ tree, arena.Holds d tree → other.Holds d tree) :
    other.HoldsAll ids (trees.set i tree) := by
  induction trees generalizing ids i with
  | nil =>
    rw [holdsAll_nil.mp h] at hc
    exact absurd hc (by simp)
  | cons first rest ih =>
    obtain ⟨id, later, rfl, hfirst, hrest⟩ := holdsAll_cons.mp h
    obtain ⟨hnot, hnodup⟩ := List.nodup_cons.mp hnodup
    cases i with
    | zero =>
      obtain rfl := Option.some.inj hc
      refine HoldsAll.cons htree ?_
      have hkeep : ∀ {ids : List NodeId} {trees : List Tree}, arena.HoldsAll ids trees →
          (∀ d ∈ ids, d ≠ id ∧ ∀ tree, arena.Holds d tree → other.Holds d tree) →
          other.HoldsAll ids trees := by
        intro ids trees hall hkeep
        induction trees generalizing ids with
        | nil => exact holdsAll_nil.mpr (holdsAll_nil.mp hall)
        | cons tree rest ih =>
          obtain ⟨d, later, rfl, htree, hrest⟩ := holdsAll_cons.mp hall
          exact HoldsAll.cons ((hkeep d List.mem_cons_self).2 tree htree)
            (ih hrest fun d' hd' => hkeep d' (List.mem_cons_of_mem d hd'))
      refine hkeep hrest fun d hd => ?_
      have hne : d ≠ id := fun heq => hnot (heq ▸ hd)
      exact ⟨hne, hothers d (List.mem_cons_of_mem id hd) hne⟩
    | succ i =>
      have hmem : c ∈ later := List.mem_of_getElem? (by simpa using hc)
      refine HoldsAll.cons (hothers id List.mem_cons_self (fun heq => hnot (heq ▸ hmem)) _ hfirst) ?_
      exact ih hrest hnodup (by simpa using hc)
        fun d hd => hothers d (List.mem_cons_of_mem id hd)

end Query.Arena

/-- **Explanation** of a failure by the halt of a course. -/
def Stop.Explains (P : Error → Prop) (error : Error) : Stop → Prop
  | .refused => P error
  | .unanswered answer => error = answer

namespace Compile

/-- A report on an event below a node. -/
structure Reported (arena : Arena) (m : NodeId) (e : Event) (r : Report) : Prop where
  id_eq : arena.descend m e.path = some r.id
  scopeDepth_eq : r.scopeDepth = e.scopeDepth
  resolution_eq : r.resolution = e.resolution

/-- Reports on some events below a node, together with the scans among them. -/
structure Noted (m : NodeId) (events : List Event) (p q : Progress) : Prop where
  reported : ∃ reports, q.reports = p.reports ++ reports ∧
    List.Forall₂ (Reported p.draft.arena m) events reports
  scans_eq : q.scans = p.scans ++ requests events

/-- **After a course** below a node: the node holds what the query has become, expansions that are left
have their places, and every event is reported. -/
structure After (m : NodeId) (tree : Tree) (events : List Event) (p q : Progress) : Prop where
  framed : Arena.Framed m p.draft.arena q.draft.arena
  held : q.draft.arena.Holds m tree
  kept : ∀ path, tree.ExpansionAt path → q.draft.arena.descend m path = p.draft.arena.descend m path
  noted : Noted m events p q

variable {α β : Type} {env : Environment} {P : Error → Prop} {g p q s : Progress} {n m c fuel : Nat}
  {tree tree' : Tree} {events events' : List Event}

/-- What is related to the items of a list, one by one, is related to each of them. -/
theorem exists_of_forall₂ {R : α → β → Prop} {as : List α} {bs : List β} (h : List.Forall₂ R as bs)
    {a : α} (ha : a ∈ as) : ∃ b ∈ bs, R a b := by
  obtain ⟨hlength, hget⟩ := List.forall₂_iff_get.mp h
  obtain ⟨i, hi, rfl⟩ := List.getElem_of_mem ha
  exact ⟨bs[i], List.getElem_mem (hlength ▸ hi), hget i hi (hlength ▸ hi)⟩

namespace Noted

theorem nil (hreports : q.reports = p.reports) (hscans : q.scans = p.scans) : Noted m [] p q :=
  ⟨⟨[], by simp [hreports], .nil⟩, by simp [hscans]⟩

/-- Notes on events one after the other. -/
theorem trans (h : Noted m events p s) (h' : Noted m events' s q)
    (hplaces : ∀ e ∈ events', s.draft.arena.descend m e.path = p.draft.arena.descend m e.path) :
    Noted m (events ++ events') p q := by
  obtain ⟨⟨reports, hreports, hall⟩, hscans⟩ := h
  obtain ⟨⟨reports', hreports', hall'⟩, hscans'⟩ := h'
  refine ⟨⟨reports ++ reports', ?_, ?_⟩, ?_⟩
  · rw [hreports', hreports, List.append_assoc]
  · refine List.rel_append hall (((List.forall₂_and_left _ _).mpr ⟨hplaces, hall'⟩).imp ?_)
    rintro e r ⟨hplace, hr⟩
    exact ⟨hplace ▸ hr.id_eq, hr.scopeDepth_eq, hr.resolution_eq⟩
  · rw [hscans', hscans, requests_append, List.append_assoc]

/-- Notes on events below a child. -/
theorem under {i : Nat} (h : Noted c events p q) (hc : p.draft.arena.child? n i = some c) :
    Noted n (events.map (Event.under i)) p q := by
  obtain ⟨⟨reports, hreports, hall⟩, hscans⟩ := h
  refine ⟨⟨reports, hreports, List.forall₂_map_left_iff.mpr (hall.imp fun e r hr => ?_)⟩, ?_⟩
  · refine ⟨?_, hr.scopeDepth_eq, hr.resolution_eq⟩
    show p.draft.arena.descend n (i :: e.path) = _
    rw [Arena.descend_cons, hc]
    exact hr.id_eq
  · rw [hscans, requests_map_under]

/-- Every event is reported. -/
theorem exists_report {e : Event} (h : Noted m events p q) (he : e ∈ events) :
    ∃ r ∈ q.reports, Reported p.draft.arena m e r := by
  obtain ⟨⟨reports, hreports, hall⟩, -⟩ := h
  obtain ⟨r, hr, hreported⟩ := exists_of_forall₂ hall he
  exact ⟨r, hreports ▸ List.mem_append_right _ hr, hreported⟩

/-- Every new report is about one of the events. -/
theorem exists_event (h : Noted m events p q) {r : Report} (hr : r ∈ q.reports) :
    r ∈ p.reports ∨ ∃ e ∈ events, Reported p.draft.arena m e r := by
  obtain ⟨⟨reports, hreports, hall⟩, -⟩ := h
  rw [hreports] at hr
  exact (List.mem_append.mp hr).imp_right fun hr => exists_of_forall₂ hall.flip hr

/-- The last report is about the last event. -/
theorem concat {e : Event} (h : Noted m (events ++ [e]) p q) :
    ∃ reports r, q.reports = p.reports ++ (reports ++ [r]) ∧
      List.Forall₂ (Reported p.draft.arena m) events reports ∧ Reported p.draft.arena m e r := by
  obtain ⟨⟨reports, hreports, hall⟩, -⟩ := h
  rw [← List.forall₂_reverse_iff, List.reverse_append, List.reverse_singleton,
    List.singleton_append, List.forall₂_cons_left_iff] at hall
  obtain ⟨r, before, hr, hbefore, hreverse⟩ := hall
  refine ⟨before.reverse, r, ?_, ?_, hr⟩
  · rw [hreports, List.reverse_eq_cons_iff.mp hreverse]
  · rw [← List.forall₂_reverse_iff, List.reverse_reverse]
    exact hbefore

/-- The last report is about the last event. -/
theorem getLast_reports {e : Event} (h : Noted m (events ++ [e]) p q) :
    ∃ r, q.reports.getLast? = some r ∧ Reported p.draft.arena m e r := by
  obtain ⟨reports, r, hreports, -, hr⟩ := h.concat
  exact ⟨r, by rw [hreports, ← List.append_assoc, List.getLast?_concat], hr⟩

/-- The last scan is the one of the last event. -/
theorem getLast_scans {e : Event} (h : Noted m (events ++ [e]) p q) {request : ScanRequest}
    (hrequest : e.resolution = .scan request) : q.scans.getLast? = some request := by
  have hlast : requests [e] = [request] := by simp [requests, hrequest, Resolution.request?]
  rw [h.scans_eq, requests_append, hlast, ← List.append_assoc, List.getLast?_concat]

end Noted

namespace After

/-- The draft has not changed. -/
theorem of_draft (hdraft : q.draft = p.draft) (hheld : p.draft.arena.Holds m tree)
    (hnoted : Noted m events p q) : After m tree events p q where
  framed := hdraft ▸ .refl m _
  held := hdraft ▸ hheld
  kept := fun path _ => by rw [hdraft]
  noted := hnoted

/-- Nothing has happened at rest. -/
theorem rested (h : Rested env p q) (hheld : p.draft.arena.Holds m tree) : After m tree [] p q :=
  .of_draft h.draft_eq hheld (.nil h.reports_eq h.scans_eq)

/-- **Courses one after the other.** What is left by the second one was left by the first one, and so
was everything to which something is done in the second one. -/
theorem trans (h : After m tree events p s) (h' : After m tree' events' s q)
    (hremaining : ∀ path, tree'.ExpansionAt path → tree.ExpansionAt path)
    (hplaced : ∀ e ∈ events', tree.ExpansionAt e.path) :
    After m tree' (events ++ events') p q where
  framed := h.framed.trans h'.framed
  held := h'.held
  kept := fun path hpath => (h'.kept path hpath).trans (h.kept path (hremaining path hpath))
  noted := h.noted.trans h'.noted fun e he => h.kept e.path (hplaced e he)

/-- **A course below a child** is one below its parent. -/
theorem under {label : Label} {children : List Tree} {i : Nat} (h : After c tree events p q)
    (hasc : p.draft.arena.Ascending) (hheld : p.draft.arena.Holds n (.node label children))
    (hc : p.draft.arena.child? n i = some c) :
    After n (.node label (children.set i tree)) (events.map (Event.under i)) p q := by
  obtain ⟨hlabel, hchildren⟩ := Arena.holds_node.mp hheld
  have hmem := List.mem_of_getElem? hc
  have hsingle := Arena.FramedAll.single hasc hmem h.framed
  have hsame : ∀ d ∈ p.draft.arena.children n, d ≠ c → ∀ x, p.draft.arena.Below d x →
      q.draft.arena.slot? x = p.draft.arena.slot? x := fun d hd hne x hx =>
    (hsingle.apart d hd (by simpa using hne) x hx).2
  refine ⟨hsingle.framed, ?_, fun path hpath => ?_, h.noted.under hc⟩
  · refine Arena.holds_node.mpr ⟨(Arena.label_congr hsingle.slot_eq).trans hlabel, ?_⟩
    rw [hsingle.children_eq]
    refine hchildren.exchange (hasc.nodup_children n) hc h.held fun d hd hne tree htree => ?_
    exact htree.congr (fun x hx => Arena.label_congr (hsame d hd hne x hx))
      fun x hx => Arena.children_congr (hsame d hd hne x hx)
  · cases path with
    | nil => rfl
    | cons j path =>
      rw [Arena.descend_cons, Arena.descend_cons, Arena.child?, Arena.child?, hsingle.children_eq]
      cases hd : (p.draft.arena.children n)[j]? with
      | none => rfl
      | some d =>
        by_cases hne : d = c
        · subst hne
          have hij : j = i := (List.getElem?_inj (List.getElem?_eq_some_iff.mp hd).1
            (hasc.nodup_children n)).mp (hd.trans hc.symm)
          subst hij
          obtain ⟨sub, hsub, hkind⟩ := hpath
          rw [Tree.subtree?_cons] at hsub
          obtain ⟨own, hown, hsub⟩ := Option.bind_eq_some_iff.mp hsub
          have hset : own = tree := by
            have hlt : j < (children.set j tree).length := (List.getElem?_eq_some_iff.mp hown).1
            rw [List.length_set] at hlt
            rw [List.getElem?_set_self hlt] at hown
            exact (Option.some.inj hown).symm
          exact h.kept path ⟨sub, hset ▸ hsub, hkind⟩
        · exact Arena.descend_congr path fun x hx =>
            Arena.children_congr (hsame d (List.mem_of_getElem? hd) hne x hx)

end After

/-- **Taking a course**: the computation succeeds or fails as the course does, and leaves behind the
state that the course leads to. -/
def Takes (env : Environment) (P : Error → Prop) (x : Compile α) (m : NodeId) (course : Course Tree α)
    (p : Progress) : Prop :=
  wp x (fun a q => course.outcome = .ok a ∧ Evolves env p q ∧ After m course.state course.events p q)
    (fun error q => ∃ stop, course.outcome = .error stop ∧ stop.Explains P error ∧ Evolves env p q ∧
      After m course.state course.events p q) p

/-- Ending as a course does, in the state that the course leads to. -/
def Ends (P : Error → Prop) (x : Compile α) (m : NodeId) (course : Course Tree α) (p : Progress) :
    Prop :=
  wp x (fun a q => course.outcome = .ok a ∧ After m course.state course.events p q)
    (fun error q => ∃ stop, course.outcome = .error stop ∧ stop.Explains P error ∧
      After m course.state course.events p q) p

/-- A computation that lets the state evolve takes the course in this way. -/
theorem Ends.takes {x : Compile α} {course : Course Tree α} {Q : α → Progress → Prop}
    (h : Ends P x m course p) (hsteps : Leads env x Q p) : Takes env P x m course p := by
  refine wp_mono (wp_and h hsteps) ?_ ?_
  · rintro a q ⟨⟨hok, hafter⟩, hpq, -⟩
    exact ⟨hok, hpq, hafter⟩
  · rintro error q ⟨⟨stop, hstop, hexplains, hafter⟩, hpq⟩
    exact ⟨stop, hstop, hexplains, hpq, hafter⟩

/-- A course within a query leaves no other expansions, and has no events at other places. -/
structure Within (course : Course Tree α) (tree : Tree) : Prop where
  remaining : ∀ path, course.state.ExpansionAt path → tree.ExpansionAt path
  placed : ∀ e ∈ course.events, tree.ExpansionAt e.path

namespace Takes

/-- **Sequences** take the course of their first part, and if that succeeds then that of the second. -/
theorem bind {x : Compile β} {f : β → Compile α} {course : Course Tree β} {whole : Course Tree α}
    (hx : Takes env P x m course p)
    (hstop : ∀ stop, course.outcome = .error stop →
      whole = ⟨course.state, course.events, .error stop⟩)
    (hnext : ∀ b q, exec x p = (.ok b, q) → course.outcome = .ok b → Evolves env p q →
      After m course.state course.events p q → ∃ later : Course Tree α,
        whole = ⟨later.state, course.events ++ later.events, later.outcome⟩ ∧
          Within later course.state ∧ Takes env P (f b) m later q) :
    Takes env P (x >>= f) m whole p := by
  unfold Takes
  rw [wp_bind]
  refine wp_mono (wp_and hx (wp_exec x p)) ?_ ?_
  · rintro b s ⟨⟨hok, hps, hafter⟩, hexec⟩
    obtain ⟨later, rfl, hwithin, hf⟩ := hnext b s hexec hok hps hafter
    refine wp_mono hf ?_ ?_
    · rintro a q ⟨hok', hsq, hafter'⟩
      exact ⟨hok', hps.trans hsq, hafter.trans hafter' hwithin.remaining hwithin.placed⟩
    · rintro error q ⟨stop, hstop', hexplains, hsq, hafter'⟩
      exact ⟨stop, hstop', hexplains, hps.trans hsq,
        hafter.trans hafter' hwithin.remaining hwithin.placed⟩
  · rintro error q ⟨⟨stop, herror, hexplains, hpq, hafter⟩, -⟩
    rw [hstop stop herror]
    exact ⟨stop, rfl, hexplains, hpq, hafter⟩

/-- A course below a child. -/
theorem under {x : Compile α} {course : Course Tree α} {label : Label} {children : List Tree} {i : Nat}
    (h : Takes env P x c course p) (hasc : p.draft.arena.Ascending)
    (hheld : p.draft.arena.Holds n (.node label children))
    (hc : p.draft.arena.child? n i = some c) :
    Takes env P x n (course.map (fun tree => .node label (children.set i tree)) (Event.under i) id)
      p := by
  refine wp_mono h ?_ ?_
  · rintro a q ⟨hok, hpq, hafter⟩
    refine ⟨?_, hpq, hafter.under hasc hheld hc⟩
    rw [Course.map, hok]
    rfl
  · rintro error q ⟨stop, herror, hexplains, hpq, hafter⟩
    refine ⟨stop, ?_, hexplains, hpq, hafter.under hasc hheld hc⟩
    rw [Course.map, herror]
    rfl

/-- Another value. -/
theorem map {x : Compile α} {course : Course Tree α} (f : α → β) (h : Takes env P x m course p) :
    Takes env P (x >>= fun a => pure (f a)) m (course.map id id f) p := by
  unfold Takes
  rw [wp_bind]
  refine wp_mono h ?_ ?_
  · rintro a q ⟨hok, hpq, hafter⟩
    refine ⟨?_, hpq, ?_⟩
    · rw [Course.map, hok]
      rfl
    · rwa [Course.map, List.map_id]
  · rintro error q ⟨stop, herror, hexplains, hpq, hafter⟩
    refine ⟨stop, ?_, hexplains, hpq, ?_⟩
    · rw [Course.map, herror]
      rfl
    · rwa [Course.map, List.map_id]

end Takes

/-! ## Join values -/

/-- **A lookup on the way**: if it fails, the resolver has reported it, and otherwise the computation goes on
with the answer in a state that has only been looked from. -/
theorem wp_lookup {x : Compile β} {f : β → Compile α} {answer : Except Error β}
    {Q : α → Progress → Prop} {E : Error → Progress → Prop}
    (hx : ∃ q, exec x s = (answer, q) ∧ Looked env s q) (hblames : Blames env P x)
    (herror : ∀ error q, answer = .error error → P error → Looked env s q → E error q)
    (hok : ∀ b q, answer = .ok b → Looked env s q → wp (f b) Q E q) : wp (x >>= f) Q E s := by
  obtain ⟨q, hexec, hlooked⟩ := hx
  rw [wp_bind]
  cases answer with
  | error error =>
    exact (wp_of_error hexec).mpr (herror error q rfl (hblames.reported hexec hlooked.scans_eq) hlooked)
  | ok b => exact (wp_of_ok hexec).mpr (hok b q rfl hlooked)

theorem wp_report {Q : Unit → Progress → Prop} {E : Error → Progress → Prop} {link : Link}
    {query : Tree} {resolution : Resolution} : wp (report n link query resolution) Q E p ↔
      Q () { p with reports := p.reports ++ [reportOn p n link query resolution] } := Iff.rfl

/-- A report on an expansion notes what is done to it. -/
theorem Noted.report (h : Stands env g s) (hreports : s.reports = p.reports)
    (hscans : s.scans = p.scans) {link : Link} {query : Tree} {resolution : Resolution}
    (hreported : q.reports = s.reports ++ [reportOn s n link query resolution])
    (hrequested : q.scans = s.scans ++ resolution.request?.toList) :
    Noted n [event g resolution] p q := by
  refine ⟨⟨[reportOn s n link query resolution], hreports ▸ hreported, .cons ?_ .nil⟩, ?_⟩
  · exact ⟨rfl, h.repeats.peers.scopeDepth_eq, rfl⟩
  · rw [hrequested, hscans]
    cases hrequest : resolution.request? <;> simp [requests, event, hrequest]

/-- Looking things up leaves nothing to note. -/
theorem Looked.noted (h : Looked env p q) : Noted m [] p q := by
  obtain ⟨md, -, rfl⟩ := h
  exact .nil rfl rfl

/-- Nothing is seen through a parent scope where there is none. -/
theorem exec_visibility {recur : NodeId → Compile Fragment} {link : Link} {linked : Schema.Mapping}
    (hp : Sound env p) (hlinked : env.resolver.mapping link.index = .ok linked)
    (hparentless : ∀ i, (p.draft.arena.label i).kind.isParent = false) :
    ∃ q, exec (visibility env recur n link) p = (.ok none, q) ∧ Looked env p q := by
  obtain ⟨q, hexec, hlooked⟩ := exec_mapping hp link.index
  rw [hlinked] at hexec
  refine ⟨q, ?_, hlooked⟩
  have hnone : q.draft.find? (·.kind.isParent) = none := by
    rw [hlooked.draft_eq, Query.Draft.find?, Option.bind_eq_none_iff]
    exact fun root _ => List.find?_eq_none.mpr fun i _ => by simp [hparentless i]
  unfold visibility
  rw [exec_bind, hexec]
  show exec (if linked.alwaysVisible then _ else _) q = _
  split
  · rfl
  · rw [exec_get_bind]
    simp only [hnone]
    rfl

/-- A query is compiled for a scan as it is outside of aggregates. -/
theorem scanQuery_compiled (hP : env.Reports P) (hexpansion : ∀ kind, P (.notAnExpansion kind))
    (h : Stands env g p) (hc : c < p.draft.arena.size) (hheld : p.draft.arena.Holds c tree)
    (hbare : tree.IsBare) (hbound : tree.size ≤ fuel) :
    wp (scanQuery (nodeWithin env fuel) c)
      (fun F q => compiled? env { g with aggregating := false } tree = some F ∧ Evolves env p q ∧
        Rested env p q)
      (fun error q => compiled? env { g with aggregating := false } tree = none ∧ P error ∧
        Rested env p q) p := by
  have hcompiled : wp (scanQuery (nodeWithin env fuel) c)
      (fun F q => compiled? env { g with aggregating := false } tree = some F ∧ Rested env p q)
      (fun error q => compiled? env { g with aggregating := false } tree = none ∧ P error ∧
        Rested env p q) p := by
    unfold scanQuery
    rw [wp_bind, wp_get, wp_within]
    refine wp_mono (nodeWithin_compiled hc hheld hbound (h.aggregate false) hP hexpansion (.inl hbare)) ?_ ?_
    · rintro F q ⟨hF, -, hq⟩
      exact ⟨hF, ⟨hq.sound.ascending, hq.sound.faithful⟩, hq.draft_eq, hq.scans_eq, hq.reports_eq⟩
    · rintro error q ⟨hF, herror, -, hq⟩
      exact ⟨hF, herror, ⟨hq.sound.ascending, hq.sound.faithful⟩, hq.draft_eq, hq.scans_eq,
        hq.reports_eq⟩
  refine wp_mono (wp_and hcompiled (leads_scanQuery fuel (nodeWithin_steps fuel) h.sound c)) ?_ ?_
  · rintro F q ⟨⟨hF, hrested⟩, hevolves, -⟩
    exact ⟨hF, hevolves, hrested⟩
  · rintro error q ⟨h, -⟩
    exact h

/-- **Pushing values**: a computation started in `s` that takes the course of a join, and pushes a node
for its values. -/
def Pushes (P : Error → Prop) (x : Compile NodeId) (n : NodeId)
    (course : Course Unit Label) (p s : Progress) : Prop :=
  wp x
    (fun v q => ∃ values, course.outcome = .ok values ∧ v = p.draft.arena.size ∧
      q.draft = { p.draft with arena := (p.draft.arena.push values).1 } ∧ Noted n course.events p q)
    (fun error q => ∃ stop, course.outcome = .error stop ∧ stop.Explains P error ∧
      q.draft = p.draft ∧ Noted n course.events p q) s

namespace Pushes

/-- A lookup that fails refuses the course: nothing is pushed, and nothing has happened. -/
theorem lookup {x : Compile β} {f : β → Compile NodeId} {answer : Except Error β}
    {course : Course Unit Label} (hs : Sound env s) (hrested : Rested env p s)
    (hx : ∃ q, exec x s = (answer, q) ∧ Looked env s q) (hblames : Blames env P x)
    (hrefused : ∀ error, answer = .error error → course = .halt () .refused)
    (hf : ∀ b q, answer = .ok b → Evolves env s q → Rested env p q → Pushes P (f b) n course p q) :
    Pushes P (x >>= f) n course p s := by
  refine wp_lookup hx hblames (fun error q hanswer herror hlooked => ?_) fun b q hanswer hlooked =>
    hf b q hanswer (hlooked.evolves hs) (hrested.trans (hlooked.rested hs))
  rw [hrefused error hanswer]
  have hall := hrested.trans (hlooked.rested hs)
  exact ⟨.refused, rfl, herror, hall.draft_eq, .nil hall.reports_eq hall.scans_eq⟩

/-- The first part of a computation changes nothing. -/
theorem bind {x : Compile β} {b : β} {f : β → Compile NodeId} {course : Course Unit Label}
    (hexec : exec x s = (.ok b, q)) (hf : Pushes P (f b) n course p q) :
    Pushes P (x >>= f) n course p s := by
  unfold Pushes
  rwa [wp_bind, wp_of_ok hexec]

variable {link : Link} {left right : String} {query : Tree}

/-- All keys. -/
theorem keys (h : Stands env g s) (hrested : Rested env p s) :
    Pushes P (do
      report n link query .keys
      push { kind := .notNull, field := some left }) n
      (supply env.executor.answers g p.scans left (some .keys)) p s := by
  unfold Pushes
  rw [wp_bind, wp_report, wp_push]
  refine ⟨_, rfl, by rw [hrested.draft_eq], by rw [hrested.draft_eq], ?_⟩
  exact .report h hrested.reports_eq hrested.scans_eq rfl (by simp [Resolution.request?])

/-- The values of a scan. -/
theorem scan (request : ScanRequest) (h : Stands env g s) (hrested : Rested env p s) :
    Pushes P (do
      report n link query (.scan request)
      let (values, hits) ← Compile.scan env request
      push { kind := .array (.external values hits) false, field := some left }) n
      (supply env.executor.answers g p.scans left (some (.scan request))) p s := by
  have hnoted : ∀ q : Progress, q.reports = s.reports ++ [reportOn s n link query (.scan request)] →
      q.scans = s.scans ++ [request] → Noted n [event g (.scan request)] p q := fun q hr hs =>
    .report h hrested.reports_eq hrested.scans_eq hr hs
  unfold Pushes
  rw [wp_bind, wp_report, wp_bind, ← hrested.scans_eq]
  simp only [Compile.scan, wp_bind, wp_get, wp_modify, wp_ofExcept, Executor.answers, supply]
  cases (env.executor.run s.scans request).outcome with
  | error error => exact ⟨.unanswered error, rfl, rfl, hrested.draft_eq, hnoted _ rfl rfl⟩
  | ok found =>
    simp only [wp_push]
    exact ⟨valuesLabel left found.1 found.2, rfl, by rw [hrested.draft_eq],
      by rw [hrested.draft_eq]; rfl, hnoted _ rfl rfl⟩

end Pushes

section Resolution

variable (hP : env.Reports P) (hexpansion : ∀ kind, P (.notAnExpansion kind))
  {link : Link} {left right : String}

include hP hexpansion

/-- The values of a scan for the query of an expansion. -/
theorem pushes_scanned (hs : Stands env g s) (hrested : Rested env p s) {linked : Schema.Mapping}
    (hlinked : env.resolver.mapping link.index = .ok linked) {query told : Tree}
    (hc : c < p.draft.arena.size) (hquery : p.draft.arena.Holds c query) (hbare : query.IsBare)
    (hbound : query.size ≤ fuel) :
    Pushes P (do
      let filter ← scanQuery (nodeWithin env fuel) c
      let postFilter ← visibility env (nodeWithin env fuel) n link
      let request := scanRequest env link.index right filter postFilter
      report n link told (.scan request)
      let (values, hits) ← Compile.scan env request
      push { kind := .array (.external values hits) false, field := some left }) n
      (supply env.executor.answers g p.scans left ((compiled? env { g with aggregating := false }
        query).map fun filter => .scan (scanRequest env link.index right filter none))) p s := by
  rw [← hrested.draft_eq] at hc hquery
  unfold Pushes
  rw [wp_bind]
  refine wp_mono (scanQuery_compiled hP hexpansion hs hc hquery hbare hbound) ?_ ?_
  · rintro F t ⟨hF, hst, hrested'⟩
    rw [hF]
    have ht := hs.evolve hst
    obtain ⟨u, hexec, hlooked⟩ : ∃ u, exec (visibility env (nodeWithin env fuel) n link) t =
        (.ok none, u) ∧ Looked env t u := exec_visibility hst.sound hlinked ht.parentless
    rw [wp_bind, wp_of_ok hexec]
    exact Pushes.scan _ (ht.evolve (hlooked.evolves hst.sound))
      ((hrested.trans hrested').trans (hlooked.rested hst.sound))
  · rintro error t ⟨hF, herror, hrested'⟩
    rw [hF]
    have hall := hrested.trans hrested'
    exact ⟨.refused, rfl, herror, hall.draft_eq, .nil hall.reports_eq hall.scans_eq⟩

/-- **Join values** take the course of a join. -/
theorem pushes_joinValues (hs : Stands env g s) (hrested : Rested env p s) {label : Label}
    {query : Tree} {rest : List Tree}
    (hheld : p.draft.arena.Holds n (.node label (query :: rest))) (hbare : query.IsBare)
    (hbound : query.size ≤ fuel) :
    Pushes P (joinValues env (nodeWithin env fuel) n link left right) n
      (join env env.executor.answers g p.scans link left right query) p s := by
  obtain ⟨c, later, hchildren, hquery, -⟩ := Arena.holdsAll_cons.mp (Arena.holds_node.mp hheld).2
  have hc : s.draft.arena.child? n 0 = some c := by
    rw [hrested.draft_eq, Arena.child?, hchildren]
    rfl
  have hclt := hs.sound.ascending.child_lt n c (List.mem_of_getElem? hc)
  rw [hrested.draft_eq] at hclt
  unfold joinValues join demand?
  refine Pushes.bind (exec_queryOf hc) ?_
  refine Pushes.bind (b := s.draft.arena.label c) rfl (Pushes.bind (b := s.draft.arena) rfl ?_)
  -- three lookups come before the demand, each of which may be refused
  refine Pushes.lookup hs.sound hrested (exec_mapping hs.sound link.index) (mapping_blames hP _)
    (fun error hlinked => by rw [hlinked]; rfl) fun linked p₁ hlinked e₁ r₁ => ?_
  have hs₁ := hs.evolve e₁
  refine Pushes.lookup hs₁.sound r₁ (hs₁.exec_mappingOf left) (mappingOf_blames hP left)
    (fun error hleft => by rw [hlinked, hleft]; rfl) fun leftOwner p₂ hleft e₂ r₂ => ?_
  have hs₂ := hs₁.evolve e₂
  refine Pushes.lookup hs₂.sound r₂ (hs₂.exec_mappingOf right) (mappingOf_blames hP right)
    (fun error hright => by rw [hlinked, hleft, hright]; rfl) fun rightOwner p₃ hright e₃ r₃ => ?_
  have hs₃ := hs₂.evolve e₃
  rw [hlinked, hleft, hright, hrested.draft_eq, hquery.label_eq]
  simp only [Except.toOption, Option.bind_eq_bind, Option.bind_some]
  split
  · exact .keys hs₃ r₃
  · exact pushes_scanned hP hexpansion hs₃ r₃ hlinked hclt hquery hbare hbound

end Resolution

/-! ## Resolution -/

/-- **Bringing a replacement**: a computation started in `s` that finds what takes the place of an
expansion as a course says. -/
def Brings (P : Error → Prop) (x : Compile NodeId) (n : NodeId) (boost : Boost)
    (course : Course Tree Unit) (p s : Progress) : Prop :=
  wp x
    (fun v q => course.outcome = .ok () ∧ After n course.state course.events p
      (q.withArena (substituted q.draft.arena n v boost)))
    (fun error q => ∃ stop, course.outcome = .error stop ∧ stop.Explains P error ∧
      After n course.state course.events p q) s

/-- Notes are about reports and scans. -/
theorem Noted.congr (h : Noted n events p s) (hreports : q.reports = s.reports)
    (hscans : q.scans = s.scans) : Noted n events p q :=
  ⟨hreports ▸ h.reported, hscans.trans h.scans_eq⟩

section Placing

variable {label values : Label}

/-- A node that was pushed in vain. -/
theorem After.pushed (hasc : p.draft.arena.Ascending) (hn : n < p.draft.arena.size)
    (hheld : p.draft.arena.Holds n tree) (hnoted : Noted n events p q)
    (hdraft : q.draft = { p.draft with arena := (p.draft.arena.push values).1 }) :
    After n tree events p q where
  framed := by rw [hdraft]; exact .push n _ values
  held := by rw [hdraft]; exact hasc.holds_push values hn hheld
  kept := fun path _ => by
    rw [hdraft]
    exact Arena.descend_congr path fun x _ => Arena.children_push values x
  noted := hnoted

/-- **A node for join values** in the place of the expansion. -/
theorem After.leaf (hp : Sound env p) (hn : n < p.draft.arena.size)
    (hvalues : values.kind.isExpansion = false) (hnoted : Noted n events p q)
    (hdraft : q.draft = { p.draft with arena := (p.draft.arena.push values).1 }) :
    After n (leafOf label values) events p
      (q.withArena (substituted q.draft.arena n p.draft.arena.size label.boost)) := by
  have hfresh : Fresh { p with draft := q.draft } n p.draft.arena.size :=
    fresh_push hp hn values hdraft
  have hsound : Sound env { p with draft := q.draft } := by
    refine ⟨?_, hp.faithful⟩
    show q.draft.arena.Ascending
    rw [hdraft]
    exact hp.ascending.push values
  have hlt : n < q.draft.arena.size := by
    rw [hdraft]
    show n < (p.draft.arena.push values).1.size
    rw [Arena.size_push]
    omega
  have hlabel : q.draft.arena.label p.draft.arena.size = values := by
    rw [hdraft]
    exact Arena.label_push_size values
  have hpushed : Arena.Framed n p.draft.arena q.draft.arena := by
    rw [hdraft]
    exact .push n _ values
  refine ⟨?_, ?_, ?_, hnoted.congr rfl rfl⟩
  · exact hpushed.trans (substituted_framed hsound hlt (.inr hfresh) label.boost)
  · have hheld := hsound.ascending.holds_substituted_leaf hlt hfresh.lt_size (Nat.ne_of_lt hn)
      hfresh.slot_eq label.boost
    rwa [hlabel] at hheld
  · exact fun path hpath => absurd hpath ((leafOf_spec label hvalues).1.not_expansionAt path)

/-- **Values** in the place of the expansion, if there are any. -/
theorem Pushes.brings (label : Label) {x : Compile NodeId} {course : Course Unit Label}
    (hp : Sound env p)
    (hn : n < p.draft.arena.size) (hheld : p.draft.arena.Holds n tree)
    (hvalues : ∀ values, course.outcome = .ok values → values.kind.isExpansion = false)
    (h : Pushes P x n course p s) :
    Brings P x n label.boost
      (course.seq (fun _ => tree) fun _ values _ => .done (leafOf label values) ()) p s := by
  refine wp_mono h ?_ ?_
  · rintro v q ⟨values, hok, rfl, hdraft, hnoted⟩
    rw [Course.seq_of_ok hok]
    refine ⟨rfl, After.leaf hp hn (hvalues values hok) ?_ hdraft⟩
    rwa [Course.done, List.append_nil]
  · rintro error q ⟨stop, hstop, hexplains, hdraft, hnoted⟩
    rw [Course.seq_of_error hstop]
    exact ⟨stop, rfl, hexplains, .of_draft hdraft hheld hnoted⟩

/-- **A new query** for the expansion. -/
theorem After.requeried {query : Tree} {rest : List Tree} (hasc : p.draft.arena.Ascending)
    (hheld : p.draft.arena.Holds n (.node label (query :: rest)))
    (hvalues : values.kind.isExpansion = false) (hnoted : Noted n events p q)
    (hdraft : q.draft = { p.draft with
      arena := (p.draft.arena.push values).1.setChild n 0 p.draft.arena.size }) :
    After n (.node label (.node values [] :: rest)) events p q := by
  obtain ⟨c, later, hchildren, -, -⟩ := Arena.holdsAll_cons.mp (Arena.holds_node.mp hheld).2
  have hmem : c ∈ p.draft.arena.children n := by simp [hchildren]
  have hn := Arena.lt_size_of_mem_children hmem
  have hedges := fun i => Arena.children_setChild (p.draft.arena.push values).1 n 0
    p.draft.arena.size i (by rw [Arena.size_push]; omega)
  refine ⟨?_, ?_, fun path hpath => ?_, hnoted⟩
  · rw [hdraft]
    exact Arena.Framed.push_setChild 0 values hn
  · rw [hdraft]
    exact hasc.holds_requeried values hheld
  · rw [hdraft]
    rcases Tree.expansionAt_requeried hvalues hpath with rfl | ⟨i, path, rfl⟩
    · rfl
    · show ((p.draft.arena.push values).1.setChild n 0 p.draft.arena.size).descend n _ = _
      rw [Arena.descend_cons, Arena.descend_cons, Arena.child?, Arena.child?, hedges, if_pos rfl,
        Arena.children_push, hchildren, if_pos (by simp), List.set_cons_zero,
        List.getElem?_cons_succ, List.getElem?_cons_succ]
      cases hd : later[i]? with
      | none => rfl
      | some d =>
        refine Arena.descend_congr path fun x hx => ?_
        have hlt := hasc.lt_child n d (by simp [hchildren, List.mem_of_getElem? hd])
        have hle := hasc.le_of_below hx
        rw [hedges, if_neg (Nat.ne_of_gt (Nat.lt_of_lt_of_le hlt hle)), Arena.children_push]

end Placing

/-- A replacement after another course. -/
theorem Brings.after {x : Compile NodeId} {boost : Boost} {course : Course Tree Unit}
    (h : Brings P x n boost course s s) (hafter : After n tree events p s)
    (hwithin : Within course tree) :
    Brings P x n boost ⟨course.state, events ++ course.events, course.outcome⟩ p s := by
  refine wp_mono h ?_ ?_
  · rintro v q ⟨hok, hafter'⟩
    exact ⟨hok, hafter.trans hafter' hwithin.remaining hwithin.placed⟩
  · rintro error q ⟨stop, hstop, hexplains, hafter'⟩
    exact ⟨stop, hstop, hexplains, hafter.trans hafter' hwithin.remaining hwithin.placed⟩

/-- Values in the place of an expansion are no expansion, and nothing is done to any other one. -/
theorem within_values {course : Course Unit Label} (hown : OwnEvents g course.events)
    (hvalues : ∀ values, course.outcome = .ok values → values.kind.isExpansion = false)
    {label : Label} (hkind : label.kind.isExpansion = true) (children : List Tree) :
    Within (course.seq (fun _ => .node label children) fun _ values _ =>
      .done (leafOf label values) ()) (.node label children) := by
  have hroot : ∀ e ∈ course.events, (Query.Tree.node label children).ExpansionAt e.path := by
    intro e he
    obtain ⟨resolution, rfl⟩ := hown e he
    exact ⟨_, rfl, hkind⟩
  cases houtcome : course.outcome with
  | error stop =>
    rw [Course.seq_of_error houtcome]
    exact ⟨fun _ h => h, hroot⟩
  | ok values =>
    rw [Course.seq_of_ok houtcome]
    refine ⟨fun path h => absurd h ?_, fun e he => hroot e (by simpa [Course.done] using he)⟩
    exact (leafOf_spec label (hvalues values houtcome)).1.not_expansionAt path

/-- No more is done where the key is looked up before. -/
theorem within_keys {linked? : Except Error Schema.Mapping} {course : Schema.Mapping → Course Unit Label}
    (hown : ∀ linked, OwnEvents g (course linked).events)
    (hvalues : ∀ linked values, (course linked).outcome = .ok values → values.kind.isExpansion = false)
    {label : Label} (hkind : label.kind.isExpansion = true) (children : List Tree) :
    Within (match linked? with
      | .error _ => .halt (.node label children) .refused
      | .ok linked => (course linked).seq (fun _ => .node label children) fun _ values _ =>
          .done (leafOf label values) ()) (.node label children) := by
  cases linked? with
  | error error => exact ⟨fun _ h => h, fun e he => absurd he (by simp [Course.halt])⟩
  | ok linked => exact within_values (hown linked) (hvalues linked) hkind children

/-- The query of an expansion that is apart does not take its place. -/
theorem Apart.not_inlined {target link : Link} (h : Apart env target link) {path : List String}
    {fields : String × String × Bool} (hpath : env.resolver.joinPath target link = .ok path)
    (hfields : env.resolver.joinFields path = .ok fields) (used : List Link) :
    ¬(fields.2.2 && used.length == 1 && env.settings.allowSingleIndex) = true := by
  intro hall
  simp only [Bool.and_eq_true] at hall
  rw [h hall.2 path fields hpath hfields] at hall
  exact absurd hall.1.1 (by simp)

section Resolving

variable (hP : env.Reports P) (hexpansion : ∀ kind, P (.notAnExpansion kind)) (h : Stands env g p)
  {label : Label} {link target : Link} {query : Tree} {rest : List Tree}
  (hheld : p.draft.arena.Holds n (.node label (query :: rest))) (hbare : query.IsBare)
  (hbound : query.size ≤ fuel)

include hP hexpansion h hheld hbare hbound

/-- Join values in the place of an expansion. -/
theorem brings_joinValues {left right : String} (hlooked : Looked env p s) :
    Brings P (joinValues env (nodeWithin env fuel) n link left right) n label.boost
      ((join env env.executor.answers g p.scans link left right query).seq
        (fun _ => .node label (query :: rest)) fun _ values _ => .done (leafOf label values) ()) p s := by
  obtain ⟨c, later, hchildren, -, -⟩ := Arena.holdsAll_cons.mp (Arena.holds_node.mp hheld).2
  have hmem : c ∈ p.draft.arena.children n := by simp [hchildren]
  exact (pushes_joinValues hP hexpansion (h.evolve (hlooked.evolves h.sound))
    (hlooked.rested h.sound) hheld hbare hbound).brings label h.sound
    (Arena.lt_size_of_mem_children hmem) hheld fun _ => join_label

/-- The replacement of an expansion over a join path, which is never its query. -/
theorem brings_resolveLink (hapart : Apart env target link) :
    Brings P (resolveLink env (nodeWithin env fuel) n link target) n label.boost
      (match joinEnds? env target link with
        | none => .halt (.node label (query :: rest)) .refused
        | some (left, right) =>
          (join env env.executor.answers g p.scans link left right query).seq
            (fun _ => .node label (query :: rest)) fun _ values _ => .done (leafOf label values) ())
      p p := by
  unfold resolveLink joinEnds? Brings
  rw [wp_bind, wp_ofExcept]
  cases hpath : env.resolver.joinPath target link with
  | error error =>
    exact ⟨.refused, rfl, hP.joinPath _ _ _ hpath, .rested (.refl h.sound) hheld⟩
  | ok path =>
    simp only [Except.toOption, Option.bind_eq_bind, Option.bind_some]
    refine wp_lookup (exec_joinFields h.sound path) (joinFields_blames hP path) ?_ ?_
    · intro error s hfields herror hlooked
      rw [hfields]
      exact ⟨.refused, rfl, herror, .rested (hlooked.rested h.sound) hheld⟩
    · rintro ⟨left, right, oneToOne⟩ s hfields hlooked
      rw [wp_bind, wp_get, hfields]
      simp only [Option.pure_def, Option.bind_some]
      rw [if_neg (hapart.not_inlined hpath hfields _)]
      exact brings_joinValues hP hexpansion h hheld hbare hbound hlooked

/-- Values of the key of the linked index in the place of an expansion. -/
theorem brings_joinKeys {left : String} :
    Brings P (mapping env link.index >>= fun linked =>
        joinValues env (nodeWithin env fuel) n link left linked.primaryKey) n label.boost
      (match env.resolver.mapping link.index with
        | .error _ => .halt (.node label (query :: rest)) .refused
        | .ok linked => (join env env.executor.answers g p.scans link left linked.primaryKey query).seq
            (fun _ => .node label (query :: rest)) fun _ keys _ => .done (leafOf label keys) ()) p p := by
  refine wp_lookup (exec_mapping h.sound link.index) (mapping_blames hP _) ?_ ?_
  · intro error q hlinked herror hlooked
    rw [hlinked]
    exact ⟨.refused, rfl, herror, .rested (hlooked.rested h.sound) hheld⟩
  · intro linked q hlinked hlooked
    rw [hlinked]
    exact brings_joinValues hP hexpansion h hheld hbare hbound hlooked

/-- The replacement of an expansion over a synthesized link. -/
theorem brings_resolveGenerated (hkind : label.kind.isExpansion = true) :
    Brings P (resolveGenerated env (nodeWithin env fuel) n label link g.metadata.primary) n label.boost
      (replacementGenerated env env.executor.answers g p.scans label link query rest) p p := by
  obtain ⟨c, later, hchildren, hquery, -⟩ := Arena.holdsAll_cons.mp (Arena.holds_node.mp hheld).2
  have hmem : c ∈ p.draft.arena.children n := by simp [hchildren]
  have hn := Arena.lt_size_of_mem_children hmem
  have hasc := h.sound.ascending
  unfold resolveGenerated replacementGenerated Brings
  rw [wp_bind]
  refine wp_mono (wp_and (pushes_joinValues hP hexpansion h (.refl h.sound) hheld hbare hbound)
    (leads_joinValues fuel (nodeWithin_steps fuel) h.sound n link .own)) ?_ ?_
  · rintro w s ⟨⟨values, hok, rfl, hdraft, hnoted⟩, hps, hjoins⟩
    have hvalues := join_label hok
    have hs := h.evolve hps
    rw [Course.seq_of_ok hok]
    generalize join env env.executor.answers g p.scans link link.leftField link.rightField query =
      course at hnoted hok ⊢
    -- what has been scanned is noted, wherever the lookups after it end
    have hnext : ∀ {t : Progress}, Looked env s t → t.draft = s.draft ∧ Noted n course.events p t :=
      fun hlooked => ⟨(hlooked.rested hps.sound).draft_eq,
        hnoted.congr (hlooked.rested hps.sound).reports_eq (hlooked.rested hps.sound).scans_eq⟩
    refine wp_lookup (hs.exec_ownerOf _) (ownerOf_blames hP _) ?_ fun owner t howner hlooked => ?_
    · intro error t howner herror hlooked
      obtain ⟨htdraft, htnoted⟩ := hnext hlooked
      rw [howner]
      refine ⟨.refused, rfl, herror, .pushed hasc hn hheld ?_ (htdraft.trans hdraft)⟩
      rwa [Course.halt, List.append_nil]
    obtain ⟨htdraft, htnoted⟩ := hnext hlooked
    rw [howner]
    simp only
    split
    · next hprimary =>
      refine (wp_pure _).mpr ⟨rfl, .leaf h.sound hn hvalues ?_ (htdraft.trans hdraft)⟩
      rwa [Course.done, List.append_nil]
    · next hprimary =>
      -- the values take the place of the query, and are scanned for in turn
      have hevolves := (hps.trans (hlooked.evolves hps.sound)).trans (evolves_requeried
        (hlooked.evolves hps.sound).sound ((hjoins.fresh h.sound).congr htdraft))
      have hrequeried : ({ t.draft with arena := t.draft.arena.setChild n 0 p.draft.arena.size } :
          Query.Draft) = { p.draft with
            arena := (p.draft.arena.push values).1.setChild n 0 p.draft.arena.size } := by
        rw [htdraft, hdraft]
      have hafter : After n (.node label (.node values [] :: rest)) course.events p
          (t.withArena (t.draft.arena.setChild n 0 p.draft.arena.size)) :=
        .requeried hasc hheld hvalues (htnoted.congr rfl rfl) hrequeried
      have hleaf : (Query.Tree.node values []).IsBare := Tree.isBare_node.mpr ⟨hvalues, by simp⟩
      rw [wp_bind, wp_modifyArena, ← hafter.noted.scans_eq]
      exact (brings_joinKeys hP hexpansion (h.evolve hevolves) hafter.held hleaf
        (Nat.le_trans query.size_pos hbound)).after hafter
        (within_keys (fun _ => (join_events _ _ _ _).1) (fun _ _ => join_label) hkind _)
  · rintro error q ⟨⟨stop, hstop, hexplains, hdraft, hnoted⟩, -⟩
    rw [Course.seq_of_error hstop]
    exact ⟨stop, rfl, hexplains, .of_draft hdraft hheld hnoted⟩

omit hP hexpansion hbare hbound in
/-- The query of an expansion in its place. -/
theorem brings_substitute (hbare : query.IsBare) (own : Bool) :
    Brings P (substitute n link own) n label.boost
      ⟨query.boosted label.boost, [event g (.inPlace own)], .ok ()⟩ p p := by
  obtain ⟨c, later, hchildren, hquery, -⟩ := Arena.holdsAll_cons.mp (Arena.holds_node.mp hheld).2
  have hmem : c ∈ p.draft.arena.children n := by simp [hchildren]
  have hn := Arena.lt_size_of_mem_children hmem
  have hc : p.draft.arena.child? n 0 = some c := by rw [Arena.child?, hchildren]; rfl
  unfold substitute Brings
  rw [wp_bind, wp_of_ok (exec_queryOf hc), wp_bind, wp_arena, wp_bind, wp_report, wp_pure]
  refine ⟨rfl, substituted_framed h.sound hn (.inl hc) label.boost,
    h.sound.ascending.holds_substituted_child hn hc hquery label.boost,
    fun path hpath => absurd hpath (((Tree.isBare_boosted _).mpr hbare).not_expansionAt path), ?_⟩
  exact .report h rfl rfl rfl (by simp [Resolution.request?, Progress.withArena])

end Resolving

/-- **Refusal** of an expansion, before anything is done to it. -/
def Refuses (env : Environment) (P : Error → Prop) (x : Compile α) (p : Progress) : Prop :=
  wp x (fun _ _ => False) (fun error q => P error ∧ Rested env p q) p

namespace Refuses

theorem bind {x : Compile β} {f : β → Compile α} (h : Refuses env P x p) :
    Refuses env P (x >>= f) p := by
  unfold Refuses
  rw [wp_bind]
  exact wp_mono h (fun _ _ h => h.elim) fun _ _ h => h

/-- A refused expansion stays as it is. -/
theorem brings {x : Compile NodeId} {boost : Boost} (h : Refuses env P x p)
    (hheld : p.draft.arena.Holds n tree) : Brings P x n boost (.halt tree .refused) p p :=
  wp_mono h (fun _ _ h => h.elim) fun _ _ ⟨herror, hrested⟩ =>
    ⟨.refused, rfl, herror, .rested hrested hheld⟩

end Refuses

section Empty

variable (hP : env.Reports P) (hp : Sound env p) (hc : p.draft.arena.child? n 0 = none)
  {link target : Link}

include hP hp hc

/-- Nothing can be found out about an expansion without a query. -/
theorem refuses_queryOf (f : NodeId → Compile α) : Refuses env P (queryOf n >>= f) p := by
  unfold Refuses
  rw [wp_bind, wp_of_error (exec_queryOf_none hc)]
  exact ⟨hP.ordinary _ rfl, .refl hp⟩

theorem refuses_resolveLink {recur : NodeId → Compile Fragment} (hapart : Apart env target link) :
    Refuses env P (resolveLink env recur n link target) p := by
  unfold resolveLink Refuses
  rw [wp_bind, wp_ofExcept]
  cases hpath : env.resolver.joinPath target link with
  | error error => exact ⟨hP.joinPath _ _ _ hpath, .refl hp⟩
  | ok path =>
    refine wp_lookup (exec_joinFields hp path) (joinFields_blames hP path)
      (fun error s _ herror hlooked => ⟨herror, hlooked.rested hp⟩) fun fields s hfields hlooked => ?_
    have hrested := hlooked.rested hp
    rw [wp_bind, wp_get, if_neg (hapart.not_inlined hpath hfields _)]
    exact wp_mono (refuses_queryOf (n := n) hP hrested.sound (by rwa [hrested.draft_eq]) _)
      (fun _ _ h => h) fun _ _ h => ⟨h.1, hrested.trans h.2⟩

end Empty

/-- **Resolving an expansion** takes the course of its replacement. -/
theorem resolve_takes (hP : env.Reports P) (hexpansion : ∀ kind, P (.notAnExpansion kind))
    (h : Stands env g p) {target link : Link} (hapart : Apart env target link) {label : Label}
    {generated : Bool} {children : List Tree} (hheld : p.draft.arena.Holds n (.node label children))
    (hkind : label.kind = .expansion link generated)
    (hchildren : ∀ tree ∈ children.take 1, tree.IsBare ∧ tree.size ≤ fuel) :
    Takes env P (resolve env (nodeWithin env fuel) g.metadata.primary target n) n
      (replacement env env.executor.answers g target p.scans label link generated children) p := by
  have hlabel : p.draft.arena.label n = label := hheld.label_eq
  have hlink : exec (linkOf n) p = (.ok link, p) := exec_linkOf (by rw [hlabel, hkind]; rfl)
  -- whatever is brought takes the place of the expansion
  have hfinish : ∀ {x : Compile NodeId} {course : Course Tree Unit},
      Brings P x n label.boost course p p →
      Ends P (x >>= fun resolved => do
        modifyArena fun arena => arena.replace n resolved
        if label.boost.isSome then
          modifyArena fun arena => arena.modifyLabel n fun new => { new with boost := label.boost })
        n course p := by
    intro x course hbrings
    unfold Ends
    rw [wp_bind]
    refine wp_mono hbrings (fun v q hq => ?_) fun _ _ h => h
    rw [wp_bind, wp_modifyArena]
    unfold substituted at hq
    split
    · next hboost =>
      rw [if_pos hboost] at hq
      exact hq
    · next hboost =>
      rw [if_neg hboost] at hq
      exact hq
  refine Ends.takes ?_ (leads_resolve fuel (nodeWithin_steps fuel) h.sound g.metadata.primary target n
    h.repeats.primary_eq.symm)
  unfold resolve replacement Ends
  rw [wp_bind, wp_labelOf, wp_bind, wp_of_ok hlink, wp_bind, wp_get, hlabel]
  simp only [h.generated_eq]
  cases children with
  | nil =>
    have hc : p.draft.arena.child? n 0 = none := by
      rw [Arena.child?, Arena.holdsAll_nil.mp (Arena.holds_node.mp hheld).2]
      rfl
    split
    · exact hfinish ((refuses_queryOf hP h.sound hc _).brings hheld)
    · split
      · exact hfinish ((refuses_queryOf hP h.sound hc _).bind.brings hheld)
      · exact hfinish ((refuses_resolveLink hP h.sound hc hapart).brings hheld)
  | cons query rest =>
    obtain ⟨hbare, hbound⟩ := hchildren query (by simp)
    simp only
    split
    · exact hfinish (brings_substitute h hheld hbare true)
    · rw [show label.kind.isGenerated = generated by rw [hkind]; rfl]
      split
      · exact hfinish (brings_resolveGenerated hP hexpansion h hheld hbare hbound (by rw [hkind]; rfl))
      · exact hfinish (brings_resolveLink hP hexpansion h hheld hbare hbound hapart)

end Compile

end LinkedSearch
