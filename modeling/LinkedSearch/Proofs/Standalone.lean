import LinkedSearch.Proofs.Calling
import LinkedSearch.Proofs.Requerying
import LinkedSearch.Proofs.Simulation

/-! # Where an expansion stands

A scan for an expansion outside of scopes is the one that would be requested if the expansion were the
whole query:

* `Setup.requesting`: the same request with another query.
* `Spared`: what successful compilations leave of a query, and what they report.
* `Compiler.scan_standalone`: scans of expansions in a query and of expansions on their own. -/

namespace LinkedSearch

open Query (Arena Kind Label NodeId Tree)

/-! ## Other queries -/

/-- Fields have an owner where all indexes have a mapping. -/
theorem Metadata.Mapped.exists_owner {resolver : Resolver} {md : Metadata} (h : md.Mapped resolver)
    (field : String) : ∃ link, md.owner resolver field = .ok link := by
  have hfirst : ∀ links : List Link, (∀ link ∈ links, ∃ mapping,
      resolver.mapping link.index = .ok mapping) →
        ∃ link, Metadata.firstOwner resolver field links = .ok link := by
    intro links hlinks
    induction links with
    | nil => exact ⟨none, rfl⟩
    | cons link rest ih =>
      obtain ⟨mapping, hmapping⟩ := hlinks link List.mem_cons_self
      rw [Metadata.firstOwner, hmapping]
      simp only
      split
      · exact ⟨_, rfl⟩
      · exact ih fun link' hlink' => hlinks link' (List.mem_cons_of_mem link hlink')
  unfold Metadata.owner
  split
  · exact ⟨_, rfl⟩
  · obtain ⟨link, hlink⟩ := hfirst (md.primary :: md.others) fun link hlink => h link (by
      rcases List.mem_cons.mp hlink with rfl | hlink
      · exact List.mem_cons_self
      · refine List.mem_cons_of_mem _ ?_
        rcases List.mem_append.mp hlink with hlink | hlink
        · exact List.mem_cons_of_mem _ hlink
        · split at hlink
          · exact absurd hlink (by simp)
          · rw [List.mem_singleton.mp hlink]
            exact List.mem_cons_self)
    rw [hlink]
    exact ⟨_, rfl⟩

namespace Setup

variable {setup : Setup} {compiler : Compiler}

/-- The same request with another query. -/
def requesting (setup : Setup) (tree : Tree) : Setup :=
  { setup with request := { setup.request with query := some tree } }

/-- Fields can be assigned where all indexes have a mapping. -/
theorem exec_assignFields {resolver : Resolver} {md : Metadata} (hf : md.Faithful resolver)
    (hmapped : md.Mapped resolver) (subject : Option String) (fields : List String) :
    ∃ md', exec (assignFields resolver subject fields) md = (.ok (), md') := by
  unfold assignFields
  cases subject with
  | none =>
    obtain ⟨outcome, md', hexec, -, hok⟩ := exec_recordOwners fields hf
    obtain rfl := hok hmapped.exists_owner
    exact ⟨md', hexec⟩
  | some field =>
    obtain ⟨md₁, h₁, hg₁⟩ := Metadata.exec_find hf field
    obtain ⟨link, hlink⟩ := hmapped.exists_owner field
    rw [hlink] at h₁
    have hf' : ({ md₁ with primary := link } : Metadata).Faithful resolver := hg₁.faithful hf
    -- the new primary link is among those that were mapped before
    have hmapped' : ({ md₁ with primary := link } : Metadata).Mapped resolver := by
      intro other hother
      refine hmapped other ?_
      simp only [hg₁.origin_eq, hg₁.links_eq] at hother
      rcases List.mem_cons.mp hother with rfl | hother
      · exact Metadata.mem_of_owner hlink
      · exact List.mem_cons_of_mem _ hother
    obtain ⟨outcome, md', hexec, -, hok⟩ := exec_recordOwners fields hf'
    obtain rfl := hok hmapped'.exists_owner
    refine ⟨md', ?_⟩
    rw [exec_bind, h₁]
    exact hexec

/-- **Another query** can be started with whenever a query can, and the same links are known then. -/
theorem start_requesting (hstart : setup.start = .ok compiler) (tree : Tree) :
    ∃ other, (setup.requesting tree).start = .ok other ∧ other.environment = compiler.environment ∧
      other.progress.metadata.origin = compiler.progress.metadata.origin ∧
      other.progress.metadata.primary = compiler.progress.metadata.primary ∧
      other.progress.metadata.links = compiler.progress.metadata.links := by
  obtain ⟨resolver, executor, md, md', hresolver, hexecutor, hmetadata, hassign, rfl⟩ :=
    start_eq_ok.mp hstart
  obtain ⟨-, -, hfaithful, hmapped, -⟩ := Metadata.start_spec hmetadata
  obtain ⟨md'', hassign'⟩ := exec_assignFields hfaithful hmapped
    (Query.Request.subjectField? setup.request.aggregate setup.request.suggestion)
    (setup.requesting tree).request.draft.fieldNames
  refine ⟨_, start_eq_ok.mpr ⟨resolver, executor, md, md'', hresolver, hexecutor, hmetadata, hassign',
    rfl⟩, rfl, ?_⟩
  obtain ⟨-, horigin, hlinks, -, hnone, hsome⟩ := assignFields_spec hfaithful hassign
  obtain ⟨-, horigin', hlinks', -, hnone', hsome'⟩ := assignFields_spec hfaithful hassign'
  refine ⟨horigin'.trans horigin.symm, ?_, hlinks'.trans hlinks.symm⟩
  cases hsubject : Query.Request.subjectField? setup.request.aggregate setup.request.suggestion with
  | none => exact (hnone' hsubject).trans (hnone hsubject).symm
  | some field =>
    exact Except.ok.inj ((hsome' field hsubject).1.symm.trans (hsome field hsubject).1)

end Setup

/-! ## What is left of a query -/

namespace Compile

variable {env : Environment} {answers : Answers} {g p q : Progress} {tree left : Tree} {e : Event}
  {root : Nat}

/-- What is done for the filter of an aggregate could be done for the query. -/
theorem Arises.unfiltered {b : Bool} (h : Arises env answers { g with aggregating := b } tree e) :
    Arises env answers g tree e := by
  obtain ⟨outer, inner, expansion, link, generated, horigin⟩ := h
  obtain ⟨sub, hsub, hkind, hdepth, hpath, hlast⟩ := horigin.concludes
  refine ⟨outer, inner, expansion, link, generated, horigin.path_eq, horigin.subtree_eq,
    horigin.kind_eq, sub, hsub, hkind, ?_, ?_, fun hexplicit => ?_⟩
  · cases generated <;> exact hdepth
  · cases generated <;> exact hpath
  · obtain ⟨log, earlier, hevents⟩ := hlast hexplicit
    refine ⟨log, earlier, ?_⟩
    rw [← hevents]
    cases generated <;> exact congrArg Course.events (settle_unfiltered b sub).symm

/-- What is done to an expansion that was left could be done to it before. -/
theorem Arises.of_left (h : Arises env answers g left e)
    (hleft : ∀ path, left.ExpansionAt path → left.subtree? path = tree.subtree? path) :
    Arises env answers g tree e := by
  obtain ⟨outer, inner, expansion, link, generated, horigin⟩ := h
  refine ⟨outer, inner, expansion, link, generated, horigin.path_eq, ?_, horigin.kind_eq,
    horigin.concludes⟩
  rw [← hleft outer ⟨expansion, horigin.subtree_eq, by rw [horigin.kind_eq]; rfl⟩]
  exact horigin.subtree_eq

/-- **What successful compilations leave** of a query: expansions that are left are as they were and
where they were, and what was done to the others could be done at the start. -/
structure Spared (env : Environment) (start : Progress) (root : Nat) (tree : Tree) (p : Progress) :
    Prop where
  stands : Stands env { start with aggregating := p.aggregating } p
  root_eq : p.draft.root = some root
  root_lt : root < p.draft.arena.size
  held : ∃ left, p.draft.arena.Holds root left ∧ ∀ path, left.ExpansionAt path →
    left.subtree? path = tree.subtree? path ∧
      p.draft.arena.descend root path = start.draft.arena.descend root path
  reported : ∀ r ∈ p.reports, ∃ e, Arises env env.executor.answers start tree e ∧
    start.draft.arena.descend root e.path = some r.id ∧ r.scopeDepth = e.scopeDepth ∧
      r.resolution = e.resolution

/-- **A successful compilation** spares the expansions that it leaves. -/
theorem Spared.rootQuery {start : Progress} (hsingle : env.settings.allowSingleIndex = false)
    (hp : Spared env start root tree p) :
    wp (rootQuery env) (fun _ q => Spared env start root tree q) (fun _ _ => True) p := by
  obtain ⟨left, hheld, hleft⟩ := hp.held
  have hbound := hp.stands.sound.ascending.size_le_depthBound hp.root_lt hheld
  have htakes := nodeWithin_takes env.reports_any (fun _ => trivial) _ _ _ _ _ hp.stands
    (.of_split hsingle) hp.root_lt hheld hbound
  unfold wp
  rw [exec_rootQuery hp.root_eq]
  refine wp_mono htakes ?_ fun _ _ _ => trivial
  rintro F q ⟨hok, hpq, hafter⟩
  refine ⟨?_, hpq.root_eq.trans hp.root_eq, Nat.lt_of_lt_of_le hp.root_lt hpq.size_le,
    ⟨_, hafter.held, fun path hpath => ?_⟩, fun r hr => ?_⟩
  · rw [hpq.aggregating_eq]
    exact hp.stands.evolve hpq
  · obtain ⟨hsame, hplace⟩ := hleft path (visit_remaining hpath)
    exact ⟨(visit_spared hok hpath).trans hsame, (hafter.kept path hpath).trans hplace⟩
  · rcases hafter.noted.exists_event hr with hr | ⟨e, he, hreported⟩
    · exact hp.reported r hr
    · have harises := visit_event he
      refine ⟨e, (harises.of_left fun path hpath => (hleft path hpath).1).unfiltered, ?_,
        hreported.scopeDepth_eq, hreported.resolution_eq⟩
      rw [← (hleft e.path harises.expansionAt).2]
      exact hreported.id_eq

/-- Looking things up spares everything. -/
theorem Spared.looked {start : Progress} (hp : Spared env start root tree p) (h : Looked env p q) :
    Spared env start root tree q := by
  have hpq := h.evolves hp.stands.sound
  obtain ⟨md, -, rfl⟩ := h
  exact ⟨hp.stands.evolve hpq, hp.root_eq, hp.root_lt, hp.held, hp.reported⟩

/-- Filters of aggregates are compiled in the same draft. -/
theorem Spared.aggregate {start : Progress} (hp : Spared env start root tree p) (b : Bool) :
    Spared env start root tree { p with aggregating := b } :=
  ⟨hp.stands.aggregate b, hp.root_eq, hp.root_lt, hp.held, hp.reported⟩

/-- **Sparing** is a discipline, as long as nothing fails. -/
theorem sparing_discipline (env : Environment) (start : Progress) (root : Nat) (tree : Tree) :
    Discipline env (Spared env start root tree) (fun _ q => Spared env start root tree q)
      (fun _ _ => True) where
  sound := fun _ h => h.stands.sound
  keep := fun _ _ _ h => h
  looked := fun _ _ hp h => ⟨hp.looked h, trivial⟩
  trans := fun _ _ _ _ h => h
  fail := fun _ _ _ _ _ => trivial

end Compile

namespace Compiler

open Compile

variable {compiler : Compiler} {start : Progress} {root : Nat} {tree : Tree}

/-- **One successful call** spares the expansions that it leaves. -/
theorem perform_spared (hsingle : compiler.environment.settings.allowSingleIndex = false)
    (h : Spared compiler.environment start root tree compiler.progress)
    (call : Call) (hok : (compiler.perform call).1 = true) :
    Spared compiler.environment start root tree (compiler.perform call).2.progress := by
  have hroot : Obeys (Spared compiler.environment start root tree)
      (fun _ q => Spared compiler.environment start root tree q) (fun _ _ => True)
      (rootQuery compiler.environment) := fun p hp => hp.rootQuery hsingle
  rcases perform_obeys (sparing_discipline _ _ _ _) hroot h (h.aggregate true) call with
    ⟨-, hdone⟩ | ⟨hfails, -⟩
  · exact hdone.keeps h (fun _ b hs => hs.aggregate b) fun _ _ _ hq => hq
  · exact absurd (hfails.symm.trans hok) Bool.false_ne_true

/-- **Successful calls** spare the expansions that they leave. -/
theorem after_spared (hsingle : compiler.environment.settings.allowSingleIndex = false)
    (h : Spared compiler.environment start root tree compiler.progress) (calls : List Call)
    (hcalls : compiler.succeeds calls = true) :
    Spared compiler.environment start root tree (compiler.after calls).progress := by
  induction calls generalizing compiler with
  | nil => exact h
  | cons call rest ih =>
    rw [succeeds, Bool.and_eq_true] at hcalls
    have hnext := perform_spared hsingle h call hcalls.1
    rw [← perform_environment compiler call] at hnext hsingle
    have hrest := ih hsingle hnext hcalls.2
    rwa [perform_environment] at hrest

/-- A started compiler has not left anything yet. -/
theorem spared_of_started {setup : Setup} (h : setup.Started compiler)
    (hparentless : ∀ i, (compiler.progress.draft.arena.label i).kind.isParent = false)
    (htree : setup.request.query = some tree) :
    ∃ root, compiler.progress.draft.arena.Holds root tree ∧
      compiler.progress.draft.root = some root ∧
      Spared compiler.environment compiler.progress root tree compiler.progress := by
  obtain ⟨md, hprogress⟩ := h.progress_eq
  obtain ⟨root, hroot, hinserted, -⟩ := setup.request.draft_fresh.rooted tree htree
  have hdraft : compiler.progress.draft = setup.request.draft := by rw [hprogress]
  rw [← hdraft] at hroot hinserted
  have hlt : root < compiler.progress.draft.arena.size := by
    rw [hinserted.id_eq]
    exact hinserted.size_lt
  refine ⟨root, hinserted.holds, hroot, .refl h.sound hparentless, hroot, hlt,
    ⟨tree, hinserted.holds, fun path _ => ⟨rfl, rfl⟩⟩, fun r hr => ?_⟩
  rw [hprogress] at hr
  exact absurd hr (by simp)

/-- **What an expansion on its own** would be settled to. -/
theorem query_noted {setup : Setup} {own : Tree} {g : Progress} {link : Link}
    (hstart : (setup.requesting own).start = .ok compiler)
    (hsingle : compiler.environment.settings.allowSingleIndex = false)
    (hkind : own.label.kind = .expansion link false)
    (hstands : Stands compiler.environment g compiler.progress) :
    ∃ root, compiler.progress.draft.root = some root ∧ Noted root
      (settle compiler.environment compiler.environment.executor.answers g (targetOf g link) []
        (own.stripped link.name)).events compiler.progress compiler.query.2.progress := by
  have hstarted := Setup.started_of_ok hstart
  obtain ⟨md, hprogress⟩ := hstarted.progress_eq
  obtain ⟨root, hheld, hroot, hspared⟩ := spared_of_started hstarted hstands.parentless rfl
  have hscans : compiler.progress.scans = [] := by rw [hprogress]
  have hbound := hstands.sound.ascending.size_le_depthBound hspared.root_lt hheld
  have htakes := nodeWithin_takes (Environment.reports_any _) (fun _ => trivial) _ _ _ _ _ hstands
    (.of_split hsingle) hspared.root_lt hheld hbound
  have hafter : wp (nodeWithin compiler.environment (depthBound compiler.progress.draft.arena.size) root)
      (fun _ q => Noted root _ compiler.progress q) (fun _ q => Noted root _ compiler.progress q)
      compiler.progress :=
    wp_mono htakes (fun _ _ h => h.2.2.noted) fun _ _ ⟨_, _, _, _, hafter⟩ => hafter.noted
  obtain ⟨label, children⟩ := own
  have hevents : (visit compiler.environment compiler.environment.executor.answers g
      compiler.progress.scans (.node label children)).events = _ :=
    (congrArg Course.events (visit_expansion hkind)).trans (expandTree_spec _ link false).2.1
  rw [hevents, hscans] at hafter
  refine ⟨root, hroot, ?_⟩
  have hquery : compiler.query.2.progress = (exec (rootQuery compiler.environment) compiler.progress).2 :=
    rfl
  rw [hquery, exec_rootQuery hroot]
  rcases hexec : exec (nodeWithin compiler.environment (depthBound compiler.progress.draft.arena.size)
    root) compiler.progress with ⟨error | F, q⟩
  · exact (wp_of_error hexec).mp hafter
  · exact (wp_of_ok hexec).mp hafter

/-- **An expansion on its own** is compiled as it is outside of scopes where it stands. -/
theorem stands_alone {setup : Setup} {own : Tree} {n : NodeId} {alone : Compiler}
    (hstart : setup.start = .ok compiler) (halone : (setup.requesting own).start = .ok alone)
    (henv : alone.environment = compiler.environment)
    (horigin : alone.progress.metadata.origin = compiler.progress.metadata.origin)
    (hprimary : alone.progress.metadata.primary = compiler.progress.metadata.primary)
    (hlinks : alone.progress.metadata.links = compiler.progress.metadata.links)
    (hparentless : ∀ i, (compiler.progress.draft.arena.label i).kind.isParent = false)
    (hheld : compiler.progress.draft.arena.Holds n own) {depth : Nat} (hdepth : depth = 0)
    (path : Option String) :
    Stands compiler.environment { compiler.progress with scopeDepth := depth, scopePath := path }
      alone.progress := by
  have hstarted := Setup.started_of_ok hstart
  have hstarted' := Setup.started_of_ok halone
  obtain ⟨md, hprogress⟩ := hstarted.progress_eq
  obtain ⟨md', hprogress'⟩ := hstarted'.progress_eq
  exact {
    repeats := {
      sound := henv ▸ hstarted'.sound
      peers := {
        faithful_left := hstarted.sound.faithful
        faithful_right := henv ▸ hstarted'.sound.faithful
        aggregating_eq := by rw [hprogress, hprogress']
        scopeDepth_eq := by rw [hprogress', hdepth]
        scopePath_eq := .inl hdepth
        arrayData_eq := by rw [hprogress, hprogress']; rfl }
      origin_eq := horigin
      primary_eq := hprimary
      links_eq := hlinks }
    parentless := by
      -- its labels are among those of the whole query
      intro i
      obtain ⟨_, _, -, hlabels⟩ := (setup.requesting own).request.draft_fresh.rooted own rfl
      have hdraft : alone.progress.draft = (setup.requesting own).request.draft := by rw [hprogress']
      rw [← hdraft, ← hstarted.sound.ascending.labels_descendants hheld] at hlabels
      rcases alone.progress.draft.arena.label_mem_labels_or i with hmem | hdefault
      · rw [hlabels] at hmem
        obtain ⟨y, -, hy⟩ := List.mem_map.mp hmem
        rw [← hy]
        exact hparentless y
      · rw [hdefault]
        rfl
    generated_eq := by rw [hprogress, hprogress'] }

/-- **A scan does not depend on where its expansion stands**, outside of scopes. -/
theorem scan_standalone {setup : Setup} (hstart : setup.start = .ok compiler)
    (hsingle : compiler.environment.settings.allowSingleIndex = false)
    (hsteady : compiler.environment.executor.answers.Steady)
    (hparentless : ∀ i, (compiler.progress.draft.arena.label i).kind.isParent = false)
    (calls : List Call) (hcalls : compiler.succeeds calls = true) {r : Report}
    (hr : r ∈ (compiler.after calls).reports) {request : ScanRequest}
    (hscan : r.resolution = .scan request) (hdepth : r.scopeDepth = 0) {link : Link}
    (hlink : (compiler.progress.draft.arena.label r.id).kind = .expansion link false)
    (haround : ∀ x around generated, compiler.progress.draft.arena.Below x r.id →
      (compiler.progress.draft.arena.label x).kind = .expansion around generated →
        generated = false ∧ (compiler.progress.draft.arena.treeAt r.id).stripped around.name =
          (compiler.progress.draft.arena.treeAt r.id).stripped link.name) :
    ∃ alone, (setup.requesting (compiler.progress.draft.arena.treeAt r.id)).start = .ok alone ∧
      alone.query.2.scans.getLast? = some request ∧
      ∃ r', alone.query.2.reports.getLast? = some r' ∧ alone.progress.draft.root = some r'.id ∧
        r'.resolution = .scan request := by
  have hstarted := Setup.started_of_ok hstart
  obtain ⟨md, hprogress⟩ := hstarted.progress_eq
  have hasc := hstarted.sound.ascending
  generalize hown : compiler.progress.draft.arena.treeAt r.id = own at haround ⊢
  have hownheld : compiler.progress.draft.arena.Holds r.id own := hown ▸ hasc.holds_treeAt r.id
  have hkind : own.label.kind = .expansion link false := by rw [← hownheld.label_eq, hlink]
  obtain ⟨tree, htree⟩ : ∃ tree, setup.request.query = some tree := by
    cases hquery : setup.request.query with
    | some tree => exact ⟨tree, rfl⟩
    | none =>
      have hexp : (compiler.progress.draft.arena.label r.id).kind.isExpansion = true := by
        rw [hlink]; rfl
      have hlt := Arena.lt_size_of_isExpansion hexp
      rw [hprogress, (setup.request.draft_fresh.rootless hquery).2] at hlt
      exact absurd hlt (Nat.not_lt_zero _)
  obtain ⟨root, hheld, hroot, hspared⟩ := spared_of_started hstarted hparentless htree
  obtain ⟨e, harises, hid, hscope, hresolution⟩ :=
    (after_spared hsingle hspared calls hcalls).reported r hr
  obtain ⟨outer, inner, expansion, around, generated, hpath, houter, hexpansion, sub, hsub, -, hsubdepth,
    hsubpath, hlast⟩ := harises
  -- the expansion around it, as it was at the start
  obtain ⟨x, hx, hxheld⟩ := hheld.descend houter
  rw [hpath, Arena.descend_append, hx] at hid
  obtain ⟨rfl, hstripped⟩ := haround x around generated (Arena.below_of_descend hid)
    (by rw [hxheld.label_eq, hexpansion])
  obtain ⟨own', hown', hownheld'⟩ := hxheld.subtree hid
  obtain rfl := hownheld'.unique hownheld
  rw [Query.Tree.subtree?_stripped, hown', Option.map_some, hstripped] at hsub
  obtain rfl := Option.some.inj hsub
  obtain ⟨log, earlier, hevents⟩ := hlast (by rw [Tree.kind_stripped, hkind]; rfl)
  -- the expansion on its own
  obtain ⟨alone, halone, henv, horigin, hprimary, hlinks⟩ := Setup.start_requesting hstart own'
  have hstands := stands_alone hstart halone henv horigin hprimary hlinks hparentless hownheld
    (hscope.symm.trans hdepth) e.scopePath
  rw [← henv] at hstands hsingle
  obtain ⟨root', hroot', hnoted⟩ := query_noted halone hsingle hkind hstands
  have htarget : targetOf (generating compiler.progress false) around = targetOf
      { compiler.progress with scopeDepth := e.scopeDepth, scopePath := e.scopePath } link := by
    rw [hprogress]
    rfl
  rw [htarget, ← henv, settle_steady (by rwa [henv])] at hevents
  have hevents : (settle alone.environment alone.environment.executor.answers
      { compiler.progress with scopeDepth := e.scopeDepth, scopePath := e.scopePath } _ []
      (own'.stripped link.name)).events = _ := hevents
  rw [hevents] at hnoted
  obtain ⟨r', hr', hreported⟩ := hnoted.getLast_reports
  have hevent : e.resolution = .scan request := hresolution.symm.trans hscan
  refine ⟨alone, halone, hnoted.getLast_scans hevent, r', hr', ?_, ?_⟩
  · rw [hroot']
    exact hreported.id_eq
  · exact hreported.resolution_eq.trans hevent

/-- The search for tags as part of another query, where nothing is sent to other indexes. -/
def partialSearch (around : Tree → Tree) : Setup :=
  { nestedSearch around with settings := { allowSingleIndex := false } }

/-- Beside a scope, the authors with a tag are scanned for as on their own. -/
theorem scan_standalone_partialSearch : ∃ compiler alone r request,
    (partialSearch fun expansion =>
      .conjunction [.scope [.word "author" (.int 7)], .child "t" [expansion]]).start = .ok compiler ∧
      r ∈ (compiler.after [.aggregation, .query]).reports ∧ r.resolution = .scan request ∧
      ((partialSearch id).requesting (compiler.progress.draft.arena.treeAt r.id)).start = .ok alone ∧
      alone.query.2.scans.getLast? = some request := by
  have hrun : ((partialSearch fun expansion =>
      .conjunction [.scope [.word "author" (.int 7)], .child "t" [expansion]]).start.toOption.any
        fun compiler =>
      decide (compiler.environment.settings.allowSingleIndex = false) &&
      compiler.progress.draft.arena.labels.all (fun label => !label.kind.isParent) &&
      compiler.succeeds [.aggregation, .query] &&
      (compiler.after [.aggregation, .query]).reports.any fun r =>
        r.resolution.request?.isSome && decide (r.scopeDepth = 0) &&
        decide ((compiler.progress.draft.arena.label r.id).kind =
          .expansion (.unnamed "author" "authors" "id") false) &&
        (List.range compiler.progress.draft.arena.size).all fun x =>
          decide (x = r.id) || !(compiler.progress.draft.arena.label x).kind.isExpansion) = true := by
    decide +kernel
  simp only [Option.any_eq_true, toOption_eq_some, List.any_eq_true, Bool.and_eq_true,
    decide_eq_true_eq, List.all_eq_true, Bool.not_eq_true', Option.isSome_iff_exists,
    List.mem_range, Bool.or_eq_true] at hrun
  obtain ⟨compiler, hstart, ⟨⟨hsingle, hlabels⟩, hcalls⟩, r, hr, ⟨⟨⟨request, hrequest⟩, hdepth⟩, hlink⟩,
    hall⟩ := hrun
  have hscan := Resolution.request?_eq_some.mp hrequest
  have hsteady : compiler.environment.executor.answers.Steady := by
    obtain ⟨_, _, _, _, -, hexecutor, -, -, rfl⟩ := Setup.start_eq_ok.mp hstart
    rw [← Option.some.inj hexecutor]
    exact fun _ _ => rfl
  obtain ⟨alone, halone, hlast, -⟩ := scan_standalone hstart hsingle hsteady
    (fun i => by
      by_cases hi : i < compiler.progress.draft.arena.size
      · exact hlabels _ (Arena.label_mem_labels hi)
      · rw [Arena.label_of_size_le (Nat.le_of_not_lt hi)]
        rfl)
    [.aggregation, .query] hcalls hr hscan hdepth hlink
    fun x around generated _ hkind => by
      have hexp : (compiler.progress.draft.arena.label x).kind.isExpansion = true := by rw [hkind]; rfl
      rcases hall x (Arena.lt_size_of_isExpansion hexp) with rfl | hnot
      · rw [hlink] at hkind
        obtain ⟨rfl, rfl⟩ := Kind.expansion.inj hkind
        exact ⟨rfl, rfl⟩
      · rw [hexp] at hnot
        exact absurd hnot (by simp)
  exact ⟨compiler, alone, r, request, hstart, hr, hscan, halone, hlast⟩

/-- **In a scope**, the nested path of a tag is taken for the one of the scope: what the authors are
asked for is not what they are asked for on their own. -/
theorem not_standalone_partialSearch : ∃ compiler alone r request request' filter filter',
    (partialSearch fun expansion => .scope [expansion]).start = .ok compiler ∧
      compiler.environment.settings.allowSingleIndex = false ∧
      (∀ label ∈ compiler.progress.draft.arena.labels, label.kind.isParent = false) ∧
      compiler.query.1.isOk = true ∧ compiler.query.2.reports = [r] ∧ r.generated = false ∧
      r.resolution = .scan request ∧
      ((partialSearch id).requesting (compiler.progress.draft.arena.treeAt r.id)).start = .ok alone ∧
      alone.query.1.isOk = true ∧ alone.query.2.scans = [request'] ∧
      request.query = .constantScore filter none ∧ filter.kind = "term" ∧
      request'.query = .constantScore filter' none ∧ filter'.kind = "nested" ∧ request ≠ request' := by
  have hrun : ((partialSearch fun expansion => .scope [expansion]).start.toOption.any fun compiler =>
      decide (compiler.environment.settings.allowSingleIndex = false) &&
      compiler.progress.draft.arena.labels.all (fun label => !label.kind.isParent) &&
      compiler.query.1.isOk && decide (compiler.query.2.reports.length = 1) &&
      compiler.query.2.reports.all fun r => !r.generated && r.resolution.request?.any fun request =>
        ((partialSearch id).requesting (compiler.progress.draft.arena.treeAt r.id)).start.toOption.any
          fun alone => alone.query.1.isOk && decide (alone.query.2.scans.length = 1) &&
            alone.query.2.scans.all fun request' => match request.query, request'.query with
              | .constantScore filter none, .constantScore filter' none =>
                decide (filter.kind = "term") && decide (filter'.kind = "nested")
              | _, _ => false) = true := by
    decide +kernel
  simp only [Option.any_eq_true, toOption_eq_some, Bool.and_eq_true, decide_eq_true_eq,
    List.all_eq_true, Bool.not_eq_true', List.length_eq_one_iff] at hrun
  obtain ⟨compiler, hstart, ⟨⟨⟨hsingle, hlabels⟩, hok⟩, r, hr⟩, hreports⟩ := hrun
  obtain ⟨hgenerated, request, hrequest, alone, halone, ⟨haloneok, request', hscans'⟩, hscans⟩ :=
    hreports r (by rw [hr]; exact List.mem_singleton_self r)
  have hfilters := hscans request' (by rw [hscans']; exact List.mem_singleton_self request')
  split at hfilters
  · next filter filter' hquery hquery' =>
    simp only [Bool.and_eq_true, decide_eq_true_eq] at hfilters
    refine ⟨compiler, alone, r, request, request', filter, filter', hstart, hsingle, hlabels, hok,
      hr, hgenerated, Resolution.request?_eq_some.mp hrequest, halone, haloneok, hscans', hquery,
      hfilters.1, hquery', hfilters.2, ?_⟩
    rintro rfl
    rw [hquery] at hquery'
    obtain rfl : filter = filter' := by simpa using hquery'
    exact absurd (hfilters.1.symm.trans hfilters.2) (by decide)
  · exact absurd hfilters (by simp)

end Compiler

end LinkedSearch
