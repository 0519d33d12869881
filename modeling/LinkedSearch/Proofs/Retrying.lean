import LinkedSearch.Proofs.Crossings
import LinkedSearch.Proofs.Resumption
import LinkedSearch.Proofs.Standalone

/-! # Trying again

A query whose scan was not answered leaves a draft behind that no fresh compiler has: some of its expansions
are replaced, and names are stripped. Compiling it again on the same compiler goes on from there:

* `Executor.failing`: an executor that does not answer all scans.
* `BreaksOff`: where a compilation may break off.
* `Halfway`: what is left when a query has broken off any number of times.
* `Compiler.requeried_resumes`: the scan that was not answered is requested again, and a success is the one
  that there would have been at once. -/

namespace LinkedSearch

open Query (Arena Draft Kind Label NodeId Tree)

/-! ## Executors -/

/-- An executor that does not answer all scans: it fails if so many scans were requested before. -/
def Executor.failing (executor : Executor) (fails : Nat → Bool) (failures : List ShardFailure) :
    Executor := fun earlier request =>
  if fails earlier.length then .error (.shardsFailed failures) else executor earlier request

/-- Whatever it answers is what would be answered otherwise. -/
theorem Executor.failing_agree {executor : Executor} (hsteady : executor.answers.Steady)
    (fails : Nat → Bool) (failures : List ShardFailure) :
    (executor.failing fails failures).answers.Agree executor.answers := by
  intro log log' request found hfound
  cases hfails : fails log.length with
  | true => exact absurd hfound (by simp [answers, run, failing, hfails])
  | false =>
    have hsame : (executor.failing fails failures).answers log request = executor.answers log request := by
      simp [answers, run, failing, hfails]
    rw [hsame, hsteady] at hfound
    rw [hsteady, hfound]

/-- The same request with another executor. -/
def Setup.answeredBy (setup : Setup) (executor : Executor) : Setup :=
  { setup with executor := some executor }

/-- A cluster does not report failed scans other than by its executor. -/
theorem Cluster.reports_unretriable (cluster : Cluster) (tokenizer : TokenizerSettings) {env : Environment}
    (hresolver : env.resolver = cluster.resolver) (hanalyzer : env.analyzer = tokenizer.analyzer) :
    env.Reports fun error => error.isRetriable = false where
  ordinary := by
    intro error hordinary
    cases error <;> first | rfl | exact absurd hordinary (by simp [Error.isOrdinary])
  mapping := by
    rw [hresolver]
    intro index error h
    have h : cluster.mapping index = _ := h
    unfold Cluster.mapping at h
    split at h <;> cases h
    rfl
  joinPath := by
    rw [hresolver]
    intro _ _ _ h
    cases h
  analyzer := by
    rw [hanalyzer]
    intro _ _ _ _ h
    cases h

/-! ## Dumps -/

namespace Query

/-- Drafts of one request that hold the same query look the same. -/
theorem Draft.dump_eq {request draft draft' : Draft} {root : Nat} {tree : Tree}
    (hdraft : draft = { request with arena := draft.arena })
    (hdraft' : draft' = { request with arena := draft'.arena }) (hroot : request.root = some root)
    (hsize : tree.size ≤ draft.arena.size) (hsize' : tree.size ≤ draft'.arena.size)
    (h : draft.arena.Holds root tree) (h' : draft'.arena.Holds root tree) : draft.dump = draft'.dump := by
  have harena : draft.arena.dump root = draft'.arena.dump root := h.dumpWithin_eq 1 h' hsize hsize'
  rw [hdraft, hdraft']
  simp only [Draft.dump, hroot, harena]

end Query

namespace Compile

variable {env : Environment} {others : Answers} {start p q : Progress} {root : Nat} {tree left : Tree}

/-! ## Breaking off -/

/-- **Breaking off** where a compilation can be taken up: all expansions stand outside of scopes, the last
one was scanned for the first time, and no expansion around it can take another name off its fields. -/
structure BreaksOff (p q : Progress) : Prop where
  free : ∀ r ∈ q.reports, r.scopeDepth = 0
  once : ∀ earlier r, q.reports = p.reports ++ (earlier ++ [r]) → ∀ r' ∈ earlier, r'.id ≠ r.id
  stripped : ∀ r, q.reports.getLast? = some r → ∀ x link generated, p.draft.arena.Below x r.id →
    (q.draft.arena.label x).kind = .expansion link generated →
      (q.draft.arena.treeAt x).stripped link.name = q.draft.arena.treeAt x

/-- Whether a compilation breaks off where it can be taken up, over links without names. -/
def breaksOffUnnamed (p q : Progress) : Bool :=
  let new := q.reports.drop p.reports.length
  q.reports.all (fun r => r.scopeDepth = 0) &&
    new.dropLast.all (fun r' => new.getLast?.all fun r => r'.id ≠ r.id) &&
    q.draft.arena.labels.all fun label => label.kind.link?.all fun link => link.name.isNone

/-- Names can only be taken off by links that have one. -/
theorem BreaksOff.of_unnamed (h : breaksOffUnnamed p q = true) : BreaksOff p q := by
  simp only [breaksOffUnnamed, Bool.and_eq_true, List.all_eq_true, decide_eq_true_eq] at h
  obtain ⟨⟨hfree, honce⟩, hunnamed⟩ := h
  refine ⟨hfree, fun earlier r hreports r' hr' => ?_, fun r _ x link generated _ hkind => ?_⟩
  · rw [hreports, List.drop_left, List.dropLast_concat, List.getLast?_concat] at honce
    simpa using honce r' hr'
  · have hlt := Arena.lt_size_of_isExpansion (show (q.draft.arena.label x).kind.isExpansion = true by
      rw [hkind]; rfl)
    have hnone := hunnamed _ (Arena.label_mem_labels hlt)
    rw [hkind] at hnone
    have hname : link.name = none := by simpa [Kind.link?] using hnone
    rw [hname]
    rfl

/-- Where a compilation breaks off, its course can be resumed. -/
theorem BreaksOff.resumable {events : List Event} (h : BreaksOff p q) (hasc : q.draft.arena.Ascending)
    (hafter : After root left events p q) : Resumable events left.subtree? := by
  have hplaced : ∀ {e e' : Event} {r r' : Report}, Reported p.draft.arena root e r →
      Reported p.draft.arena root e' r' → e'.path = e.path → r'.id = r.id := by
    intro e e' r r' hr hr' hpath
    exact Option.some.inj (hr'.id_eq.symm.trans (hpath ▸ hr.id_eq))
  refine ⟨fun e he => ?_, ?_, fun e he outer sub link generated hprefix hsub hkind => ?_⟩
  · obtain ⟨r, hr, hreported⟩ := hafter.noted.exists_report he
    rw [← hreported.scopeDepth_eq]
    exact h.free r hr
  · rintro earlier e rfl e' he' hpath
    obtain ⟨reports, r, hreports, hall, hr⟩ := hafter.noted.concat
    obtain ⟨r', hr', hreported⟩ := exists_of_forall₂ hall he'
    exact h.once reports r hreports r' hr' (hplaced hr hreported hpath)
  · obtain ⟨earlier, rfl⟩ := List.getLast?_eq_some_iff.mp he
    obtain ⟨reports, r, hreports, -, hr⟩ := hafter.noted.concat
    -- the expansion around has kept its place
    obtain ⟨x, hx, hheld⟩ := hafter.held.descend hsub
    have hplace := hafter.kept outer ⟨sub, hsub, by rw [hkind]; rfl⟩
    obtain ⟨inner, hinner⟩ := hprefix
    have hid := hr.id_eq
    rw [← hinner, Arena.descend_append, ← hplace, hx] at hid
    have hstripped := h.stripped r (by rw [hreports, ← List.append_assoc, List.getLast?_concat]) x link
      generated (Arena.below_of_descend hid) (by rw [hheld.label_eq, hkind])
    rwa [(hasc.holds_treeAt x).unique hheld] at hstripped

/-- Queries that are held in a draft without parent scopes have none. -/
theorem Stands.isParentless (h : Stands env start p) (hheld : p.draft.arena.Holds root left) :
    left.IsParentless := by
  intro label hlabel
  rw [← h.sound.ascending.labels_descendants hheld] at hlabel
  obtain ⟨x, -, rfl⟩ := List.mem_map.mp hlabel
  exact h.parentless x

/-! ## Halfway -/

/-- **Halfway** through a query: it has broken off any number of times, and with other answers what is left
of it is compiled to what the query itself is compiled to. -/
structure Halfway (env : Environment) (others : Answers) (start : Progress) (root : Nat)
    (tree left : Tree) (p : Progress) : Prop where
  stands : Stands env start p
  apart : AllApart env start p
  draft_eq : p.draft = { start.draft with arena := p.draft.arena }
  root_eq : start.draft.root = some root
  root_lt : root < p.draft.arena.size
  held : p.draft.arena.Holds root left
  whole : ∃ events, ∀ log log', visit env others start log tree =
    ⟨(visit env others start log' left).state, events ++ (visit env others start log' left).events,
      (visit env others start log' left).outcome⟩

namespace Halfway

/-- Compiling what is left takes its course. -/
theorem takes {P : Error → Prop} (hP : env.Reports P) (hexpansion : ∀ kind, P (.notAnExpansion kind))
    (h : Halfway env others start root tree left p) :
    Takes env P (rootQuery env) root (visit env env.executor.answers start p.scans left) p := by
  unfold Takes wp
  rw [exec_rootQuery (by rw [h.draft_eq]; exact h.root_eq)]
  exact nodeWithin_takes hP hexpansion _ _ _ _ _ h.stands h.apart h.root_lt h.held
    (h.stands.sound.ascending.size_le_depthBound h.root_lt h.held)

/-- Nothing has happened yet. -/
theorem refl (hstands : Stands env start start) (hapart : AllApart env start start)
    (hsteady : others.Steady) (hroot : start.draft.root = some root)
    (hlt : root < start.draft.arena.size) (hheld : start.draft.arena.Holds root tree) :
    Halfway env others start root tree tree start where
  stands := hstands
  apart := hapart
  draft_eq := rfl
  root_eq := hroot
  root_lt := hlt
  held := hheld
  whole := ⟨[], fun log log' => by
    rw [visit_steady hsteady, visit_steady hsteady start log', List.nil_append]⟩

section Going

variable (hagree : env.executor.answers.Agree others)

include hagree

/-- **A query that breaks off once more** is still halfway, and the expansion whose scan was not answered is
the first one to be scanned for again. -/
theorem broken (h : Halfway env others start root tree left p)
    (hquiet : env.Reports fun error => error.isRetriable = false) (hsteady : others.Steady) {error : Error}
    (hexec : exec (rootQuery env) p = (.error error, q)) (hretriable : error.isRetriable = true)
    (hbreaks : BreaksOff p q) :
    ∃ left' earlier e request, Halfway env others start root tree left' q ∧
      Noted root (earlier ++ [e]) p q ∧ e.resolution = .scan request ∧
      q.draft.arena.descend root e.path = p.draft.arena.descend root e.path ∧
      ∀ log, ∃ later, (visit env env.executor.answers start log left').events = e :: later := by
  obtain ⟨stop, hstop, hexplains, hpq, hafter⟩ :=
    (wp_of_error hexec).mp (h.takes hquiet fun _ => rfl)
  -- the error may be retried, so that it came from a scan and not from a refusal
  obtain ⟨answer, rfl⟩ : ∃ answer, stop = .unanswered answer := by
    cases stop with
    | refused => exact absurd (hretriable.symm.trans hexplains) (by simp)
    | unanswered answer => exact ⟨answer, rfl⟩
  have hstands := h.stands.evolve hpq
  have hresumes := visit_resumes hagree hsteady h.stands.faithful hstop
    (hbreaks.resumable hpq.sound.ascending hafter) (hstands.isParentless hafter.held)
  have hlast : ScansLast (visit env env.executor.answers start p.scans left) := visit_scansLast
  obtain ⟨e, request, he, hrequest⟩ := hlast answer hstop
  obtain ⟨earlier, hevents⟩ := List.getLast?_eq_some_iff.mp he
  have hagain : ∀ log, ∃ later, (visit env env.executor.answers start log
      (visit env env.executor.answers start p.scans left).state).events = e :: later := fun log =>
    List.head?_eq_some_iff.mp ((hresumes.again env.executor.answers log).trans he)
  obtain ⟨later, hlater⟩ := hagain []
  refine ⟨_, earlier, e, request, ⟨hstands, h.apart.evolve hpq, ?_, h.root_eq,
    Nat.lt_of_lt_of_le h.root_lt hpq.size_le, hafter.held, ?_⟩, hevents ▸ hafter.noted, hrequest, ?_, hagain⟩
  · rw [hpq.draft_eq, h.draft_eq]
  · obtain ⟨before, hbefore⟩ := h.whole
    refine ⟨before ++ (visit env env.executor.answers start p.scans left).events.dropLast, fun log log' => ?_⟩
    rw [hbefore log [], hresumes.whole [] log', List.append_assoc]
  · exact hafter.kept _ ((visit_within _).placed e (hlater ▸ List.mem_cons_self))

/-- **A query that succeeds in the end** gives what it would have given at once. -/
theorem succeeded (h : Halfway env others start root tree left p) {F : Fragment}
    (hexec : exec (rootQuery env) p = (.ok F, q)) :
    ∃ left', q.draft = { start.draft with arena := q.draft.arena } ∧ root < q.draft.arena.size ∧
      q.draft.arena.Ascending ∧ q.draft.arena.Holds root left' ∧
      (visit env others start [] tree).state = left' ∧ (visit env others start [] tree).outcome = .ok F := by
  obtain ⟨hok, hpq, hafter⟩ := (wp_of_ok hexec).mp (h.takes env.reports_any fun _ => trivial)
  have hsame : visit env others start p.scans left = visit env env.executor.answers start p.scans left :=
    visit_agrees env.executor hagree (Course.answered_of_ok hok)
  obtain ⟨events, hevents⟩ := h.whole
  refine ⟨_, ?_, Nat.lt_of_lt_of_le h.root_lt hpq.size_le, hpq.sound.ascending, hafter.held, ?_, ?_⟩
  · rw [hpq.draft_eq, h.draft_eq]
  · rw [hevents [] p.scans, hsame]
  · rw [hevents [] p.scans, hsame, hok]

end Going

end Halfway

end Compile

namespace Compiler

open Compile

variable {setup : Setup} {compiler fresh : Compiler}

/-- The compiler after its query was compiled some times, whatever came of it. -/
def requeried (compiler : Compiler) : Nat → Compiler
  | 0 => compiler
  | n + 1 => (compiler.requeried n).query.2

/-- **Interrupted**: the query of a compiler fails because of a scan, and breaks off where it can be taken
up. -/
structure Interrupted (compiler : Compiler) : Prop where
  failed : ∃ error, compiler.query.1 = .error error ∧ error.isRetriable = true
  breaksOff : BreaksOff compiler.progress compiler.query.2.progress

theorem requeried_environment (compiler : Compiler) (n : Nat) :
    (compiler.requeried n).environment = compiler.environment := by
  induction n with
  | zero => rfl
  | succ n ih => exact ih

/-- The computation of a query, and the state after it. -/
theorem exec_of_query {outcome : Except Error Fragment} (h : compiler.query.1 = outcome) :
    exec (rootQuery compiler.environment) compiler.progress = (outcome, compiler.query.2.progress) :=
  h ▸ rfl

/-- A compiler that is started with another executor. -/
theorem start_answeredBy {executor : Executor} (hstart : setup.start = .ok compiler)
    (hfresh : (setup.answeredBy executor).start = .ok fresh) :
    fresh.environment = compiler.environment.answeredBy executor ∧ fresh.progress = compiler.progress := by
  obtain ⟨resolver, _, md, md', hresolver, -, hmetadata, hassign, rfl⟩ := Setup.start_eq_ok.mp hstart
  obtain ⟨_, _, _, _, hresolver', hexecutor', hmetadata', hassign', rfl⟩ := Setup.start_eq_ok.mp hfresh
  obtain rfl := Option.some.inj (hresolver.symm.trans hresolver')
  obtain rfl := Option.some.inj hexecutor'
  obtain rfl := Except.ok.inj (hmetadata.symm.trans hmetadata')
  obtain ⟨-, rfl⟩ := Prod.mk.inj (hassign.symm.trans hassign')
  exact ⟨rfl, rfl⟩

/-- **Interrupted queries** leave a compiler halfway, however many of them there are. -/
theorem requeried_halfway {others : Answers} {root : Nat} {tree : Tree}
    (hquiet : compiler.environment.Reports fun error => error.isRetriable = false)
    (hagree : compiler.environment.executor.answers.Agree others) (hsteady : others.Steady)
    (h : Halfway compiler.environment others compiler.progress root tree tree compiler.progress) (n : Nat)
    (hinterrupted : ∀ i < n, (compiler.requeried i).Interrupted) :
    ∃ left, Halfway compiler.environment others compiler.progress root tree left
      (compiler.requeried n).progress := by
  induction n with
  | zero => exact ⟨tree, h⟩
  | succ n ih =>
    obtain ⟨left, hleft⟩ := ih fun i hi => hinterrupted i (Nat.lt_succ_of_lt hi)
    obtain ⟨⟨error, herror, hretriable⟩, hbreaks⟩ := hinterrupted n (Nat.lt_succ_self n)
    have hexec := exec_of_query herror
    rw [requeried_environment] at hexec
    obtain ⟨left', -, -, -, hleft', -⟩ := hleft.broken hagree hquiet hsteady hexec hretriable hbreaks
    exact ⟨left', hleft'⟩

/-- Without a query, nothing fails. -/
theorem exists_of_failed (h : setup.Started compiler) {error : Error}
    (hfailed : compiler.query.1 = .error error) : ∃ tree, setup.request.query = some tree := by
  cases hquery : setup.request.query with
  | some tree => exact ⟨tree, rfl⟩
  | none =>
    obtain ⟨md, hprogress⟩ := h.progress_eq
    have hexec := exec_of_query hfailed
    rw [exec_rootQuery_none (by rw [hprogress]; exact (setup.request.draft_fresh.rootless hquery).1)] at hexec
    exact absurd (congrArg Prod.fst hexec) (by simp)

/-- A started compiler is halfway. -/
theorem halfway_of_started {others : Answers} {tree : Tree} (h : setup.Started compiler)
    (hsteady : others.Steady)
    (hparentless : ∀ i, (compiler.progress.draft.arena.label i).kind.isParent = false)
    (hapart : AllApart compiler.environment compiler.progress compiler.progress)
    (htree : setup.request.query = some tree) :
    ∃ root, Halfway compiler.environment others compiler.progress root tree tree compiler.progress := by
  obtain ⟨root, hheld, hroot, hspared⟩ := spared_of_started h hparentless htree
  exact ⟨root, .refl hspared.stands hapart hsteady hroot hspared.root_lt hheld⟩

/-- **A course that succeeds** is taken by a query that succeeds. -/
theorem query_of_course {others : Answers} {root : Nat} {tree left : Tree} {F : Fragment}
    (h : Halfway compiler.environment others compiler.progress root tree left compiler.progress)
    (hok : (visit compiler.environment compiler.environment.executor.answers compiler.progress
      compiler.progress.scans left).outcome = .ok F) : compiler.query.1 = .ok F := by
  rcases run_spec (h.takes (Environment.reports_any _) fun _ => trivial) with
    ⟨F', hF', hok', -⟩ | ⟨_, -, _, herror, -⟩
  · obtain rfl := Except.ok.inj (hok'.symm.trans hok)
    exact hF'
  · exact absurd (herror.symm.trans hok) (by simp)

/-- **An interrupted query is resumed.** After a query was interrupted, any number of times in a row, the
next one first of all requests the scan that was not answered, for the same expansion; and if it succeeds,
its fragment and the dump are those of a compiler whose executor has answered at once. Parent scopes and
joins of primary keys that may be sent to a single index are left out. -/
theorem requeried_resumes {executor : Executor} (hstart : setup.start = .ok compiler)
    (hfresh : (setup.answeredBy executor).start = .ok fresh)
    (hquiet : compiler.environment.Reports fun error => error.isRetriable = false)
    (hagree : compiler.environment.executor.answers.Agree executor.answers)
    (hsteady : executor.answers.Steady)
    (hparentless : ∀ i, (compiler.progress.draft.arena.label i).kind.isParent = false)
    (hapart : AllApart compiler.environment compiler.progress compiler.progress) (n : Nat)
    (hinterrupted : ∀ i ≤ n, (compiler.requeried i).Interrupted) :
    (∃ r request r' reports scans,
      (compiler.requeried (n + 1)).reports.getLast? = some r ∧ r.resolution = .scan request ∧
      (compiler.requeried (n + 1)).scans.getLast? = some request ∧
      (compiler.requeried (n + 2)).reports = (compiler.requeried (n + 1)).reports ++ r' :: reports ∧
      (compiler.requeried (n + 2)).scans = (compiler.requeried (n + 1)).scans ++ request :: scans ∧
      r'.id = r.id ∧ r'.resolution = .scan request) ∧
    ∀ F, (compiler.requeried (n + 1)).query.1 = .ok F →
      fresh.query.1 = .ok F ∧ fresh.query.2.dump = (compiler.requeried (n + 2)).dump := by
  obtain ⟨⟨error₀, herror₀, -⟩, -⟩ := hinterrupted 0 (Nat.zero_le n)
  have hstarted := Setup.started_of_ok hstart
  obtain ⟨tree, htree⟩ := exists_of_failed hstarted herror₀
  obtain ⟨root, hzero⟩ := halfway_of_started hstarted hsteady hparentless hapart htree
  obtain ⟨left, hleft⟩ := requeried_halfway hquiet hagree hsteady hzero n fun i hi =>
    hinterrupted i (Nat.le_of_lt hi)
  obtain ⟨⟨error, herror, hretriable⟩, hbreaks⟩ := hinterrupted n (Nat.le_refl n)
  have hexec := exec_of_query herror
  rw [requeried_environment] at hexec
  obtain ⟨left', earlier, e, request, hhalfway, hnoted, hrequest, hplace, hagain⟩ :=
    hleft.broken hagree hquiet hsteady hexec hretriable hbreaks
  constructor
  · obtain ⟨r, hr, hreported⟩ := hnoted.getLast_reports
    obtain ⟨later, hlater⟩ := hagain (compiler.requeried (n + 1)).scans
    -- the next query notes the same event first, whether it succeeds or not
    have hnext : wp (rootQuery compiler.environment)
        (fun _ q => Noted root (e :: later) (compiler.requeried (n + 1)).progress q)
        (fun _ q => Noted root (e :: later) (compiler.requeried (n + 1)).progress q)
        (compiler.requeried (n + 1)).progress :=
      hlater ▸ wp_mono (hhalfway.takes (Environment.reports_any _) fun _ => trivial)
        (fun _ _ h => h.2.2.noted) fun _ _ ⟨_, _, _, _, hafter⟩ => hafter.noted
    have hnoted' : Noted root (e :: later) (compiler.requeried (n + 1)).progress
        (compiler.requeried (n + 2)).progress := by
      have henv := requeried_environment compiler (n + 1)
      rw [← henv] at hnext
      rcases run_spec hnext with ⟨_, -, h⟩ | ⟨_, -, h⟩ <;> exact h
    obtain ⟨⟨reports, hreports, hall⟩, hscans⟩ := hnoted'
    obtain ⟨r', reports', hr', -, rfl⟩ := List.forall₂_cons_left_iff.mp hall
    refine ⟨r, request, r', reports', requests later, hr, hreported.resolution_eq.trans hrequest,
      hnoted.getLast_scans hrequest, hreports, ?_, ?_, hr'.resolution_eq.trans hrequest⟩
    · have hfirst : requests (e :: later) = request :: requests later := by
        simp [requests, hrequest, Resolution.request?]
      exact hscans.trans (by rw [hfirst]; rfl)
    · exact Option.some.inj (hr'.id_eq.symm.trans (hplace.trans hreported.id_eq))
  · intro F hF
    have hexec' := exec_of_query hF
    rw [requeried_environment] at hexec'
    obtain ⟨result, hdraft, hlt, hasc, hheld, hstate, hok⟩ := hhalfway.succeeded hagree hexec'
    -- the fresh compiler takes the whole course
    obtain ⟨henv, hprogress⟩ := start_answeredBy hstart hfresh
    have hexecutor : fresh.environment.executor = executor := by rw [henv]; rfl
    obtain ⟨root', hfirst⟩ : ∃ root, Halfway fresh.environment executor.answers fresh.progress root tree tree
        fresh.progress :=
      halfway_of_started (Setup.started_of_ok hfresh) hsteady (hprogress ▸ hparentless)
        (by rw [henv, hprogress]; exact hapart) htree
    obtain rfl : root' = root := Option.some.inj (hfirst.root_eq.symm.trans (hprogress ▸ hzero.root_eq))
    have hself : executor.answers.Agree executor.answers := fun log log' request found hfound => by
      rw [hsteady] at hfound ⊢
      exact hfound
    have hsame : ∀ log, visit fresh.environment executor.answers fresh.progress log tree =
        visit compiler.environment executor.answers compiler.progress [] tree := by
      intro log
      rw [henv, hprogress]
      exact visit_agrees executor hself (Course.answered_of_ok hok)
    have hquery : fresh.query.1 = .ok F := query_of_course hfirst (by rw [hexecutor, hsame, hok])
    obtain ⟨_, hdraft', hlt', hasc', hheld', hstate', -⟩ :=
      hfirst.succeeded (hexecutor ▸ hself) (exec_of_query hquery)
    rw [hsame, hstate] at hstate'
    subst hstate'
    exact ⟨hquery, Draft.dump_eq (hprogress ▸ hdraft') hdraft hzero.root_eq
      (hasc'.size_le_of_holds hlt' hheld') (hasc.size_le_of_holds hlt hheld) hheld' hheld⟩

/-- Books by authors, found by a condition on other books by authors, where some scans are not answered:
those before which a number of scans was requested that `fails` says. -/
def flakySearch (fails : Nat → Bool) : Setup :=
  { authorSearch fun x y => .conjunction [x, .child "t" [y]] with
    settings := { allowSingleIndex := false }
    executor := some (booksAndAuthors.executor.failing fails [⟨"authors", 0, "boom"⟩]) }

/-- The condition on other books is interrupted twice, after one of its two expansions is resolved. -/
theorem requeried_resumes_flakySearch : ∃ compiler fresh F,
    (flakySearch fun scans => scans = 1 ∨ scans = 2).start = .ok compiler ∧
      ((flakySearch fun scans => scans = 1 ∨ scans = 2).answeredBy booksAndAuthors.executor).start =
        .ok fresh ∧
      (compiler.requeried 2).query.1 = .ok F ∧ fresh.query.1 = .ok F ∧
      fresh.query.2.dump = (compiler.requeried 3).dump := by
  have hrun : ((flakySearch fun scans => scans = 1 ∨ scans = 2).start.toOption.any fun compiler =>
      (((flakySearch fun scans => scans = 1 ∨ scans = 2).answeredBy
        booksAndAuthors.executor).start.toOption.any fun _ => true) &&
      decide (compiler.environment.settings.allowSingleIndex = false) &&
      compiler.progress.draft.arena.labels.all (fun label => !label.kind.isParent) &&
      ((List.range 2).all fun i =>
        (match (compiler.requeried i).query.1 with
          | .error error => error.isRetriable
          | .ok _ => false) &&
        breaksOffUnnamed (compiler.requeried i).progress (compiler.requeried i).query.2.progress) &&
      (compiler.requeried 2).query.1.toOption.any fun _ => true) = true := by
    decide +kernel
  simp only [Option.any_eq_true, toOption_eq_some, Bool.and_eq_true, decide_eq_true_eq,
    List.all_eq_true, Bool.not_eq_true', and_true] at hrun
  obtain ⟨compiler, hstart, ⟨⟨⟨⟨fresh, hfresh⟩, hsingle⟩, hlabels⟩, hinterrupted⟩, F, hF⟩ := hrun
  have hstarted := Setup.started_of_ok hstart
  have hexecutor : compiler.environment.executor =
      booksAndAuthors.executor.failing (fun scans => scans = 1 ∨ scans = 2) [⟨"authors", 0, "boom"⟩] :=
    (Option.some.inj hstarted.executor_eq).symm
  have hsteady : booksAndAuthors.executor.answers.Steady := fun _ _ => rfl
  have hquiet := booksAndAuthors.reports_unretriable ((flakySearch fun scans =>
      scans = 1 ∨ scans = 2).settings.tokenizer) (Option.some.inj hstarted.resolver_eq).symm
    hstarted.analyzer_eq
  obtain ⟨-, hsame⟩ := requeried_resumes hstart hfresh hquiet
    (hexecutor ▸ Executor.failing_agree hsteady _ _) hsteady
    (fun i => by
      by_cases hi : i < compiler.progress.draft.arena.size
      · exact hlabels _ (Arena.label_mem_labels hi)
      · rw [Arena.label_of_size_le (Nat.le_of_not_lt hi)]
        rfl)
    (.of_split hsingle) 1 fun i hi => by
      obtain ⟨hfailed, hbreaks⟩ := hinterrupted i (List.mem_range.mpr (Nat.lt_succ_of_le hi))
      refine ⟨?_, .of_unnamed hbreaks⟩
      split at hfailed
      · next error herror => exact ⟨error, herror, hfailed⟩
      · exact absurd hfailed (by simp)
  exact ⟨compiler, fresh, F, hstart, hfresh, hF, hsame F hF⟩

/-- Books and the authors with the same key, found by a script, where no scan is answered. -/
def scriptSearch : Setup where
  index := "books"
  request := {
    links := [.unnamed "id" "authors" "id"]
    query := some (.expansion (.unnamed "id" "authors" "id") (.script "s")) }
  resolver := some booksAndAuthors.resolver
  executor := some (booksAndAuthors.executor.failing (fun _ => true) [⟨"authors", 0, "boom"⟩])

/-- **Between primary keys**, a scan that is not answered leaves one index more in use, so that the script
takes the place of the expansion where the authors would have been scanned again. -/
theorem not_resumed_scriptSearch : ∃ compiler fresh error F G,
    scriptSearch.start = .ok compiler ∧
      (scriptSearch.answeredBy booksAndAuthors.executor).start = .ok fresh ∧
      compiler.query.1 = .error error ∧ error.isRetriable = true ∧ compiler.query.2.scans.length = 1 ∧
      compiler.query.2.query.1 = .ok F ∧ compiler.query.2.query.2.scans.length = 1 ∧
      fresh.query.1 = .ok G ∧ F ≠ G := by
  have hrun : (scriptSearch.start.toOption.any fun compiler =>
      (scriptSearch.answeredBy booksAndAuthors.executor).start.toOption.any fun fresh =>
        (match compiler.query.1 with
          | .error error => error.isRetriable
          | .ok _ => false) &&
        decide (compiler.query.2.scans.length = 1) &&
        decide (compiler.query.2.query.2.scans.length = 1) &&
        compiler.query.2.query.1.toOption.any fun F => fresh.query.1.toOption.any fun G =>
          decide (F.kind ≠ G.kind)) = true := by
    decide +kernel
  simp only [Option.any_eq_true, toOption_eq_some, Bool.and_eq_true, decide_eq_true_eq] at hrun
  obtain ⟨compiler, hstart, fresh, hfresh, ⟨⟨hfailed, hscans⟩, hscans'⟩, F, hF, G, hG, hne⟩ := hrun
  split at hfailed
  · next error herror =>
    exact ⟨compiler, fresh, error, F, G, hstart, hfresh, herror, hfailed, hscans, hF, hscans', hG,
      fun heq => hne (heq ▸ rfl)⟩
  · exact absurd hfailed (by simp)

end Compiler

end LinkedSearch
