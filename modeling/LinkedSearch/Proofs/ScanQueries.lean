import LinkedSearch.Proofs.Arena.Holding
import LinkedSearch.Proofs.ScanBound
import LinkedSearch.Proofs.Telling

/-! # The query of a scan

The query of an expansion is compiled in the course of a query on another index, whose fields come
first. So a scan need not ask for what the linked index itself would be asked for:

* `Setup.alone`: the query of an expansion as a request of its own, on the linked index.
* `Compiler.holding`: the compiler that scans, with the query of the expansion for its own.
* `Compiler.Compiles`: a scan asks for what a compiler compiles its query to.
* `scanQuery_alone`: what a scan asks for, and when this is the query alone. -/


namespace LinkedSearch

open Query (Arena Kind Label NodeId Request Tree)
open Schema (Mapping)

namespace Metadata

variable {resolver : Resolver} {md : Metadata}

/-- Without links every field belongs to the index itself. -/
theorem owner_of_unlinked (hlinks : md.links = []) (horigin : md.origin = md.primary)
    {mapping : Mapping} (hmapping : resolver.mapping md.primary.index = .ok mapping)
    (field : String) : md.owner resolver field = .ok md.primary := by
  have hnamed : md.namedLink? field = none := by
    unfold namedLink? linkNamed?
    rw [hlinks]
    cases splitTextFirst? '.' field <;> rfl
  have hothers : md.others = [] := by
    rw [others, hlinks, if_pos horigin]
    rfl
  unfold owner
  rw [hnamed, hothers]
  by_cases hfield : mapping.hasField field = true <;> simp [firstOwner, hmapping, hfield]

end Metadata

/-! ## The query alone -/

/-- A query as a request of its own. -/
def Query.Tree.request (tree : Tree) (arrayData : List (String × String)) : Request :=
  { query := some tree, arrayData }

/-- **Alone**: a query on an index of its own, without links. -/
def Setup.alone (setup : Setup) (index : String) (query : Tree) : Setup :=
  { setup with index, request := query.request setup.request.arrayData }

/-- A request on an index with a mapping can be started, and all fields belong to that index. -/
theorem Setup.Started.start_alone {setup : Setup} {compiler : Compiler} (h : setup.Started compiler)
    {index : String} {mapping : Mapping}
    (hmapping : compiler.environment.resolver.mapping index = .ok mapping) (query : Tree) :
    ∃ alone, (setup.alone index query).start = .ok alone ∧
      alone.environment = compiler.environment ∧
      ∀ field, alone.progress.metadata.ownerMapping compiler.environment.resolver field =
        .ok mapping := by
  have hopened : Metadata.start compiler.environment.resolver (setup.alone index query).index
      (setup.alone index query).request.links = .ok (Metadata.opened mapping index []) := by
    show Metadata.start compiler.environment.resolver index [] = _
    unfold Metadata.start
    rw [hmapping]
    rfl
  have howner : ∀ field, (Metadata.opened mapping index []).owner compiler.environment.resolver
      field = .ok (Metadata.selfLink mapping index) :=
    Metadata.owner_of_unlinked rfl rfl hmapping
  -- nothing is aggregated, so the fields are only recorded
  obtain ⟨outcome, md, hexec, hgrows, hok⟩ := exec_recordOwners
    (setup.alone index query).request.draft.fieldNames (Metadata.opened_faithful hmapping [])
  obtain rfl := hok fun field => ⟨_, howner field⟩
  have hassign : (assignFields compiler.environment.resolver (Query.Request.subjectField?
      (setup.alone index query).request.aggregate (setup.alone index query).request.suggestion)
      (setup.alone index query).request.draft.fieldNames).run (Metadata.opened mapping index []) =
        (.ok (), md) := hexec
  refine ⟨{
    environment := compiler.environment
    progress := { draft := (setup.alone index query).request.draft, metadata := md } }, ?_, rfl, ?_⟩
  · have hresolver : (setup.alone index query).resolver = some compiler.environment.resolver :=
      h.resolver_eq
    have hexecutor : (setup.alone index query).executor = some compiler.environment.executor :=
      h.executor_eq
    have hanalyzer : (setup.alone index query).analyzer.getD
        (setup.alone index query).settings.tokenizer.analyzer = compiler.environment.analyzer :=
      h.analyzer_eq.symm
    have hsettings : (setup.alone index query).settings = compiler.environment.settings :=
      h.settings_eq.symm
    unfold Setup.start
    rw [hresolver, hexecutor]
    simp only [bind, Except.bind, hopened, hassign]
    rw [hanalyzer, hsettings]
    rfl
  · intro field
    show md.ownerMapping compiler.environment.resolver field = .ok mapping
    rw [hgrows.ownerMapping_eq, Metadata.ownerMapping, howner]
    exact hmapping

/-! ## Fresh queries -/

namespace Compiler

open Compile

variable {setup : Setup} {compiler : Compiler}

/-- **Holding**: a compiler with another query for its own, inside of scopes. -/
def holding (compiler : Compiler) (query : Tree) (scopeDepth : Nat) (scopePath : Option String) :
    Compiler :=
  { compiler with
    progress := { compiler.progress with
      draft := (query.request compiler.progress.draft.arrayData).draft, scopeDepth, scopePath } }

/-- The request of a scan asks for what a compiler compiles its query to. -/
def Compiles (compiler : Compiler) (request : ScanRequest) : Prop :=
  ∃ fragment, compiler.query.1 = .ok fragment ∧ request.query = .constantScore fragment none

/-- **Asking** for a fresh query, outside of aggregates. -/
structure Asks (compiler : Compiler) (tree : Tree) (arrayData : List (String × String)) : Prop where
  draft_eq : compiler.progress.draft = (tree.request arrayData).draft
  sound : Sound compiler.environment compiler.progress
  aggregating_eq : compiler.progress.aggregating = false

theorem Idle.holding_asks (h : compiler.Idle) (query : Tree) (scopeDepth : Nat)
    (scopePath : Option String) :
    (compiler.holding query scopeDepth scopePath).Asks query compiler.progress.draft.arrayData where
  draft_eq := rfl
  sound := ⟨(query.request _).draft_fresh.ascending, h.sound.faithful⟩
  aggregating_eq := h.aggregating_eq

theorem asks_of_alone {index : String} {query : Tree}
    (h : (setup.alone index query).start = .ok compiler) :
    compiler.Asks query setup.request.arrayData := by
  have hstarted := Setup.started_of_ok h
  obtain ⟨md, hprogress⟩ := hstarted.progress_eq
  exact ⟨by rw [hprogress]; rfl, hstarted.sound, by rw [hprogress]⟩

namespace Asks

variable {other : Compiler} {tree : Tree} {arrayData arrayData' : List (String × String)}
  {F : Fragment}

/-- A fresh query is compiled at its root, which holds it, and as deep as the query is. -/
theorem exists_root (h : compiler.Asks tree arrayData) :
    ∃ root : Nat, compiler.query.1 = (exec (nodeWithin compiler.environment
        (depthBound compiler.progress.draft.arena.size) root) compiler.progress).1 ∧
      compiler.progress.draft.arena.Holds root tree ∧
      root < compiler.progress.draft.arena.size ∧
      tree.size ≤ depthBound compiler.progress.draft.arena.size := by
  obtain ⟨root, hroot, hinserted, -⟩ :=
    (tree.request arrayData).draft_fresh.rooted tree rfl
  rw [← h.draft_eq] at hroot hinserted
  have hlt : root < compiler.progress.draft.arena.size := by
    rw [hinserted.id_eq]
    exact hinserted.size_lt
  refine ⟨root, ?_, hinserted.holds, hlt,
    h.sound.ascending.size_le_depthBound hlt hinserted.holds⟩
  rw [← exec_rootQuery hroot]
  rfl

/-- A fresh query is compiled to what a state that compiles it alike has compiled it to. -/
theorem query_of_alike (h : compiler.Asks tree arrayData) {s t : Progress} {fuel n : Nat}
    (hs : Sound compiler.environment s) (haggregating : s.aggregating = false)
    (hn : s.draft.arena.Holds n tree) (hnlt : n < s.draft.arena.size)
    (hlocal : ∀ label ∈ tree.preorder, label.kind.isExpansion = false)
    (halike : Alike compiler.environment s compiler.progress tree)
    (hexec : exec (nodeWithin compiler.environment fuel n) s = (.ok F, t)) :
    compiler.query.1 = .ok F := by
  obtain ⟨root, hquery, hroot, hrootlt, hsize⟩ := h.exists_root
  obtain ⟨t', hexec', -, -⟩ := nodeWithin_follows fuel
    (h.aggregating_eq.trans haggregating.symm) hs h.sound hn hroot hnlt hrootlt hlocal halike hsize
    _ _ (.refl _) (.refl _) F t hexec
  rw [hquery, hexec']

/-- Two compilers that compile a query alike give the same fragment. -/
theorem query_eq (h : compiler.Asks tree arrayData) (h' : other.Asks tree arrayData')
    (henv : other.environment = compiler.environment)
    (hlocal : ∀ label ∈ tree.preorder, label.kind.isExpansion = false)
    (halike : Alike compiler.environment compiler.progress other.progress tree)
    (hquery : compiler.query.1 = .ok F) : other.query.1 = .ok F := by
  obtain ⟨root, hroot, hheld, hlt, -⟩ := h.exists_root
  have hexec : exec (nodeWithin compiler.environment
      (depthBound compiler.progress.draft.arena.size) root) compiler.progress = (.ok F, _) :=
    Prod.ext (hroot.symm.trans hquery) rfl
  rw [← henv] at hexec
  exact h'.query_of_alike (henv ▸ h.sound) h.aggregating_eq hheld hlt hlocal (henv ▸ halike) hexec

/-- Two compilers give the same fragment for a plain query if and only if they do so for each of its
predicates. -/
theorem query_eq_iff (h : compiler.Asks tree arrayData) (h' : other.Asks tree arrayData')
    (henv : other.environment = compiler.environment)
    (hlocal : ∀ label ∈ tree.preorder, label.kind.isExpansion = false) (hplain : tree.IsPlain)
    (hquery : compiler.query.1 = .ok F) :
    other.query.1 = compiler.query.1 ↔ ∀ label ∈ tree.predicates,
      (exec (predicate compiler.environment label) compiler.progress).1 =
        (exec (predicate other.environment label) other.progress).1 := by
  rw [henv]
  constructor
  · intro hsame
    obtain ⟨root, hroot, hheld, -, -⟩ := h.exists_root
    obtain ⟨root', hroot', hheld', -, -⟩ := h'.exists_root
    rw [henv] at hroot'
    exact (nodeWithin_tells h.sound (henv ▸ h'.sound) h.aggregating_eq h'.aggregating_eq _ hheld
      hheld' hplain _ _ (.refl _) (.refl _) F _ _ (Prod.ext (hroot.symm.trans hquery) rfl)
      (Prod.ext (hroot'.symm.trans (hsame.trans hquery)) rfl)).1
  · intro hsame
    rw [hquery]
    exact h.query_eq h' henv hlocal (.inr ⟨hplain, hsame⟩) hquery

end Asks

/-! ## Requests of scans -/

/-- A scan asks for what the compiler itself would be asked for, had it the query of the expansion for
its own. -/
theorem holding_compiles (hstart : setup.start = .ok compiler) (calls : List Call) {r : Report}
    (hr : r ∈ (compiler.after calls).reports) {request : ScanRequest}
    (hscan : r.resolution = .scan request)
    (hlocal : ∀ label ∈ r.query.preorder, label.kind.isExpansion = false) :
    ∃ scopePath, (compiler.holding r.query r.scopeDepth scopePath).Compiles request := by
  have hstarted := Setup.started_of_ok hstart
  have hidle := idle_of_started hstarted
  have hevolves := after_evolves hidle calls
  have hgenuine := genuine_of_mem_reports hstarted calls hr
  unfold Report.Genuine at hgenuine
  rw [hscan] at hgenuine
  -- a genuine report tells in which state its filter was compiled
  obtain ⟨-, -, s, t, fuel, n, F, hs, hfilter, hdepth, hdata, horigin, hprimary, hlinks, hn, htree,
    hexec, hrequest⟩ := hgenuine
  have hasks := hidle.holding_asks r.query r.scopeDepth s.scopePath
  refine ⟨s.scopePath, F, hasks.query_of_alike hs hfilter ?_ hn hlocal (.inl ⟨?_, ?_⟩) hexec,
    hrequest⟩
  · rw [← htree]
    exact hs.ascending.holds_treeAt n
  · refine ⟨hs.faithful, hasks.sound.faithful, hasks.aggregating_eq.trans hfilter.symm, hdepth.symm,
      .inr rfl, ?_⟩
    rw [hdata, hevolves.arrayData_eq]
    rfl
  · -- the state in which the scan was prepared knows the same links as the compiler at its start
    intro label _ _
    have howner : compiler.progress.metadata.owner compiler.environment.resolver label.fieldName =
        s.metadata.owner compiler.environment.resolver label.fieldName :=
      Metadata.owner_congr (by rw [horigin, hevolves.grows.origin_eq])
        (by rw [hprimary, hevolves.grows.primary_eq]) (by rw [hlinks, hevolves.grows.links_eq]) _
    have hfacts : compiler.progress.metadata.factsOf compiler.environment.resolver label.fieldName =
        s.metadata.factsOf compiler.environment.resolver label.fieldName := by
      unfold Metadata.factsOf Metadata.ownerMapping
      rw [howner]
    exact congrArg _ hfacts

/-- **The query of a scan**, compared with the query of its expansion alone on the linked index.

A scan asks for what the compiler itself would be asked for, had it the query of the expansion for its
own. This is the query alone if both find the same facts about the fields, as far as the predicates
consult them; and a query of connectives and predicates is compiled to the same fragment if and only
if each of its predicates is. -/
theorem scanQuery_alone (hstart : setup.start = .ok compiler) (calls : List Call) {r : Report}
    (hr : r ∈ (compiler.after calls).reports) {request : ScanRequest}
    (hscan : r.resolution = .scan request)
    (hlocal : ∀ label ∈ r.query.preorder, label.kind.isExpansion = false) :
    ∃ mapping alone scopePath, request ∈ (compiler.after calls).scans ∧
      compiler.environment.resolver.mapping request.index = .ok mapping ∧
      request.index = r.link.index ∧ (setup.alone request.index r.query).start = .ok alone ∧
      (compiler.holding r.query r.scopeDepth scopePath).Compiles request ∧
      (alone.Compiles request ↔
        alone.query.1 = (compiler.holding r.query r.scopeDepth scopePath).query.1) ∧
      (r.scopeDepth = 0 → (∀ label ∈ r.query.preorder, label.kind.isLeaf = true →
          (compiler.progress.metadata.factsOf compiler.environment.resolver label.fieldName).map
            label.consulted = .ok (label.consulted (mapping.facts label.fieldName))) →
        alone.Compiles request) ∧
      (r.query.IsPlain → (alone.Compiles request ↔ ∀ label ∈ r.query.predicates,
        (exec (predicate compiler.environment label)
          (compiler.holding r.query r.scopeDepth scopePath).progress).1 =
        (exec (predicate alone.environment label) alone.progress).1)) := by
  have hstarted := Setup.started_of_ok hstart
  have hgenuine := genuine_of_mem_reports hstarted calls hr
  unfold Report.Genuine at hgenuine
  rw [hscan] at hgenuine
  obtain ⟨hindex, ⟨mapping, hmapping⟩, -⟩ := hgenuine
  rw [← hindex] at hmapping
  obtain ⟨alone, halone, henv, howner⟩ := hstarted.start_alone hmapping r.query
  obtain ⟨scopePath, F, hquery, hrequest⟩ := holding_compiles hstart calls hr hscan hlocal
  have hasks := (idle_of_started hstarted).holding_asks r.query r.scopeDepth scopePath
  have hasks' := asks_of_alone halone
  have hiff : alone.Compiles request ↔
      alone.query.1 = (compiler.holding r.query r.scopeDepth scopePath).query.1 := by
    constructor
    · rintro ⟨G, hG, hrequest'⟩
      obtain rfl : F = G := by simpa using hrequest.symm.trans hrequest'
      rw [hG, hquery]
    · exact fun h => ⟨F, h.trans hquery, hrequest⟩
  have hmem : request ∈ (compiler.after calls).scans := by
    rw [scans_eq_requests hstarted]
    exact List.mem_filterMap.mpr ⟨r, hr, by rw [hscan]; rfl⟩
  refine ⟨mapping, alone, scopePath, hmem, hmapping, hindex, halone, ⟨F, hquery, hrequest⟩, hiff, ?_, ?_⟩
  · intro hdepth hfacts
    refine ⟨F, hasks.query_eq hasks' henv hlocal (.inl ⟨?_, fun label hl hleaf => ?_⟩) hquery,
      hrequest⟩
    · obtain ⟨md, hprogress⟩ := hstarted.progress_eq
      obtain ⟨md', hprogress'⟩ := (Setup.started_of_ok halone).progress_eq
      refine ⟨hasks.sound.faithful, henv ▸ hasks'.sound.faithful,
        hasks'.aggregating_eq.trans hasks.aggregating_eq.symm, ?_, .inl hdepth, ?_⟩
      · show alone.progress.scopeDepth = r.scopeDepth
        rw [hprogress', hdepth]
      · show alone.progress.draft.arrayData = compiler.progress.draft.arrayData
        rw [hprogress, hprogress']
        rfl
    · have halike : (alone.progress.metadata.factsOf compiler.environment.resolver
          label.fieldName).map label.consulted =
          .ok (label.consulted (mapping.facts label.fieldName)) := by
        rw [Metadata.factsOf, howner]
        rfl
      exact halike.trans (hfacts label hl hleaf).symm
  · intro hplain
    rw [hiff]
    exact hasks.query_eq_iff hasks' henv hlocal hplain hquery

/-- Books by an author with a tag, where books have tags of their own, nested or not. -/
def tagSearch (nestedPath : Option String) : Setup where
  index := "books"
  request := { query := some (.expansion (.unnamed "author" "authors" "id")
    (.word "tag" (.str "x"))) }
  resolver := some (Cluster.resolver { mappings := [
    ("authors", (Mapping.keyed "authors" "id").withField "tag" { type := .keyword none }),
    ("books", ((Mapping.keyed "books" "id").withField "author" { type := .long }).withField "tag"
      { type := .keyword none, nestedPath })] })
  executor := some (Cluster.executor { documents := [("authors", [])] })

/-- Whether the compiler finds the facts about a field that the mapping of an index states, as far as a
predicate consults them. -/
def findsFacts (compiler : Compiler) (index : String) (label : Label) : Bool :=
  match compiler.environment.resolver.mapping index,
    compiler.progress.metadata.factsOf compiler.environment.resolver label.fieldName with
  | .ok mapping, .ok facts =>
    decide (label.consulted facts = label.consulted (mapping.facts label.fieldName))
  | _, _ => false

theorem findsFacts_iff {index : String} {mapping : Mapping} {label : Label}
    (hmapping : compiler.environment.resolver.mapping index = .ok mapping) :
    compiler.findsFacts index label = true ↔
      (compiler.progress.metadata.factsOf compiler.environment.resolver label.fieldName).map
        label.consulted = .ok (label.consulted (mapping.facts label.fieldName)) := by
  unfold findsFacts
  rw [hmapping]
  cases compiler.progress.metadata.factsOf compiler.environment.resolver label.fieldName with
  | error error => simp [Except.map]
  | ok facts => simp [Except.map]

/-- Tags that are not nested are looked for as the authors alone would be asked for them. -/
theorem scanQuery_alone_tagSearch : ∃ compiler r request alone,
    (tagSearch none).start = .ok compiler ∧ r ∈ (compiler.after [.query]).reports ∧
      r.resolution = .scan request ∧
      ((tagSearch none).alone request.index r.query).start = .ok alone ∧ alone.Compiles request := by
  have hrun : ((tagSearch none).start.toOption.any fun compiler =>
      (compiler.after [.query]).reports.any fun r => r.resolution.request?.any fun request =>
        decide (r.scopeDepth = 0) && r.query.preorder.all fun label =>
          !label.kind.isExpansion && compiler.findsFacts request.index label) = true := by
    decide +kernel
  simp only [Option.any_eq_true, toOption_eq_some, List.any_eq_true, Bool.and_eq_true,
    decide_eq_true_eq, List.all_eq_true, Bool.not_eq_true'] at hrun
  obtain ⟨compiler, hstart, r, hr, request, hrequest, hdepth, hlabels⟩ := hrun
  have hscan := Resolution.request?_eq_some.mp hrequest
  obtain ⟨mapping, alone, scopePath, -, hmapping, -, halone, -, -, hfacts, -⟩ :=
    scanQuery_alone hstart [.query] hr hscan fun label hl => (hlabels label hl).1
  refine ⟨compiler, r, request, alone, hstart, hr, hscan, halone,
    hfacts hdepth fun label hl _ => ?_⟩
  exact (findsFacts_iff hmapping).mp (hlabels label hl).2

/-- **Nested tags** of the books change what is asked of the authors, who have tags that are not
nested. -/
theorem not_compiles_tagSearch : ∃ compiler r request alone mapping filter fragment,
    (tagSearch (some "items")).start = .ok compiler ∧ compiler.query.1.isOk = true ∧
      r ∈ compiler.query.2.reports ∧ r.resolution = .scan request ∧ r.generated = false ∧
      r.link.name = none ∧
      compiler.environment.resolver.mapping r.link.index = .ok mapping ∧
      (∀ label ∈ r.query.preorder, label.kind.isExpansion = false ∧
        mapping.hasField label.fieldName = true) ∧
      ((tagSearch (some "items")).alone request.index r.query).start = .ok alone ∧
      request.query = .constantScore filter none ∧ filter.kind = "nested" ∧
      alone.query.1 = .ok fragment ∧ fragment.kind = "term" ∧ ¬ alone.Compiles request := by
  have hrun : ((tagSearch (some "items")).start.toOption.any fun compiler =>
      compiler.query.1.isOk && compiler.query.2.reports.any fun r =>
        r.resolution.request?.any fun request =>
          !r.generated && decide (r.link.name = none) &&
          ((compiler.environment.resolver.mapping r.link.index).toOption.any fun mapping =>
            r.query.preorder.all fun label =>
              !label.kind.isExpansion && mapping.hasField label.fieldName) &&
          ((tagSearch (some "items")).alone request.index r.query).start.toOption.any fun alone =>
            alone.query.1.toOption.any fun fragment =>
              decide (fragment.kind = "term") && match request.query with
              | .constantScore filter none => decide (filter.kind = "nested")
              | _ => false) = true := by
    decide +kernel
  simp only [Option.any_eq_true, toOption_eq_some, List.any_eq_true, Bool.and_eq_true,
    decide_eq_true_eq, List.all_eq_true, Bool.not_eq_true'] at hrun
  obtain ⟨compiler, hstart, hok, r, hr, request, hrequest,
    ⟨⟨hgenerated, hname⟩, mapping, hmapping, hlabels⟩, alone, halone, fragment, hfragment, hterm,
    hnested⟩ := hrun
  split at hnested
  · next filter hquery =>
    have hkind : filter.kind = "nested" := by simpa using hnested
    refine ⟨compiler, r, request, alone, mapping, filter, fragment, hstart, hok, hr,
      Resolution.request?_eq_some.mp hrequest, hgenerated, hname, hmapping, hlabels, halone, hquery,
      hkind, hfragment, hterm, ?_⟩
    rintro ⟨other, hother, hrequest'⟩
    obtain rfl : filter = other := by simpa using hquery.symm.trans hrequest'
    obtain rfl : filter = fragment := by simpa using hother.symm.trans hfragment
    rw [hkind] at hterm
    exact absurd hterm (by decide)
  · exact absurd hnested (by simp)

end Compiler

end LinkedSearch
