import LinkedSearch.Proofs.Repaging
import LinkedSearch.Proofs.Using

/-! # Page sizes never change a result

Two compilers of one request to a cluster in memory, with different settings for the pages of scans, are used
in the same way. They start alike, every call on them ends alike, and they ask for the same scans up to these
settings. And the pages of each scan are one part of its hits after the other.

* `Setup.repaged`, `Compiler.repaged`: a setup and a compiler with other pages.
* `run_repaged`, `used_repaged`: single computations, and sequences of uses.
* `Cluster.Paged`: how the pages of a scan split its hits.
* `Compiler.repaged_same`: everything that can be asked of the two compilers. -/

namespace LinkedSearch

/-- The same setup with other pages. -/
def Setup.repaged (paging : ScanSettings) (setup : Setup) : Setup :=
  { setup with settings := { setup.settings with scan := paging } }

/-- The same compiler with other pages. -/
def Compiler.repaged (paging : ScanSettings) (compiler : Compiler) : Compiler :=
  { compiler with
    environment := compiler.environment.repaged paging
    progress := compiler.progress.repaged paging }

/-- **Start**: with other pages a compiler starts in the same state, or fails with the same error. -/
theorem Setup.start_repaged (paging : ScanSettings) (setup : Setup) :
    (setup.repaged paging).start = setup.start.map (Compiler.repaged paging) := by
  unfold Setup.start
  simp only [Setup.repaged]
  cases setup.resolver with
  | none => rfl
  | some resolver =>
  cases setup.executor with
  | none => rfl
  | some executor =>
    simp only
    cases Metadata.start resolver setup.index setup.request.links with
    | error e => rfl
    | ok md =>
      simp only [bind, Except.bind]
      rcases (assignFields resolver (Query.Request.subjectField? setup.request.aggregate
        setup.request.suggestion) setup.request.draft.fieldNames).run md with ⟨error | _, metadata⟩
      · rfl
      · rfl

/-! ## Pages -/

/-- **Paging**: the pages of a scan are one part of its hits after the other, without loss or repetition. No
page is asked for that is empty, and a scan that succeeds has asked for all of them. Where a page is asked for,
the cursor and the page size together stay inside every word that holds the page size and twice the hits. -/
structure Cluster.Paged (request : ScanRequest) (reading : Reading) (scan : OpenScan) (hits : List Json) :
    Prop where
  total_eq : scan.total = hits.length
  page_eq : ∀ n, scan.page n = .ok (pageOf request.field (pageHits (pageSize request) hits n))
  split : (List.range (pageCount (pageSize request) hits.length)).flatMap (pageHits (pageSize request) hits) =
    hits
  read_all : ∀ result, reading.outcome = .ok result →
    reading.pagesRead = pageCount (pageSize request) hits.length
  nonempty : ∀ n < reading.pagesRead, pageHits (pageSize request) hits n ≠ []
  bounded : ∀ bound, pageSize request < bound → 2 * hits.length ≤ bound → ∀ n < reading.pagesRead,
    cursor (pageSize request) hits.length n + pageSize request < bound

/-- **Every scan in memory** is paged. -/
theorem Cluster.paged {cluster : Cluster} {earlier : List ScanRequest} {request : ScanRequest} {scan : OpenScan}
    (hopen : cluster.executor earlier request = .ok scan) :
    ∃ hits, cluster.hits request = .ok hits ∧
      Paged request (cluster.executor.run earlier request) scan hits := by
  rcases hhits : cluster.hits request with error | hits
  · have hopen : cluster.openScan request = .ok scan := hopen
    unfold openScan at hopen
    rw [hhits] at hopen
    exact absurd hopen nofun
  have hscan : cluster.executor earlier request = _ := openScan_of_hits hhits
  obtain rfl := Except.ok.inj (hopen.symm.trans hscan)
  have hread := run_executor cluster earlier request
  rw [hhits] at hread
  simp only at hread
  -- either no page is read, or all of them are
  have hpages : (cluster.executor.run earlier request).pagesRead ≤
      pageCount (pageSize request) hits.length := by
    rw [hread]
    split
    · exact Nat.zero_le _
    · exact Nat.le_refl _
  refine ⟨hits, rfl, rfl, fun _ => rfl, pages_split (pageSize_pos request) hits, fun result hok => ?_,
    fun n hn => ?_, fun bound hbatch hcount n hn => ?_⟩
  · rw [hread] at hok ⊢
    split at hok
    · exact absurd hok (by simp)
    · next hfailures => rw [if_neg hfailures]
  · exact pageHits_ne_nil (pageSize_pos request) (Nat.lt_of_lt_of_le hn hpages)
  · exact cursor_add_size_lt (pageSize_pos request) (Nat.lt_of_lt_of_le hn hpages) hbatch hcount

namespace Compiler

open Compile

variable {setup : Setup} {compiler : Compiler} {paging : ScanSettings}

/-! ## Single computations -/

/-- A computation that does the same with other pages, run on a compiler with other pages. -/
theorem run_repaged {α : Type} {action : Environment → Compile α}
    (h : Repages paging (action compiler.environment) (action (compiler.environment.repaged paging))
      compiler.progress) :
    (compiler.repaged paging).run action =
      ((compiler.run action).1, (compiler.run action).2.repaged paging) := by
  show ((exec (action (compiler.environment.repaged paging)) (compiler.progress.repaged paging)).1,
      { compiler.repaged paging with
        progress :=
          (exec (action (compiler.environment.repaged paging)) (compiler.progress.repaged paging)).2 }) =
    ((exec (action compiler.environment) compiler.progress).1,
      Compiler.repaged paging { compiler with
        progress := (exec (action compiler.environment) compiler.progress).2 })
  rcases hexec : exec (action compiler.environment) compiler.progress with ⟨error | a, q⟩
  · rw [(wp_of_error hexec).mp h]
    rfl
  · obtain ⟨_, hb, rfl⟩ := (wp_of_ok hexec).mp h
    rw [hb]
    rfl

theorem aggregateIndex_repaged : (compiler.repaged paging).aggregateIndex =
    (compiler.aggregateIndex.1, compiler.aggregateIndex.2.repaged paging) := by
  refine run_repaged (.get ?_)
  rw [Progress.draft_repaged]
  simp only
  split
  · exact (look_carries (spares_repaged paging) _ _).bindSame fun owner q => .pure rfl
  · exact .throw _

theorem aggregateField_repaged : (compiler.repaged paging).aggregateField =
    (compiler.aggregateField.1, compiler.aggregateField.2.repaged paging) := by
  refine run_repaged (.get ?_)
  rw [Progress.draft_repaged]
  split
  · exact .throw _
  · simp only
    split
    · exact .pure rfl
    · refine (look_carries (spares_repaged paging) _ _).bindSame fun owner q => ?_
      split <;> exact .pure rfl

section Uses

variable (hexecutor : compiler.environment.executor.Unpaged)

include hexecutor

theorem query_repaged : (compiler.repaged paging).query =
    (compiler.query.1, compiler.query.2.repaged paging) := by
  unfold query
  rw [run_repaged (rootQuery_repages hexecutor _)]
  rfl

theorem aggregation_repaged : (compiler.repaged paging).aggregation =
    (compiler.aggregation.1, compiler.aggregation.2.repaged paging) :=
  run_repaged (aggregate_repages hexecutor _)

/-! ## Sequences of uses -/

/-- **One use.** -/
theorem use_repaged (use : Use) :
    (compiler.repaged paging).use use = (compiler.use use).repaged paging := by
  cases use with
  | call call =>
    cases call with
    | query => exact congrArg Prod.snd (query_repaged hexecutor)
    | aggregation => exact congrArg Prod.snd (aggregation_repaged hexecutor)
    | suggestion => rfl
  | aggregateIndex => exact congrArg Prod.snd aggregateIndex_repaged
  | aggregateField => exact congrArg Prod.snd aggregateField_repaged
  | searchIndex | aggregateNested | dump => rfl

/-- **Uses** of a compiler with other pages leave it as they leave the other one, by induction on the uses. -/
theorem used_repaged (uses : List Use) :
    (compiler.repaged paging).used uses = (compiler.used uses).repaged paging := by
  induction uses generalizing compiler with
  | nil => rfl
  | cons use rest ih =>
    have hnext : (compiler.use use).environment.executor.Unpaged := by
      rw [use_environment]
      exact hexecutor
    show ((compiler.repaged paging).use use).used rest = ((compiler.use use).used rest).repaged paging
    rw [use_repaged hexecutor, ih hnext]

end Uses

/-- **Page sizes never change a result.** Take a request to a cluster in memory, with any settings, resolver and
analyzer, and the same setup with any other page size and keep-alives. The two start alike, or fail to with the
same error. After any uses of the two compilers, whatever their outcomes, every further one has the same
outcome, and the drafts and the requested scans are the same, up to these settings in the requests. And the
pages of every scan split its hits. -/
theorem repaged_same {cluster : Cluster} (hexecutor : setup.executor = some cluster.executor)
    (paging : ScanSettings) :
    (setup.repaged paging).start = setup.start.map (repaged paging) ∧
    (∀ compiler, setup.start = .ok compiler → ∀ uses : List Use,
      ((compiler.repaged paging).used uses).query.1 = (compiler.used uses).query.1 ∧
      ((compiler.repaged paging).used uses).aggregation.1 = (compiler.used uses).aggregation.1 ∧
      ((compiler.repaged paging).used uses).suggestion = (compiler.used uses).suggestion ∧
      ((compiler.repaged paging).used uses).searchIndex = (compiler.used uses).searchIndex ∧
      ((compiler.repaged paging).used uses).aggregateIndex.1 = (compiler.used uses).aggregateIndex.1 ∧
      ((compiler.repaged paging).used uses).aggregateField.1 = (compiler.used uses).aggregateField.1 ∧
      ((compiler.repaged paging).used uses).isAggregateNested = (compiler.used uses).isAggregateNested ∧
      ((compiler.repaged paging).used uses).dump = (compiler.used uses).dump ∧
      ((compiler.repaged paging).used uses).scans =
        (compiler.used uses).scans.map (ScanRequest.repaged paging)) ∧
    ∀ earlier request scan, cluster.executor earlier request = .ok scan →
      ∃ hits, cluster.hits request = .ok hits ∧
        Cluster.Paged request (cluster.executor.run earlier request) scan hits := by
  refine ⟨Setup.start_repaged paging setup, fun compiler hstart uses => ?_,
    fun earlier request scan hopen => Cluster.paged hopen⟩
  have hcluster : compiler.environment.executor.Unpaged := by
    rw [← Option.some.inj (hexecutor.symm.trans (Setup.started_of_ok hstart).executor_eq)]
    exact cluster.executor_unpaged
  -- the uses leave the surroundings alone, so that the further calls meet the same executor
  have hunpaged : (compiler.used uses).environment.executor.Unpaged := by
    rw [used_environment]
    exact hcluster
  rw [used_repaged hcluster, query_repaged hunpaged, aggregation_repaged hunpaged, aggregateIndex_repaged,
    aggregateField_repaged]
  exact ⟨rfl, rfl, rfl, rfl, rfl, rfl, rfl, rfl, rfl⟩

/-- Two indexes, and three authors of one name. -/
def brontes : Cluster where
  mappings := [("authors", .keyed "authors" "id"), ("books", .keyed "books" "id")]
  documents := [("authors", [.obj [("id", .int 3), ("name", .str "Bronte")],
    .obj [("id", .int 1), ("name", .str "Bronte")], .obj [("id", .int 2), ("name", .str "Bronte")]])]

/-- Books by authors of a name. -/
def bronteSearch : Setup where
  index := "books"
  request := { query := some (.expansion (.unnamed "author" "authors" "id") (.word "name" (.str "Bronte"))) }
  resolver := some brontes.resolver
  executor := some brontes.executor

/-- With pages of the default size and with pages that would have no hits the query is the same, after one
scan that asks for different pages. -/
theorem repaged_same_bronteSearch : ∃ compiler F, bronteSearch.start = .ok compiler ∧
    (bronteSearch.repaged { batchSize := 0 }).start = .ok (compiler.repaged { batchSize := 0 }) ∧
    (compiler.used [.call .query]).query.1 = .ok F ∧
    ((compiler.repaged { batchSize := 0 }).used [.call .query]).query.1 = .ok F ∧
    (compiler.used [.call .query]).scans.map (·.batchSize) = [10240] ∧
    ((compiler.repaged { batchSize := 0 }).used [.call .query]).scans.map (·.batchSize) = [0] := by
  have hrun : (bronteSearch.start.toOption.any fun compiler =>
      (compiler.used [.call .query]).query.1.toOption.any fun _ =>
        decide ((compiler.used [.call .query]).scans.map (·.batchSize) = [10240])) = true := by
    decide +kernel
  simp only [Option.any_eq_true, toOption_eq_some, decide_eq_true_eq] at hrun
  obtain ⟨compiler, hstart, F, hF, hscans⟩ := hrun
  have hexecutor : bronteSearch.executor = some brontes.executor := rfl
  obtain ⟨hstart', hall, -⟩ := repaged_same hexecutor { batchSize := 0 }
  obtain ⟨hquery, -, -, -, -, -, -, -, hscans'⟩ := hall compiler hstart [.call .query]
  refine ⟨compiler, F, hstart, ?_, hF, hquery.trans hF, hscans, ?_⟩
  · rw [hstart', hstart]
    rfl
  · have hlength := congrArg List.length hscans
    rw [List.length_map] at hlength
    obtain ⟨request, hrequest⟩ := List.length_eq_one_iff.mp hlength
    rw [hscans', hrequest]
    rfl

end Compiler

end LinkedSearch
