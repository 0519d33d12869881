import LinkedSearch.Proofs.SortKeys

/-! # Scans are exact

A scan is read page by page until as many hits were seen as the opening response has declared. Whoever
answers it, it succeeds exactly if all of these pages arrive intact; then the collected values are those of
the pages, one for each key and in ascending order, whatever the order of the hits and their division into
pages.

* `OpenScan.Fetched`, `OpenScan.Delivers`: pages that are read one after the other, and all of them.
* `OpenScan.Ends`: the four ways in which reading ends; `ends_readFrom` is the induction over the pages.
* `Executor.run_exact`: when a scan succeeds, and what it collects. -/

namespace LinkedSearch

/-- The hits of some pages. -/
def hitsOf : List ScanPage → Nat
  | [] => 0
  | page :: rest => page.hits + hitsOf rest

/-- The values of some pages. -/
def valuesOf (pages : List ScanPage) : List Json := pages.flatMap (·.values)

@[simp] theorem hitsOf_append (pages later : List ScanPage) :
    hitsOf (pages ++ later) = hitsOf pages + hitsOf later := by
  induction pages with
  | nil => simp [hitsOf]
  | cons page rest ih => simp [hitsOf, ih, Nat.add_assoc]

@[simp] theorem hitsOf_singleton (page : ScanPage) : hitsOf [page] = page.hits := rfl

@[simp] theorem valuesOf_append (pages later : List ScanPage) :
    valuesOf (pages ++ later) = valuesOf pages ++ valuesOf later :=
  List.flatMap_append

@[simp] theorem valuesOf_singleton (page : ScanPage) : valuesOf [page] = page.values := by
  simp [valuesOf]

namespace OpenScan

variable {scan : OpenScan} {pages others : List ScanPage} {index : String} {n : Nat}

/-! ## Pages -/

/-- **Fetched** pages: the first pages of a scan, all of which arrive without a failed shard and with a hit,
and each of which is needed because the hits before it are too few. -/
structure Fetched (scan : OpenScan) (pages : List ScanPage) : Prop where
  arrives : ∀ n (h : n < pages.length), scan.page n = .ok pages[n]
  intact : ∀ page ∈ pages, page.failures = [] ∧ page.hits ≠ 0
  needed : ∀ n < pages.length, hitsOf (pages.take n) < scan.total

/-- **Delivery**: the pages that are fetched until their hits first reach the declared total. -/
structure Delivers (scan : OpenScan) (pages : List ScanPage) : Prop extends scan.Fetched pages where
  enough : scan.total ≤ hitsOf pages

namespace Fetched

theorem nil (scan : OpenScan) : scan.Fetched [] := ⟨by simp, by simp, by simp⟩

/-- One more page. -/
theorem append (h : scan.Fetched pages) {page : ScanPage} (hneeded : hitsOf pages < scan.total)
    (harrives : scan.page pages.length = .ok page) (hfailures : page.failures = []) (hhits : page.hits ≠ 0) :
    scan.Fetched (pages ++ [page]) where
  arrives := by
    intro n hn
    rw [List.length_append, List.length_singleton] at hn
    by_cases hlast : n < pages.length
    · rw [h.arrives n hlast, List.getElem_append_left hlast]
    · obtain rfl : n = pages.length := by omega
      rw [harrives, List.getElem_concat_length]
      rfl
  intact := by
    intro other hother
    rcases List.mem_append.mp hother with hother | hother
    · exact h.intact other hother
    · rw [List.mem_singleton.mp hother]
      exact ⟨hfailures, hhits⟩
  needed := by
    intro n hn
    rw [List.length_append, List.length_singleton] at hn
    by_cases hlast : n < pages.length
    · rw [List.take_append_of_le_length (Nat.le_of_lt hlast)]
      exact h.needed n hlast
    · obtain rfl : n = pages.length := by omega
      rwa [List.take_append_of_le_length (Nat.le_refl _), List.take_length]

/-- **The same scan has the same pages**, as far as they are fetched. -/
theorem take_eq (h : scan.Fetched pages) (h' : scan.Fetched others) (hle : pages.length ≤ others.length) :
    others.take pages.length = pages := by
  refine List.ext_getElem ?_ fun n hn hn' => ?_
  · rw [List.length_take]
    omega
  · have hothers := h'.arrives n (by omega)
    rw [h.arrives n hn'] at hothers
    rw [List.getElem_take]
    exact (Except.ok.inj hothers).symm

end Fetched

/-! ## Reading -/

/-- **The four ways in which reading ends** after some pages: they were enough, or the next one does not
arrive, has failed shards, or has no hits. -/
inductive Ends (index : String) (scan : OpenScan) (pages : List ScanPage) : Reading → Prop
  | complete (h : scan.total ≤ hitsOf pages) :
      Ends index scan pages
        ⟨.ok ((Collected.addAll [] (valuesOf pages)).values, hitsOf pages), pages.length⟩
  | lost {error : Error} (h : hitsOf pages < scan.total) (hpage : scan.page pages.length = .error error) :
      Ends index scan pages ⟨.error error, pages.length + 1⟩
  | failed {page : ScanPage} (h : hitsOf pages < scan.total) (hpage : scan.page pages.length = .ok page)
      (hfailures : page.failures ≠ []) :
      Ends index scan pages ⟨.error (.shardsFailed page.failures), pages.length + 1⟩
  | empty {page : ScanPage} (h : hitsOf pages < scan.total) (hpage : scan.page pages.length = .ok page)
      (hfailures : page.failures = []) (hhits : page.hits = 0) :
      Ends index scan pages
        ⟨.error (.scanEndedEarly index (hitsOf pages) scan.total), pages.length + 1⟩

/-- **Reading on** from some fetched pages, by induction on the hits that are missing. -/
theorem ends_readFrom (index : String) (h : scan.Fetched pages) :
    ∃ others, scan.Fetched others ∧ scan.Ends index others
      (scan.readFrom index pages.length (hitsOf pages) (Collected.addAll [] (valuesOf pages))) := by
  induction hleft : scan.total - hitsOf pages using Nat.strongRecOn generalizing pages with
  | ind left ih =>
    rw [readFrom]
    by_cases hneeded : hitsOf pages < scan.total
    · rw [if_pos hneeded]
      rcases hpage : scan.page pages.length with error | page
      · exact ⟨pages, h, .lost hneeded hpage⟩
      by_cases hfailures : page.failures = []
      · by_cases hhits : page.hits = 0
        · simp only [hfailures, ne_eq, not_true_eq_false, if_false, if_pos hhits]
          exact ⟨pages, h, .empty hneeded hpage hfailures hhits⟩
        · -- one more page, and fewer missing hits
          simp only [hfailures, ne_eq, not_true_eq_false, if_false, if_neg hhits]
          have hnext := ih (scan.total - hitsOf (pages ++ [page])) (by rw [hitsOf_append, hitsOf_singleton]; omega)
            (h.append hneeded hpage hfailures hhits) rfl
          rwa [List.length_append, List.length_singleton, hitsOf_append, hitsOf_singleton, valuesOf_append,
            valuesOf_singleton, Collected.addAll_append] at hnext
      · simp only [ne_eq, hfailures, not_false_eq_true, if_true]
        exact ⟨pages, h, .failed hneeded hpage hfailures⟩
    · rw [if_neg hneeded]
      exact ⟨pages, h, .complete (Nat.le_of_not_lt hneeded)⟩

/-- **Reading a scan** whose opening response has no failed shard. -/
theorem ends_collect (index : String) (hopened : scan.failures = []) :
    ∃ pages, scan.Fetched pages ∧ scan.Ends index pages (scan.collect index) := by
  have hread := ends_readFrom index (Fetched.nil scan)
  unfold collect
  simp only [hopened, ne_eq, not_true_eq_false, if_false]
  exact hread

/-- **What is delivered is collected.** -/
theorem Delivers.collect_eq (h : scan.Delivers pages) (index : String) (hopened : scan.failures = []) :
    scan.collect index =
      ⟨.ok ((Collected.addAll [] (valuesOf pages)).values, hitsOf pages), pages.length⟩ := by
  obtain ⟨others, hothers, hends⟩ := ends_collect index hopened
  -- reading stops neither before the last of the pages nor after it
  have hle : others.length ≤ pages.length := by
    by_contra hgt
    have hneeded := hothers.needed pages.length (by omega)
    rw [h.take_eq hothers (by omega)] at hneeded
    exact absurd h.enough (by omega)
  have hge : pages.length ≤ others.length := by
    by_contra hgt
    have hlt : others.length < pages.length := by omega
    have hneeded := h.needed others.length hlt
    rw [hothers.take_eq h.toFetched hle] at hneeded
    have harrives := h.arrives others.length hlt
    obtain ⟨hintact, hhits⟩ := h.intact _ (List.getElem_mem hlt)
    generalize scan.collect index = reading at hends
    cases hends with
    | complete henough => omega
    | lost _ hpage =>
      rw [harrives] at hpage
      exact absurd hpage (by simp)
    | failed _ hpage hfailures =>
      rw [harrives] at hpage
      exact hfailures ((congrArg ScanPage.failures (Except.ok.inj hpage)).symm.trans hintact)
    | empty _ hpage _ hempty =>
      rw [harrives] at hpage
      exact hhits ((congrArg ScanPage.hits (Except.ok.inj hpage)).trans hempty)
  have hsame : others = pages := by
    have htake := h.take_eq hothers hge
    rwa [show pages.length = others.length by omega, List.take_length] at htake
  subst hsame
  have henough := h.enough
  generalize scan.collect index = reading at hends ⊢
  cases hends with
  | complete => rfl
  | lost hneeded => omega
  | failed hneeded => omega
  | empty hneeded => omega

/-- **A failed shard in a page** that is fetched ends the reading. -/
theorem collect_failed (index : String) (hopened : scan.failures = [])
    {n : Nat} {page : ScanPage} (hn : n < (scan.collect index).pagesRead) (hpage : scan.page n = .ok page)
    (hfailures : page.failures ≠ []) :
    (scan.collect index).outcome = .error (.shardsFailed page.failures) := by
  obtain ⟨pages, hfetched, hends⟩ := ends_collect index hopened
  -- the pages before the last one are intact
  have hlast : pages.length ≤ n := by
    by_contra hlt
    have harrives := hfetched.arrives n (by omega)
    rw [hpage] at harrives
    refine hfailures ?_
    rw [Except.ok.inj harrives]
    exact (hfetched.intact _ (List.getElem_mem _)).1
  generalize scan.collect index = reading at hends hn ⊢
  cases hends with
  | complete => exact absurd hn (by simpa using hlast)
  | lost _ hlost =>
    obtain rfl : n = pages.length := Nat.le_antisymm (Nat.le_of_lt_succ hn) hlast
    rw [hpage] at hlost
    exact absurd hlost (by simp)
  | failed _ hfailed =>
    obtain rfl : n = pages.length := Nat.le_antisymm (Nat.le_of_lt_succ hn) hlast
    rw [hpage] at hfailed
    rw [Except.ok.inj hfailed]
  | empty _ hempty hnone =>
    obtain rfl : n = pages.length := Nat.le_antisymm (Nat.le_of_lt_succ hn) hlast
    rw [hpage] at hempty
    rw [Except.ok.inj hempty] at hfailures
    exact absurd hnone hfailures

end OpenScan

/-! ## Scans -/

namespace Executor

variable {executor : Executor} {earlier : List ScanRequest} {request : ScanRequest} {scan : OpenScan}

/-- **Opening** a scan without a failed shard. -/
def Opens (executor : Executor) (earlier : List ScanRequest) (request : ScanRequest) (scan : OpenScan) : Prop :=
  executor earlier request = .ok scan ∧ scan.failures = []

theorem run_of_ok (h : executor earlier request = .ok scan) :
    executor.run earlier request = scan.collect request.index := by
  unfold run
  rw [h]

/-- A scan that succeeds was opened, and its pages were delivered. -/
theorem delivers_of_run {result : List Json × Nat} (h : (executor.run earlier request).outcome = .ok result) :
    ∃ scan pages, executor.Opens earlier request scan ∧ scan.Delivers pages := by
  rcases hopen : executor earlier request with error | scan
  · unfold run at h
    rw [hopen] at h
    exact absurd h (by simp)
  rw [run_of_ok hopen] at h
  by_cases hfailures : scan.failures = []
  · obtain ⟨pages, hfetched, hends⟩ := OpenScan.ends_collect request.index hfailures
    generalize scan.collect request.index = reading at hends h
    cases hends with
    | complete henough => exact ⟨scan, pages, ⟨hopen, hfailures⟩, hfetched, henough⟩
    | _ => exact absurd h (by simp)
  · unfold OpenScan.collect at h
    rw [if_pos hfailures] at h
    exact absurd h (by simp)

/-- **Telling of failed shards**: a remote failure that says how many they are. -/
def TellsOf (reading : Reading) (failures : List ShardFailure) : Prop :=
  ∃ error, reading.outcome = .error error ∧ error.category = .remote ∧ error.failedShards = failures.length

/-- **Scans are exact**, whatever answers them. A scan succeeds if and only if it is opened without a failed
shard and delivers its pages: those that are fetched until their hits first reach the declared total all
arrive, and none of them has a failed shard or no hits. A failed shard in the opening response or in a page
that is fetched always becomes a remote failure with the number of the failed shards. After a success the
hits are those of the pages, and the values are some of the scalars in the pages: one for each of their keys,
in strictly ascending order. So a scan that delivers the same scalars, in another order or in other pages,
ends with the same keys in the same order. -/
theorem run_exact (executor : Executor) (earlier : List ScanRequest) (request : ScanRequest) :
    ((∃ result, (executor.run earlier request).outcome = .ok result) ↔
      ∃ scan pages, executor.Opens earlier request scan ∧ scan.Delivers pages) ∧
    (∀ scan, executor earlier request = .ok scan →
      (scan.failures ≠ [] → TellsOf (executor.run earlier request) scan.failures) ∧
      ∀ n < (executor.run earlier request).pagesRead, ∀ page, scan.page n = .ok page →
        page.failures ≠ [] → TellsOf (executor.run earlier request) page.failures) ∧
    ∀ scan pages, executor.Opens earlier request scan → scan.Delivers pages →
      ∃ values, (executor.run earlier request).outcome = .ok (values, hitsOf pages) ∧
        Distills values (Json.scalarsOfItems (valuesOf pages)) ∧
        ∀ (executor' : Executor) earlier' request' scan' pages',
          executor'.Opens earlier' request' scan' → scan'.Delivers pages' →
          (∀ value, value ∈ Json.scalarsOfItems (valuesOf pages') ↔
            value ∈ Json.scalarsOfItems (valuesOf pages)) →
          ∃ values', (executor'.run earlier' request').outcome = .ok (values', hitsOf pages') ∧
            sortKeys values' = sortKeys values := by
  have hdelivered : ∀ {executor : Executor} {earlier request scan pages},
      executor.Opens earlier request scan → scan.Delivers pages →
      (executor.run earlier request).outcome =
        .ok ((Collected.addAll [] (valuesOf pages)).values, hitsOf pages) := by
    intro executor earlier request scan pages hopens hdelivers
    rw [run_of_ok hopens.1, hdelivers.collect_eq request.index hopens.2]
  refine ⟨⟨?_, ?_⟩, fun scan hopen => ⟨fun hfailures => ?_, fun n hn page hpage hfailures => ?_⟩, ?_⟩
  · rintro ⟨result, hresult⟩
    exact delivers_of_run hresult
  · rintro ⟨scan, pages, hopens, hdelivers⟩
    exact ⟨_, hdelivered hopens hdelivers⟩
  · refine ⟨.shardsFailed scan.failures, ?_, rfl, rfl⟩
    rw [run_of_ok hopen]
    unfold OpenScan.collect
    rw [if_pos hfailures]
  · rw [run_of_ok hopen] at hn ⊢
    refine ⟨.shardsFailed page.failures, ?_, rfl, rfl⟩
    refine OpenScan.collect_failed request.index ?_ hn hpage hfailures
    -- no page is fetched after an opening response with failed shards
    by_contra hopened
    unfold OpenScan.collect at hn
    rw [if_pos hopened] at hn
    exact absurd hn (Nat.not_lt_zero n)
  · intro scan pages hopens hdelivers
    refine ⟨_, hdelivered hopens hdelivers, Collected.distills _, ?_⟩
    intro executor' earlier' request' scan' pages' hopens' hdelivers' hsame
    refine ⟨_, hdelivered hopens' hdelivers', ?_⟩
    have hdistills := Collected.distills (valuesOf pages)
    have hdistills' := Collected.distills (valuesOf pages')
    refine SortKey.eq_of_ascending hdistills'.ascending hdistills.ascending fun key => ?_
    rw [hdistills'.mem_keys, hdistills.mem_keys, mem_sortKeys, mem_sortKeys]
    simp only [hsame]

/-- Three hits in two pages, with lists and a missing value. -/
def twoPages : Executor := fun _ _ => .ok {
  total := 3, failures := []
  page := fun n =>
    if n = 0 then .ok { hits := 2, values := [.arr [.int 2, .null], .str "a"] }
    else .ok { hits := 1, values := [.arr [.arr [.int 1], .int 2]] } }

/-- The same hits in one page, the other way round. -/
def onePage : Executor := fun _ _ => .ok {
  total := 3, failures := []
  page := fun _ => .ok { hits := 3, values := [.int 1, .int 2, .str "a", .int 2, .null] } }

/-- Both scans deliver their pages, and collect the values 1, 2 and "a" in this order. -/
theorem run_exact_twoPages : ∃ values values',
    (twoPages.run [] default).outcome = .ok (values, 3) ∧
    (onePage.run [] default).outcome = .ok (values', 3) ∧
    sortKeys values = [.int 1, .int 2, .text "a"] ∧ sortKeys values' = sortKeys values := by
  have hopens : ∃ scan, twoPages.Opens [] default scan ∧ scan.Delivers [
      { hits := 2, values := [.arr [.int 2, .null], .str "a"] },
      { hits := 1, values := [.arr [.arr [.int 1], .int 2]] }] := by
    refine ⟨_, ⟨rfl, rfl⟩, ⟨?_, by simp, ?_⟩, by decide⟩
    · rintro (_ | _ | n) hn <;> first | rfl | exact absurd hn (by simp)
    · rintro (_ | _ | n) hn <;> first | decide | exact absurd hn (by simp)
  have hopens' : ∃ scan, onePage.Opens [] default scan ∧ scan.Delivers [
      { hits := 3, values := [.int 1, .int 2, .str "a", .int 2, .null] }] := by
    refine ⟨_, ⟨rfl, rfl⟩, ⟨?_, by simp, ?_⟩, by decide⟩
    · rintro (_ | n) hn <;> first | rfl | exact absurd hn (by simp)
    · rintro (_ | n) hn <;> first | decide | exact absurd hn (by simp)
  obtain ⟨scan, hopen, hdelivers⟩ := hopens
  obtain ⟨scan', hopen', hdelivers'⟩ := hopens'
  obtain ⟨values, hvalues, hdistills, hsame⟩ := (run_exact twoPages [] default).2.2 scan _ hopen hdelivers
  obtain ⟨values', hvalues', hkeys⟩ := hsame onePage [] default scan' _ hopen' hdelivers'
    (by simp [valuesOf, Json.scalarsOfItems, Json.scalars, or_assoc, or_comm, or_left_comm])
  refine ⟨values, values', hvalues, hvalues', ?_, hkeys⟩
  refine SortKey.eq_of_ascending hdistills.ascending (by decide) fun key => ?_
  rw [hdistills.mem_keys]
  simp [valuesOf, Json.scalarsOfItems, Json.scalars, sortKeys, SortKey.of?, SortKey.canonical]
  grind

end Executor

end LinkedSearch
