import LinkedSearch.Proofs.ExactScans

/-! # Pages of scans in memory

A cluster in memory answers a scan from the list of its hits. A cursor stands at the first hit of the next
page and moves on by the page size, or to the end of the list. So the pages split the list, whatever the page
size is, and what a scan collects does not depend on it.

* `cursor`, `pageCount`, `pageHits`: where pages begin, how many there are, and what is on them.
* `pages_split`: the pages one after the other are the list of hits.
* `Cluster.run_executor`: what a scan in memory ends with. -/

namespace LinkedSearch

/-! ## Splitting a list -/

/-- **The cursor** before a page: every page ends a page size further on, or at the end of the list. -/
def cursor (size count : Nat) : Nat → Nat
  | 0 => 0
  | n + 1 => min (cursor size count n + size) count

/-- How many pages a list has. -/
def pageCount (size count : Nat) : Nat := (count + size - 1) / size

/-- The hits on a page, from one position of the cursor to the next one. -/
def pageHits (size : Nat) (hits : List Json) (n : Nat) : List Json :=
  (hits.drop (cursor size hits.length n)).take
    (cursor size hits.length (n + 1) - cursor size hits.length n)

section Splitting

variable {size count n : Nat} {hits : List Json}

/-- The cursor stands where the pages before it end. -/
theorem cursor_eq (size count n : Nat) : cursor size count n = min (n * size) count := by
  induction n with
  | zero => rw [cursor, Nat.zero_mul, Nat.zero_min]
  | succ n ih =>
    rw [cursor, ih, Nat.add_mul, Nat.one_mul]
    omega

/-- A page begins before the end of the list if and only if it is one of the pages that the list has. -/
theorem lt_pageCount_iff (hsize : 0 < size) : n < pageCount size count ↔ n * size < count := by
  unfold pageCount
  rw [← Nat.succ_le_iff, Nat.le_div_iff_mul_le hsize, Nat.succ_mul]
  omega

/-- After the last page the cursor stands at the end of the list. -/
theorem cursor_pageCount (hsize : 0 < size) (count : Nat) : cursor size count (pageCount size count) = count := by
  have hend : ¬pageCount size count * size < count := by
    rw [← lt_pageCount_iff hsize]
    exact Nat.lt_irrefl _
  rw [cursor_eq]
  omega

/-- **No overflow**: where a page is asked for, the cursor and a page size together stay inside every word that
holds the page size and twice the hits. Only the first page may be larger than what is before the end. -/
theorem cursor_add_size_lt (hsize : 0 < size) (hn : n < pageCount size count) {bound : Nat}
    (hbatch : size < bound) (hcount : 2 * count ≤ bound) : cursor size count n + size < bound := by
  have hlt := (lt_pageCount_iff hsize).mp hn
  cases n with
  | zero =>
    rw [cursor, Nat.zero_add]
    exact hbatch
  | succ n =>
    -- every later page is no larger than the hits before it
    rw [Nat.add_mul, Nat.one_mul] at hlt
    rw [cursor_eq, Nat.add_mul, Nat.one_mul]
    omega

/-- A page has the next hits. -/
theorem pageHits_eq (size : Nat) (hits : List Json) (n : Nat) :
    pageHits size hits n = (hits.drop (n * size)).take size := by
  unfold pageHits
  rw [cursor_eq, cursor_eq, Nat.add_mul, Nat.one_mul]
  by_cases hlt : n * size < hits.length
  · -- the last page ends with the list
    rw [Nat.min_eq_left (Nat.le_of_lt hlt), List.take_eq_take_iff, List.length_drop]
    omega
  · rw [List.drop_of_length_le (Nat.le_of_not_lt hlt), List.drop_of_length_le (by omega)]
    simp

theorem cursor_le_succ (size count n : Nat) : cursor size count n ≤ cursor size count (n + 1) := by
  rw [cursor_eq, cursor_eq, Nat.add_mul]
  omega

theorem length_pageHits (size : Nat) (hits : List Json) (n : Nat) :
    (pageHits size hits n).length = cursor size hits.length (n + 1) - cursor size hits.length n := by
  unfold pageHits
  rw [List.length_take, List.length_drop, cursor_eq, cursor_eq]
  omega

/-- No page that is asked for is empty. -/
theorem pageHits_ne_nil (hsize : 0 < size) (hn : n < pageCount size hits.length) :
    pageHits size hits n ≠ [] := by
  have hlt := (lt_pageCount_iff hsize).mp hn
  have hlength := length_pageHits size hits n
  rw [cursor_eq, cursor_eq, Nat.add_mul] at hlength
  rintro hnil
  rw [hnil, List.length_nil] at hlength
  omega

/-- The first pages have the hits before the cursor, by induction on their number. -/
theorem flatMap_pageHits (size : Nat) (hits : List Json) (n : Nat) :
    (List.range n).flatMap (pageHits size hits) = hits.take (cursor size hits.length n) := by
  induction n with
  | zero => rfl
  | succ n ih =>
    have hnext : cursor size hits.length (n + 1) = cursor size hits.length n +
        (cursor size hits.length (n + 1) - cursor size hits.length n) := by
      have hle := cursor_le_succ size hits.length n
      omega
    rw [List.range_succ, List.flatMap_append, ih, hnext, List.take_add]
    simp [pageHits]

/-- **Pages split a list**: one after the other they are the list, without loss or repetition. -/
theorem pages_split (hsize : 0 < size) (hits : List Json) :
    (List.range (pageCount size hits.length)).flatMap (pageHits size hits) = hits := by
  rw [flatMap_pageHits, cursor_pageCount hsize, List.take_length]

end Splitting

/-! ## Scans in memory -/

namespace Cluster

variable (cluster : Cluster)

/-- A page with some hits. -/
def pageOf (field : String) (hits : List Json) : ScanPage :=
  { hits := hits.length, values := valuesIn field hits }

/-- The shards of an index that fail. -/
def failuresOf (index : String) : List ShardFailure := (Keyed.find? index cluster.failures).getD []

/-- The number of hits on a page; an empty page is not allowed. -/
def pageSize (request : ScanRequest) : Nat := max request.batchSize 1

theorem pageSize_pos (request : ScanRequest) : 0 < pageSize request :=
  Nat.lt_of_lt_of_le Nat.zero_lt_one (Nat.le_max_right request.batchSize 1)

variable {cluster} {request : ScanRequest} {hits : List Json}

/-- **An open scan** has the pages of its hits. -/
theorem openScan_of_hits (hhits : cluster.hits request = .ok hits) :
    cluster.openScan request = .ok {
      total := hits.length, failures := cluster.failuresOf request.index
      page := fun n => .ok (pageOf request.field (pageHits (pageSize request) hits n)) } := by
  have hpages : ∀ n, pageHits (pageSize request) hits n =
      (hits.drop (n * max request.batchSize 1)).take (max request.batchSize 1) := fun n =>
    pageHits_eq (pageSize request) hits n
  unfold openScan
  simp only [hhits, hpages]
  rfl

/-- The hits of the first pages. -/
theorem hitsOf_pages (field : String) (size : Nat) (hits : List Json) (n : Nat) :
    hitsOf ((List.range n).map fun k => pageOf field (pageHits size hits k)) = cursor size hits.length n := by
  induction n with
  | zero => rfl
  | succ n ih =>
    have hle := cursor_le_succ size hits.length n
    rw [List.range_succ, List.map_append, hitsOf_append, ih]
    show _ + hitsOf [pageOf field (pageHits size hits n)] = _
    rw [hitsOf_singleton]
    show _ + (pageHits size hits n).length = _
    rw [length_pageHits]
    omega

/-- The values of the pages. -/
theorem valuesOf_pages (field : String) {size : Nat} (hsize : 0 < size) (hits : List Json) :
    valuesOf ((List.range (pageCount size hits.length)).map fun k => pageOf field (pageHits size hits k)) =
      valuesIn field hits := by
  have hvalues : ∀ numbers : List Nat,
      valuesOf (numbers.map fun k => pageOf field (pageHits size hits k)) =
        valuesIn field (numbers.flatMap (pageHits size hits)) := by
    intro numbers
    simp [valuesOf, valuesIn, pageOf, List.flatMap_map, List.flatMap_assoc]
  rw [hvalues, pages_split hsize]

/-- **A scan in memory delivers** the pages of its hits, and no others. -/
theorem delivers_pages (failures : List ShardFailure) (field : String) {size : Nat} (hsize : 0 < size)
    (hits : List Json) :
    OpenScan.Delivers
      { total := hits.length, failures, page := fun n => .ok (pageOf field (pageHits size hits n)) }
      ((List.range (pageCount size hits.length)).map fun k => pageOf field (pageHits size hits k)) where
  arrives := by
    intro n hn
    simp
  intact := by
    intro page hpage
    obtain ⟨k, hk, rfl⟩ := List.mem_map.mp hpage
    have hne := pageHits_ne_nil hsize (List.mem_range.mp hk)
    exact ⟨rfl, fun hempty => hne (List.length_eq_zero_iff.mp hempty)⟩
  needed := by
    intro n hn
    rw [List.length_map, List.length_range] at hn
    have hlt := (lt_pageCount_iff hsize).mp hn
    rw [← List.map_take, List.take_range, Nat.min_eq_left (Nat.le_of_lt hn), hitsOf_pages, cursor_eq]
    show min (n * size) hits.length < hits.length
    omega
  enough := Nat.le_of_eq (by rw [hitsOf_pages, cursor_pageCount hsize])

/-- **What a scan in memory ends with**: with a failing shard it fails at once, and otherwise it collects the
values of all hits from as many pages as they fill. Its outcome does not depend on the page size. -/
theorem run_executor (cluster : Cluster) (earlier : List ScanRequest) (request : ScanRequest) :
    cluster.executor.run earlier request =
      match cluster.hits request with
      | .error error => ⟨.error error, 0⟩
      | .ok hits =>
        if cluster.failuresOf request.index ≠ [] then
          ⟨.error (.shardsFailed (cluster.failuresOf request.index)), 0⟩
        else
          ⟨.ok ((Collected.addAll [] (valuesIn request.field hits)).values, hits.length),
            pageCount (pageSize request) hits.length⟩ := by
  rcases hhits : cluster.hits request with error | hits
  · have hopen : cluster.executor earlier request = .error error := by
      show cluster.openScan request = _
      unfold openScan
      rw [hhits]
      rfl
    unfold Executor.run
    rw [hopen]
  · rw [Executor.run_of_ok (openScan_of_hits hhits)]
    by_cases hfailures : cluster.failuresOf request.index = []
    · have hdelivers := delivers_pages (cluster.failuresOf request.index) request.field
        (pageSize_pos request) hits
      rw [hdelivers.collect_eq request.index hfailures, valuesOf_pages _ (pageSize_pos request), hitsOf_pages,
        cursor_pageCount (pageSize_pos request), List.length_map, List.length_range]
      simp [hfailures]
    · unfold OpenScan.collect
      simp [hfailures]

end Cluster

end LinkedSearch
