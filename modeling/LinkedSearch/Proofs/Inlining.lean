import LinkedSearch.Cluster
import LinkedSearch.Proofs.Calling

/-! # Where queries of expansions are evaluated

The query of an expansion is a query on the linked index. Where it takes the place of its expansion,
it is evaluated with what is around it: by the scan of an enclosing expansion, or else where the
whole query is sent. Neither need be the linked index.

* `Compiler.scanAround?`: the scan that evaluates the query of an expansion in place.
* `Compiler.evaluatedOn`: the index on which it is evaluated.
* `Compiler.InPlaceSound`, `evaluatedOn_iff`: when this is the linked index. -/

namespace LinkedSearch

open Query (Tree)
open Schema (Mapping)

/-- How a query takes the place of its expansion, if it does. -/
def Resolution.own? : Resolution → Option Bool
  | .inPlace own => some own
  | _ => none

theorem Resolution.own?_eq_some {resolution : Resolution} {own : Bool} :
    resolution.own? = some own ↔ resolution = .inPlace own := by
  cases resolution <;> simp [own?]

namespace Compiler

variable {setup : Setup} {compiler : Compiler}

/-! ## Surroundings of an expansion -/

/-- **Scan around**: what is reported on the nearest expansion around another one that was resolved by
a scan in the end. -/
def scanAround? (compiler : Compiler) (r : Report) : Option Report :=
  r.enclosing.findSome? fun (id, _) =>
    (compiler.reports.reverse.find? fun outer => outer.id == id).filter
      (·.resolution.request?.isSome)

/-- **The index of a query in place**: that of the scan around it, or else the search index. -/
def evaluatedOn (compiler : Compiler) (r : Report) : Except Error String :=
  match (compiler.scanAround? r).bind (·.resolution.request?) with
  | some request => .ok request.index
  | none => compiler.searchIndex

/-- The scan around an expansion is on record, as that of an expansion around it. -/
theorem scanAround?_spec {r outer : Report} (h : compiler.scanAround? r = some outer) :
    outer ∈ compiler.reports ∧ outer.id ∈ r.enclosing.map Prod.fst ∧
      ∃ request, outer.resolution = .scan request := by
  obtain ⟨⟨id, link⟩, henclosing, hfound⟩ := List.exists_of_findSome?_eq_some h
  obtain ⟨hfind, hscan⟩ := Option.filter_eq_some_iff.mp hfound
  obtain ⟨request, hrequest⟩ := Option.isSome_iff_exists.mp hscan
  have hid : outer.id = id := by simpa using List.find?_some hfind
  refine ⟨List.mem_reverse.mp (List.mem_of_find?_eq_some hfind), ?_, request,
    Resolution.request?_eq_some.mp hrequest⟩
  rw [hid]
  exact List.mem_map_of_mem henclosing

/-- **Soundness of an expansion in place.** Inside a scan, the scan must be on the linked index.
Outside of scans, the primary link is in place unless the whole query is sent to another index; and a
link between primary keys is in place where the whole query is sent: to the index that was in use
already when the expansion was resolved, or to the primary index if more indexes have come into use
since. -/
def InPlaceSound (compiler : Compiler) (r : Report) (own : Bool) : Prop :=
  match compiler.scanAround? r with
  | some outer => outer.link.index = r.link.index
  | none =>
    if own then ∀ link, compiler.environment.settings.allowSingleIndex = true →
      compiler.progress.metadata.used = [link] → link.index = r.link.index
    else ∃ first rest, compiler.progress.metadata.used = first :: rest ∧
      (if rest = [] then first else compiler.progress.metadata.primary).index = r.link.index

/-! ## The index -/

/-- The search index is that of the only link in use, if the settings allow it. -/
theorem searchIndex_of_single (hqueried : compiler.queried = true) {link : Link}
    (hused : compiler.progress.metadata.used = [link])
    (hallow : compiler.environment.settings.allowSingleIndex = true) :
    compiler.searchIndex = .ok link.index := by
  unfold searchIndex
  simp [hqueried, hused, hallow]

/-- Otherwise it is the primary index. -/
theorem searchIndex_of_primary (hqueried : compiler.queried = true)
    (h : ∀ link, compiler.environment.settings.allowSingleIndex = true →
      compiler.progress.metadata.used ≠ [link]) :
    compiler.searchIndex = .ok compiler.progress.metadata.primary.index := by
  unfold searchIndex
  simp only [hqueried, Bool.not_true, Bool.false_eq_true, if_false]
  split
  · next link hused hallow => exact absurd hused (h link hallow)
  · rfl

/-- Genuine reports tell where queries in place are evaluated. -/
theorem evaluatedOn_iff_of_genuine (hqueried : compiler.queried = true)
    (hgenuine : ∀ r ∈ compiler.reports, r.Genuine compiler.environment compiler.progress) {r : Report}
    {own : Bool} (hr : r ∈ compiler.reports) (hplace : r.resolution = .inPlace own) :
    compiler.evaluatedOn r = .ok r.link.index ↔ compiler.InPlaceSound r own := by
  unfold evaluatedOn InPlaceSound
  cases hscan : compiler.scanAround? r with
  | some outer =>
    obtain ⟨houter, -, request, hrequest⟩ := scanAround?_spec hscan
    have hindex : request.index = outer.link.index := by
      have hscanned := hgenuine outer houter
      unfold Report.Genuine at hscanned
      rw [hrequest] at hscanned
      exact hscanned.1
    simp [hrequest, Resolution.request?, hindex]
  | none =>
    have hreport := hgenuine r hr
    unfold Report.Genuine at hreport
    rw [hplace] at hreport
    simp only [Option.bind_none]
    cases own with
    | true =>
      have hprimary : compiler.progress.metadata.primary.index = r.link.index := by rw [hreport]
      rw [if_pos rfl]
      constructor
      · intro hindex link hallow hused
        simpa [searchIndex_of_single hqueried hused hallow] using hindex
      · intro hsound
        by_cases hsingle : ∃ link, compiler.environment.settings.allowSingleIndex = true ∧
            compiler.progress.metadata.used = [link]
        · obtain ⟨link, hallow, hused⟩ := hsingle
          rw [searchIndex_of_single hqueried hused hallow, hsound link hallow hused]
        · rw [searchIndex_of_primary hqueried fun link hallow hused =>
            hsingle ⟨link, hallow, hused⟩, hprimary]
    | false =>
      -- the index that was in use when the expansion was resolved is still the first one
      obtain ⟨hallow, first, rest, hused⟩ := hreport
      have hused : compiler.progress.metadata.used = first :: rest := by rw [← hused]; rfl
      have hsearch : compiler.searchIndex = .ok
          (if rest = [] then first else compiler.progress.metadata.primary).index := by
        by_cases hrest : rest = []
        · rw [if_pos hrest]
          exact searchIndex_of_single hqueried (by rw [hused, hrest]) hallow
        · rw [if_neg hrest]
          refine searchIndex_of_primary hqueried fun link _ hsingle => hrest ?_
          rw [hused] at hsingle
          exact (List.cons.inj hsingle).2
      rw [hsearch, if_neg Bool.false_ne_true]
      constructor
      · exact fun hindex => ⟨first, rest, hused, Except.ok.inj hindex⟩
      · rintro ⟨first', rest', hused', hindex⟩
        obtain ⟨rfl, rfl⟩ := List.cons.inj (hused.symm.trans hused')
        rw [hindex]

/-- **The index of a query in place.** After compilations of which the last one is of the query, the
query of an expansion in place is evaluated on the linked index if and only if the expansion is sound
in place. Outside of scans it is, unless the settings allow for a single index. -/
theorem evaluatedOn_iff (hstart : setup.start = .ok compiler) (calls : List Call) {r : Report}
    {own : Bool} (hr : r ∈ (compiler.after calls).query.2.reports)
    (hplace : r.resolution = .inPlace own) :
    ((compiler.after calls).query.2.evaluatedOn r = .ok r.link.index ↔
      (compiler.after calls).query.2.InPlaceSound r own) ∧
    (compiler.environment.settings.allowSingleIndex = false →
      (compiler.after calls).query.2.scanAround? r = none →
        (compiler.after calls).query.2.evaluatedOn r = .ok r.link.index) := by
  have hcompiled : (compiler.after calls).query.2 = compiler.after (calls ++ [.query]) :=
    (after_append compiler calls [.query]).symm
  have hqueried : (compiler.after calls).query.2.queried = true := rfl
  rw [hcompiled] at hr hqueried ⊢
  have hstarted := Setup.started_of_ok hstart
  have hgenuine : ∀ r ∈ (compiler.after (calls ++ [.query])).reports,
      r.Genuine (compiler.after (calls ++ [.query])).environment
        (compiler.after (calls ++ [.query])).progress := by
    rw [after_environment]
    exact fun r hr => genuine_of_mem_reports hstarted _ hr
  have hiff := evaluatedOn_iff_of_genuine hqueried hgenuine hr hplace
  refine ⟨hiff, fun hallow hscan => hiff.mpr ?_⟩
  rw [← after_environment compiler (calls ++ [.query])] at hallow
  unfold InPlaceSound
  rw [hscan]
  cases own with
  | true =>
    intro link hallow'
    rw [hallow] at hallow'
    exact absurd hallow' (by simp)
  | false =>
    have hreport := hgenuine r hr
    unfold Report.Genuine at hreport
    rw [hplace, hallow] at hreport
    exact absurd hreport.1 (by simp)

/-- Books of which the author with the same key has a title, where books have titles themselves or
not. -/
def titleSearch (books : Mapping) : Setup where
  index := "books"
  request := {
    links := [.unnamed "id" "authors" "id"]
    query := some (.expansion (.unnamed "id" "authors" "id") (.word "title" (.str "x"))) }
  resolver := some (Cluster.resolver { mappings := [
    ("authors", (Mapping.keyed "authors" "id").withField "title" { type := .keyword none }),
    ("books", books)] })
  executor := some (Cluster.executor {})

/-- Where only authors have titles, the query in place of the expansion is sent to the authors. -/
theorem evaluatedOn_iff_titleSearch : ∃ compiler r,
    (titleSearch (.keyed "books" "id")).start = .ok compiler ∧ compiler.query.1.isOk = true ∧
      r ∈ compiler.query.2.reports ∧ r.resolution = .inPlace false ∧
      compiler.query.2.evaluatedOn r = .ok r.link.index := by
  have hrun : ((titleSearch (.keyed "books" "id")).start.toOption.any fun compiler =>
      compiler.query.1.isOk && compiler.query.2.reports.any fun r =>
        decide (r.resolution.own? = some false) && (compiler.query.2.scanAround? r).isNone &&
          decide (compiler.query.2.progress.metadata.used.map (·.index) = [r.link.index])) = true := by
    decide +kernel
  simp only [Option.any_eq_true, toOption_eq_some, List.any_eq_true, Bool.and_eq_true,
    decide_eq_true_eq, Option.isNone_iff_eq_none, Resolution.own?_eq_some] at hrun
  obtain ⟨compiler, hstart, hok, r, hr, ⟨hplace, hscan⟩, hused⟩ := hrun
  have hsound : compiler.query.2.InPlaceSound r false := by
    obtain ⟨first, hfirst, hindex⟩ := List.map_eq_singleton_iff.mp hused
    unfold InPlaceSound
    rw [hscan]
    exact ⟨first, [], hfirst, hindex⟩
  exact ⟨compiler, r, hstart, hok, hr, hplace, (evaluatedOn_iff hstart [] hr hplace).1.mpr hsound⟩

/-- **Titles of books** are found first: where books have titles, too, the query in place of the
expansion is sent to the books and not to the authors. -/
theorem evaluatedOn_ne_titleSearch : ∃ compiler r,
    (titleSearch ((Mapping.keyed "books" "id").withField "title" { type := .keyword none })).start =
        .ok compiler ∧ compiler.query.1.isOk = true ∧ r ∈ compiler.query.2.reports ∧
      r.resolution = .inPlace false ∧ r.enclosing = [] ∧ r.link.index = "authors" ∧
      compiler.query.2.searchIndex = .ok "books" ∧
      compiler.query.2.evaluatedOn r ≠ .ok r.link.index := by
  have hrun : ((titleSearch ((Mapping.keyed "books" "id").withField "title"
      { type := .keyword none })).start.toOption.any fun compiler =>
      compiler.query.1.isOk && compiler.query.2.reports.any fun r =>
        decide (r.resolution.own? = some false) && decide (r.enclosing = []) &&
          decide (r.link.index = "authors") &&
          compiler.query.2.searchIndex.toOption.any fun index => decide (index = "books")) = true := by
    decide +kernel
  simp only [Option.any_eq_true, toOption_eq_some, List.any_eq_true, Bool.and_eq_true,
    decide_eq_true_eq, Resolution.own?_eq_some] at hrun
  obtain ⟨compiler, hstart, hok, r, hr, ⟨⟨hplace, henclosing⟩, hindex⟩, index, hsearch, rfl⟩ := hrun
  refine ⟨compiler, r, hstart, hok, hr, hplace, henclosing, hindex, hsearch, ?_⟩
  have hevaluated : compiler.query.2.evaluatedOn r = compiler.query.2.searchIndex := by
    unfold evaluatedOn scanAround?
    rw [henclosing]
    rfl
  rw [hevaluated, hsearch, hindex]
  decide

end Compiler

end LinkedSearch
