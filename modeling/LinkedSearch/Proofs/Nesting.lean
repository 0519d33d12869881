import LinkedSearch.Proofs.Accounting

/-! # Which conditions lie below nested fragments

What a compiler sends is only about nested objects where its conditions lie below a nested fragment. This
is decided for every condition of a query, and of the filter of an aggregate, by the predicate that it
comes from:

* `AggregationTree.filters`: the filters of an aggregation.
* `levels_filters`: every nested level has a filter, which is the compiled query.
* `Compiler.query_nested_iff`: the conditions of a query without expansions.
* `Compiler.filter_nested_iff`: the conditions of a filter over such a query. -/

namespace LinkedSearch

open Query (AggregateLevel Arena Label Tree)
open Schema (Mapping)

/-! ## Filters -/

/-- The fragment of a filter. -/
def Aggregation.filter? : Aggregation → Option Fragment
  | filter fragment => some fragment
  | _ => none

namespace AggregationTree

mutual

/-- **Filters** of a tree of aggregations. -/
def filters : AggregationTree → List Fragment
  | node _ aggregation inner => aggregation.filter?.toList ++ filtersOf inner

/-- The filters of several trees. -/
def filtersOf : List AggregationTree → List Fragment
  | [] => []
  | tree :: rest => tree.filters ++ filtersOf rest

end

end AggregationTree

namespace Compile

variable {env : Environment} {p : Progress}

/-- What comes after a computation of which nothing is known. -/
theorem wp_bind_any {α β : Type} {x : Compile β} {f : β → Compile α} {Q : α → Progress → Prop}
    (hf : ∀ b q, wp (f b) Q (fun _ _ => True) q) : wp (x >>= f) Q (fun _ _ => True) p := by
  rw [wp_bind]
  rcases hexec : exec x p with ⟨error | b, q⟩
  · exact (wp_of_error hexec).mpr trivial
  · exact (wp_of_ok hexec).mpr (hf b q)

/-- The aggregation of a level is no filter. -/
theorem filter?_aggregation (level : AggregateLevel) :
    wp (aggregation env level) (fun compiled _ => compiled.filter? = none) (fun _ _ => True) p := by
  unfold aggregation
  split
  · refine wp_bind_any fun mapping q => ?_
    split
    · split
      · exact rfl
      · exact trivial
    · exact rfl
  · refine wp_bind_any fun mapping q => ?_
    split <;> exact wp_bind_any fun _ _ => rfl
  · exact wp_bind_any fun _ _ => rfl
  · exact rfl

/-- A level in the scope of nested objects has one more filter, which is the compiled query. -/
theorem filters_inScope (hp : RootSettled env p) {level : AggregateLevel}
    {tree whole : AggregationTree} (h : (exec (inScope env level tree) p).1 = .ok whole) :
    (level.nestedPath = none ∧ whole.filters = tree.filters) ∨
      level.nestedPath.isSome = true ∧ ∃ F, (exec (rootQuery env) p).1 = .ok F ∧
        whole.filters = F :: tree.filters := by
  unfold inScope at h
  split at h
  · next hnone =>
    obtain rfl := Except.ok.inj h
    exact .inl ⟨hnone, rfl⟩
  · next path hpath =>
    obtain ⟨F, hF, h⟩ := ((rootQuery_timeless hp).bind_ok fun _ => .pure _).mp h
    obtain rfl := Except.ok.inj h
    refine .inr ⟨by rw [hpath]; rfl, F, hF, ?_⟩
    simp [AggregationTree.filters, AggregationTree.filtersOf, AggregationTree.leaf, Aggregation.filter?]

/-- **Every nested level of an aggregate has a filter**, and all of them are the compiled query. -/
theorem levels_filters (hp : RootSettled env p) (inner : List AggregateLevel) :
    ∀ {outer : AggregateLevel} {tree : AggregationTree}, (exec (levels env outer inner) p).1 = .ok tree →
      tree.filters.length = (outer :: inner).countP (·.nestedPath.isSome) ∧
        ∀ F ∈ tree.filters, (exec (rootQuery env) p).1 = .ok F := by
  -- the filters of a level are those inside of it, and its own if it is nested
  have hscope : ∀ {level : AggregateLevel} {tree whole : AggregationTree} {count : Nat},
      (exec (inScope env level tree) p).1 = .ok whole → tree.filters.length = count →
      (∀ F ∈ tree.filters, (exec (rootQuery env) p).1 = .ok F) →
      whole.filters.length = count + (if level.nestedPath.isSome then 1 else 0) ∧
        ∀ F ∈ whole.filters, (exec (rootQuery env) p).1 = .ok F := by
    intro level tree whole count h hcount hall
    rcases filters_inScope hp h with ⟨hnone, hfilters⟩ | ⟨hsome, F, hF, hfilters⟩
    · rw [hfilters, hnone]
      exact ⟨hcount, hall⟩
    · rw [hfilters, hsome, List.length_cons, hcount]
      exact ⟨rfl, List.forall_mem_cons.mpr ⟨hF, hall⟩⟩
  have hlevel : ∀ {level : AggregateLevel} {compiled : Aggregation},
      (exec (aggregation env level) p).1 = .ok compiled → compiled.filter? = none := fun h =>
    (wp_of_ok (Prod.ext h rfl)).mp (filter?_aggregation _)
  induction inner with
  | nil =>
    intro outer tree h
    rw [levels] at h
    obtain ⟨compiled, hcompiled, h⟩ := ((aggregation_timeless hp.1 outer).bind_ok fun _ =>
      inScope_timeless hp outer _).mp h
    have hleaf : (AggregationTree.leaf outer.field compiled).filters = [] := by
      simp [AggregationTree.leaf, AggregationTree.filters, AggregationTree.filtersOf, hlevel hcompiled]
    obtain ⟨hlength, hall⟩ := hscope h (congrArg List.length hleaf) (by rw [hleaf]; simp)
    exact ⟨by rw [hlength]; simp [List.countP_cons], hall⟩
  | cons next rest ih =>
    intro outer tree h
    rw [levels] at h
    have hrest : ∀ compiled : Aggregation, ∀ inner : AggregationTree,
        Timeless env (inScope env outer (.node outer.field compiled [inner])) p := fun _ _ =>
      inScope_timeless hp outer _
    have hinner : ∀ compiled : Aggregation, Timeless env (do
        let inner ← levels env next rest
        inScope env outer (.node outer.field compiled [inner])) p := fun compiled =>
      (levels_timeless hp next rest).bind (hrest compiled)
    obtain ⟨compiled, hcompiled, h⟩ := ((aggregation_timeless hp.1 outer).bind_ok fun compiled =>
      (checkInner_timeless hp.1 outer next compiled).bind fun _ => hinner compiled).mp h
    obtain ⟨_, -, h⟩ := ((checkInner_timeless hp.1 outer next compiled).bind_ok fun _ =>
      hinner compiled).mp h
    obtain ⟨inner, hlevels, h⟩ := ((levels_timeless hp next rest).bind_ok (hrest compiled)).mp h
    obtain ⟨hcount, hall⟩ := ih hlevels
    have hnode : (AggregationTree.node outer.field compiled [inner]).filters = inner.filters := by
      simp [AggregationTree.filters, AggregationTree.filtersOf, hlevel hcompiled]
    obtain ⟨hlength, hall⟩ := hscope h (by rw [hnode, hcount]) (by rw [hnode]; exact hall)
    exact ⟨hlength.trans List.countP_cons.symm, hall⟩

/-- The filters of a compiled aggregate. -/
theorem aggregate_filters (hp : RootSettled env p) {compiled : AggregationTree}
    (h : (exec (aggregate env) p).1 = .ok (some compiled)) :
    ∃ aggregate, p.draft.aggregate = some aggregate ∧
      compiled.filters.length =
        (aggregate.outer :: aggregate.inner).countP (·.nestedPath.isSome) ∧
      ∀ F ∈ compiled.filters, (exec (rootQuery env) { p with aggregating := true }).1 = .ok F := by
  have hfilter : RootSettled env { p with aggregating := true } :=
    ⟨⟨hp.1.ascending, hp.1.faithful⟩, hp.2⟩
  rw [aggregate, exec_get_bind] at h
  split at h
  · exact absurd (Except.ok.inj h) (by simp)
  · next aggregate haggregate =>
    have h : (exec (levels env aggregate.outer aggregate.inner >>= fun tree => pure (some tree))
        { p with aggregating := true }).1 = .ok (some compiled) := h
    obtain ⟨tree, htree, hsome⟩ := ((levels_timeless hfilter _ _).bind_ok fun _ => .pure _).mp h
    obtain rfl := Option.some.inj (Except.ok.inj hsome)
    exact ⟨aggregate, haggregate, levels_filters hfilter _ htree⟩

/-- The compiled query is accounted for, in a query and in a filter. -/
theorem rootQuery_accounted (hp : Sound env p) {root : Nat} (hroot : p.draft.root = some root)
    {tree : Tree} (hheld : p.draft.arena.Holds root tree) (hlt : root < p.draft.arena.size)
    (hbare : tree.IsBare) {F : Fragment} (h : (exec (rootQuery env) p).1 = .ok F) :
    Accounted env p tree F := by
  rw [exec_rootQuery hroot] at h
  exact nodeWithin_accounted _ hp hheld hlt hbare h

/-! ## Pieces outside of scopes -/

section Fitting

variable {piece : Piece} (h : Fits env p piece) (hzero : p.scopeDepth = 0)

include h hzero

/-- **A predicate with a nested path** has its conditions below it if it stands in a scope, or is not
loose. -/
theorem Fits.mem_paths_iff {path : String}
    (hpath : p.metadata.pathOf env.resolver piece.leaf = .ok (some path)) :
    ∀ x ∈ piece.primitives,
      (path ∈ x.1 ↔ piece.inScope = true ∨ piece.isLoose env p.metadata = false) := by
  intro x hx
  obtain ⟨y, hy, rfl⟩ := List.mem_map.mp hx
  show path ∈ piece.paths ++ y.1 ↔ _
  rcases hscope : piece.inScope with _ | _
  · rw [h.outside hscope, List.nil_append]
    rcases hloose : piece.isLoose env p.metadata with _ | _
    · have hwrapped := h.wrapped hloose
      rw [hscope] at hwrapped
      obtain ⟨path', hpath', hy⟩ := hwrapped.paths y hy
      have hpath' : p.metadata.pathOf env.resolver piece.leaf = .ok path' := hpath'
      obtain rfl := Except.ok.inj (hpath.symm.trans hpath')
      have hy : y.1 = if p.scopeDepth = 0 then [path] else [] := hy
      simp [hy, hzero]
    · simp [(h.loose hloose).1 y hy]
  · simp [h.shared hzero hscope path hpath]

omit hzero in
/-- A predicate without a nested path matches everything in a filter, unless it is loose. -/
theorem Fits.isMatchAll_iff (hfilter : p.aggregating = true)
    (hpath : p.metadata.pathOf env.resolver piece.leaf = .ok none) :
    piece.part.isMatchAll = true ↔ piece.isLoose env p.metadata = false := by
  constructor
  · intro hall
    rcases hloose : piece.isLoose env p.metadata with _ | _
    · rfl
    · exact absurd ((h.loose hloose).2.symm.trans hall) (by simp)
  · intro hloose
    have hwrapped := h.wrapped hloose
    cases hscope : piece.inScope with
    | true => rw [hscope] at hwrapped; exact hwrapped.admitted hfilter hpath
    | false => rw [hscope] at hwrapped; exact hwrapped.admitted hfilter hpath

/-- **The conditions of a predicate in a filter** lie below a nested fragment if a scope around it has a
path, or it is not loose. -/
theorem Fits.nested_iff (hfilter : p.aggregating = true) : ∀ x ∈ piece.primitives,
    (x.1 ≠ [] ↔ piece.paths ≠ [] ∨ piece.isLoose env p.metadata = false) := by
  intro x hx
  obtain ⟨y, hy, rfl⟩ := List.mem_map.mp hx
  show piece.paths ++ y.1 ≠ [] ↔ _
  rcases hloose : piece.isLoose env p.metadata with _ | _
  · refine iff_of_true ?_ (.inr rfl)
    -- a predicate without a nested path has no condition left
    have hpath : ∃ path, p.metadata.pathOf env.resolver piece.leaf = .ok (some path) := by
      have hwrapped := h.wrapped hloose
      obtain ⟨path, hpath, -⟩ := hwrapped.paths y hy
      have hpath : p.metadata.pathOf env.resolver piece.leaf = .ok path := by
        cases hscope : piece.inScope <;> rw [hscope] at hpath <;> exact hpath
      cases path with
      | some path => exact ⟨path, hpath⟩
      | none =>
        have hall := (h.isMatchAll_iff hfilter hpath).mpr hloose
        rw [Fragment.primitives_of_isMatchAll hall] at hy
        exact absurd hy List.not_mem_nil
    obtain ⟨path, hpath⟩ := hpath
    have hmem := (h.mem_paths_iff hzero hpath _ hx).mpr (.inr hloose)
    exact List.ne_nil_of_mem hmem
  · simp [(h.loose hloose).1 y hy]

end Fitting

end Compile

namespace Compiler

open Compile

variable {setup : Setup} {compiler : Compiler}

/-! ## Compilers -/

/-- **Which conditions of a query lie below the nested paths of their predicates.** The fragment of a query
without expansions is made up of pieces, one for each predicate. The conditions of a predicate on nested
objects are below their path, unless the predicate is loose (it is a phrase of several words that asks for
their positions, it stands below a proximity, or it is a script) and stands in no scope. -/
theorem query_nested_iff (hstart : setup.start = .ok compiler) {tree : Tree}
    (htree : setup.request.query = some tree) (hbare : tree.IsBare) (uses : List Use) {F : Fragment}
    (hquery : (compiler.used uses).query.1 = .ok F) :
    (tree.pieces setup.settings.useParentChild false F).map (·.leaf) = tree.leaves false ∧
      F.primitives = (tree.pieces setup.settings.useParentChild false F).flatMap Piece.primitives ∧
      ∀ piece ∈ tree.pieces setup.settings.useParentChild false F, ∀ path,
        compiler.progress.metadata.pathOf compiler.environment.resolver piece.leaf = .ok (some path) →
        ∀ x ∈ piece.primitives, (path ∈ x.1 ↔ piece.inScope = true ∨
          piece.isLoose compiler.environment compiler.progress.metadata = false) := by
  have hstarted := Setup.started_of_ok hstart
  obtain ⟨md, hprogress⟩ := hstarted.progress_eq
  have hmode : compiler.progress.aggregating = false := by rw [hprogress]
  have hzero : compiler.progress.scopeDepth = 0 := by rw [hprogress]
  obtain ⟨root, hroot, hheld, hlt⟩ := holds_of_started hstarted htree
  -- the query has no history, so that it is the one of the compiler that was just started
  obtain ⟨-, -, hagain, -⟩ := used_transparent hstart
    (fun tree' htree' => Option.some.inj (htree.symm.trans htree') ▸ hbare) uses
  have haccounted := rootQuery_accounted hstarted.sound hroot hheld hlt hbare (hagain ▸ hquery)
  rw [← hstarted.settings_eq]
  have hfits := haccounted.fits
  have hleaves := haccounted.leaves
  have hprimitives := haccounted.primitives
  rw [hmode] at hfits hleaves hprimitives
  exact ⟨hleaves, hprimitives, fun piece hpiece path hpath =>
    (hfits piece hpiece).mem_paths_iff hzero hpath⟩

/-- Books with a title and nested items with a tag, and the tags of the items that a query finds. -/
def itemSearch (query : Tree) : Setup where
  index := "books"
  request := {
    query := some query
    aggregate := some { outer := { kind := .tally "" 10 .count, field := "tag", nestedPath := some "items" } } }
  resolver := some (Cluster.resolver { mappings := [
    ("books", ((Mapping.keyed "books" "id").withField "title" { type := .text "standard" }).withField
      "tag" { type := .text "standard", nestedPath := some "items" })] })
  executor := some (Cluster.executor { documents := [("books", [])] })

/-- A word with the tag of an item, and a scope around a phrase with a distance. -/
def scopedPhrase : Tree :=
  .conjunction [.word "tag" (.str "x"), .scope [.proximityPhrase "tag" "a b" 2 true]]

/-- Whether the path of a predicate is known to be the given one. -/
def hasPath (compiler : Compiler) (path : Option String) (label : Label) : Bool :=
  match compiler.progress.metadata.pathOf compiler.environment.resolver label with
  | .ok path' => decide (path' = path)
  | .error _ => false

theorem hasPath_iff {path : Option String} {label : Label} : compiler.hasPath path label = true ↔
    compiler.progress.metadata.pathOf compiler.environment.resolver label = .ok path := by
  unfold hasPath
  cases compiler.progress.metadata.pathOf compiler.environment.resolver label <;> simp

/-- The word and the phrase in a scope have all of their conditions below the path of the items. -/
theorem query_nested_iff_scopedPhrase : ∃ compiler F,
    (itemSearch scopedPhrase).start = .ok compiler ∧
    (compiler.used [.call .aggregation, .call .query]).query.1 = .ok F ∧
    2 ≤ F.primitives.length ∧ ∀ x ∈ F.primitives, "items" ∈ x.1 := by
  have hrun : ((itemSearch scopedPhrase).start.toOption.any fun compiler =>
      (compiler.used [.call .aggregation, .call .query]).query.1.toOption.any fun F =>
        decide (2 ≤ F.primitives.length) &&
        (scopedPhrase.pieces (itemSearch scopedPhrase).settings.useParentChild false F).all fun piece =>
          compiler.hasPath (some "items") piece.leaf &&
            (piece.inScope || !piece.isLoose compiler.environment compiler.progress.metadata)) =
      true := by
    decide +kernel
  have hbare : scopedPhrase.IsBare := by
    unfold Tree.IsBare
    decide
  simp only [Option.any_eq_true, toOption_eq_some, Bool.and_eq_true, decide_eq_true_eq,
    List.all_eq_true, Bool.or_eq_true, Bool.not_eq_true'] at hrun
  obtain ⟨compiler, hstart, F, hF, hlength, hpieces⟩ := hrun
  obtain ⟨-, hprimitives, hiff⟩ := query_nested_iff hstart rfl hbare
    [.call .aggregation, .call .query] hF
  refine ⟨compiler, F, hstart, hF, hlength, fun x hx => ?_⟩
  rw [hprimitives] at hx
  obtain ⟨piece, hpiece, hx⟩ := List.mem_flatMap.mp hx
  obtain ⟨hpath, hcase⟩ := hpieces piece hpiece
  exact (hiff piece hpiece "items" (hasPath_iff.mp hpath) x hx).mpr hcase

/-- **A phrase of several words with a distance**, on the tags of the items but in no scope, is compiled to a
condition on spans that lies below no nested fragment. -/
theorem not_nested_itemSearch : ∃ compiler F,
    (itemSearch (.proximityPhrase "tag" "a b" 2 true)).start = .ok compiler ∧
    compiler.query.1 = .ok F ∧
    (∀ label ∈ (Tree.proximityPhrase "tag" "a b" 2 true).preorder,
      compiler.progress.metadata.pathOf compiler.environment.resolver label = .ok (some "items")) ∧
    ∃ x ∈ F.primitives, x.2.kind = "span_term" ∧ "items" ∉ x.1 := by
  have hrun : ((itemSearch (.proximityPhrase "tag" "a b" 2 true)).start.toOption.any fun compiler =>
      compiler.query.1.toOption.any fun F =>
        ((Tree.proximityPhrase "tag" "a b" 2 true).preorder.all fun label =>
          compiler.hasPath (some "items") label) &&
        F.primitives.any fun x => decide (x.2.kind = "span_term") && decide ("items" ∉ x.1)) = true := by
    decide +kernel
  simp only [Option.any_eq_true, toOption_eq_some, Bool.and_eq_true, decide_eq_true_eq,
    List.all_eq_true, List.any_eq_true] at hrun
  obtain ⟨compiler, hstart, F, hF, hpaths, x, hx, hkind, hnone⟩ := hrun
  exact ⟨compiler, F, hstart, hF, fun label hl => hasPath_iff.mp (hpaths label hl), x, hx, hkind, hnone⟩

/-- **Which conditions of a filter are about nested objects.** The filters of an aggregate over a query
without expansions are as many as its nested levels, and each is made up of pieces, one for each predicate
that does not stand in a match of parents or children. The conditions of a predicate lie below a nested
fragment, of a scope or of its own, unless the predicate is loose and stands in no scope with a path; and
a predicate without a nested path leaves no condition, unless it is loose. -/
theorem filter_nested_iff (hstart : setup.start = .ok compiler) {tree : Tree}
    (htree : setup.request.query = some tree) (hbare : tree.IsBare) (uses : List Use)
    {compiled : AggregationTree} (haggregation : (compiler.used uses).aggregation.1 = .ok (some compiled)) :
    (∃ aggregate, setup.request.aggregate = some aggregate ∧
      compiled.filters.length =
        (aggregate.outer :: aggregate.inner).countP (·.nestedPath.isSome)) ∧
    ∀ F ∈ compiled.filters,
      (tree.pieces setup.settings.useParentChild true F).map (·.leaf) = tree.leaves true ∧
      F.primitives = (tree.pieces setup.settings.useParentChild true F).flatMap Piece.primitives ∧
      ∀ piece ∈ tree.pieces setup.settings.useParentChild true F,
        (∀ x ∈ piece.primitives, (x.1 ≠ [] ↔ piece.paths ≠ [] ∨
          piece.isLoose compiler.environment compiler.progress.metadata = false)) ∧
        (compiler.progress.metadata.pathOf compiler.environment.resolver piece.leaf = .ok none →
          (piece.part.isMatchAll = true ↔
            piece.isLoose compiler.environment compiler.progress.metadata = false)) := by
  have hstarted := Setup.started_of_ok hstart
  obtain ⟨md, hprogress⟩ := hstarted.progress_eq
  have hall : ∀ tree', setup.request.query = some tree' → tree'.IsBare := fun tree' htree' =>
    Option.some.inj (htree.symm.trans htree') ▸ hbare
  obtain ⟨root, hroot, hheld, hlt⟩ := holds_of_started hstarted htree
  obtain ⟨-, -, -, hagain, -⟩ := used_transparent hstart hall uses
  have hfilters : (exec (aggregate compiler.environment) compiler.progress).1 = .ok (some compiled) :=
    hagain ▸ haggregation
  obtain ⟨aggregate, haggregate, hcount, hcompiled⟩ :=
    aggregate_filters (rootSettled_of_started hstarted hall) hfilters
  refine ⟨⟨aggregate, ?_, hcount⟩, fun F hF => ?_⟩
  · rw [hprogress] at haggregate
    exact haggregate
  · -- a filter is compiled as the query is, but in the mode of aggregates
    have hsound : Sound compiler.environment { compiler.progress with aggregating := true } :=
      ⟨hstarted.sound.ascending, hstarted.sound.faithful⟩
    have hzero : compiler.progress.scopeDepth = 0 := by rw [hprogress]
    obtain ⟨hleaves, hprimitives, hfits⟩ :=
      rootQuery_accounted hsound hroot hheld hlt hbare (hcompiled F hF)
    rw [← hstarted.settings_eq]
    exact ⟨hleaves, hprimitives, fun piece hpiece =>
      ⟨(hfits piece hpiece).nested_iff hzero rfl, (hfits piece hpiece).isMatchAll_iff rfl⟩⟩

/-- The one filter of the tags of items has all of its conditions below the path of the items. -/
theorem filter_nested_iff_scopedPhrase : ∃ compiler compiled,
    (itemSearch scopedPhrase).start = .ok compiler ∧
    (compiler.used [.call .query]).aggregation.1 = .ok (some compiled) ∧
    compiled.filters.length = 1 ∧
    ∀ F ∈ compiled.filters, 2 ≤ F.primitives.length ∧ ∀ x ∈ F.primitives, x.1 ≠ [] := by
  have hrun : ((itemSearch scopedPhrase).start.toOption.any fun compiler =>
      (compiler.used [.call .query]).aggregation.1.toOption.any fun aggregation =>
        aggregation.any fun compiled => compiled.filters.all fun F =>
          decide (2 ≤ F.primitives.length) &&
          (scopedPhrase.pieces (itemSearch scopedPhrase).settings.useParentChild true F).all fun piece =>
            (!piece.paths.isEmpty ||
              !piece.isLoose compiler.environment compiler.progress.metadata)) = true := by
    decide +kernel
  have hbare : scopedPhrase.IsBare := by
    unfold Tree.IsBare
    decide
  simp only [Option.any_eq_true, toOption_eq_some, Bool.and_eq_true, decide_eq_true_eq,
    List.all_eq_true, Bool.or_eq_true, Bool.not_eq_true', List.isEmpty_eq_false_iff] at hrun
  obtain ⟨compiler, hstart, _, haggregation, compiled, rfl, hfilters⟩ := hrun
  obtain ⟨⟨aggregate, haggregate, hcount⟩, hall⟩ := filter_nested_iff hstart rfl hbare
    [.call .query] haggregation
  obtain rfl := Option.some.inj haggregate
  refine ⟨compiler, compiled, hstart, haggregation, hcount, fun F hF => ?_⟩
  obtain ⟨hlength, hpieces⟩ := hfilters F hF
  obtain ⟨-, hprimitives, hiff⟩ := hall F hF
  refine ⟨hlength, fun x hx => ?_⟩
  rw [hprimitives] at hx
  obtain ⟨piece, hpiece, hx⟩ := List.mem_flatMap.mp hx
  exact ((hiff piece hpiece).1 x hx).mpr (hpieces piece hpiece)

/-- **A phrase on the title of the books** stays in the filter of the tags of their items, as a condition on
spans that lies below no nested fragment. -/
theorem not_admitted_itemSearch : ∃ compiler compiled F,
    (itemSearch (.proximityPhrase "title" "a b" 2 true)).start = .ok compiler ∧
    compiler.aggregation.1 = .ok (some compiled) ∧ compiled.filters = [F] ∧
    (∀ label ∈ (Tree.proximityPhrase "title" "a b" 2 true).preorder,
      compiler.progress.metadata.pathOf compiler.environment.resolver label = .ok none) ∧
    F.isMatchAll = false ∧ ∃ x ∈ F.primitives, x.2.kind = "span_term" ∧ x.1 = [] := by
  have hrun : ((itemSearch (.proximityPhrase "title" "a b" 2 true)).start.toOption.any fun compiler =>
      compiler.aggregation.1.toOption.any fun aggregation => aggregation.any fun compiled =>
        compiled.filters.head?.any fun F =>
          decide (compiled.filters.length = 1) &&
          ((Tree.proximityPhrase "title" "a b" 2 true).preorder.all fun label =>
            compiler.hasPath none label) && !F.isMatchAll &&
          F.primitives.any fun x => decide (x.2.kind = "span_term") && decide (x.1 = [])) = true := by
    decide +kernel
  simp only [Option.any_eq_true, toOption_eq_some, Bool.and_eq_true, decide_eq_true_eq,
    List.all_eq_true, List.any_eq_true, Bool.not_eq_true'] at hrun
  obtain ⟨compiler, hstart, _, haggregation, compiled, rfl, F, hF,
    ⟨⟨hlength, hpaths⟩, hopen⟩, x, hx, hkind, hnone⟩ := hrun
  refine ⟨compiler, compiled, F, hstart, haggregation, ?_,
    fun label hl => hasPath_iff.mp (hpaths label hl), hopen, x, hx, hkind, hnone⟩
  obtain ⟨rest, hrest⟩ := List.head?_eq_some_iff.mp hF
  rw [hrest] at hlength ⊢
  simpa using hlength

end Compiler

end LinkedSearch
