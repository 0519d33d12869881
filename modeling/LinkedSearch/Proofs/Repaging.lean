import LinkedSearch.Compiler
import LinkedSearch.Proofs.Carrying
import LinkedSearch.Proofs.Paging

/-! # Compilations with other pages

How scans page is written into their requests and read nowhere else. So a compilation with other settings for
it goes the same way, as long as the scans end with the same outcome, and what it has changed in the end is the
same up to these settings in the requests and in the reports on them.

* `Progress.repaged`, `Environment.repaged`: a state and its surroundings with other pages.
* `Executor.Unpaged`: executors whose scans do not depend on the pages, as those in memory.
* `Repages`: a computation that does the same with other pages.
* `nodeWithin_repages`, `rootQuery_repages`, `aggregate_repages`: compilations. -/

namespace LinkedSearch

open Query (Aggregate AggregateLevel Arena Kind Label NodeId Tree)

/-! ## States with other pages -/

/-- A request for a scan with other pages. -/
def ScanRequest.repaged (paging : ScanSettings) (request : ScanRequest) : ScanRequest :=
  { request with
    batchSize := paging.batchSize
    keepAlive := paging.keepAlive
    continuationKeepAlive := paging.continuationKeepAlive }

/-- The way an expansion is resolved, with other pages. -/
def Resolution.repaged (paging : ScanSettings) : Resolution → Resolution
  | inPlace own => inPlace own
  | keys => keys
  | scan request => scan (request.repaged paging)

/-- A report on an expansion with other pages. -/
def Report.repaged (paging : ScanSettings) (report : Report) : Report :=
  { report with resolution := report.resolution.repaged paging }

/-- **A state with other pages.** -/
def Progress.repaged (paging : ScanSettings) (p : Progress) : Progress :=
  { p with
    scans := p.scans.map (ScanRequest.repaged paging)
    reports := p.reports.map (Report.repaged paging) }

namespace Progress

variable (paging : ScanSettings) (p : Progress)

@[simp] theorem draft_repaged : (p.repaged paging).draft = p.draft := rfl
@[simp] theorem metadata_repaged : (p.repaged paging).metadata = p.metadata := rfl
@[simp] theorem scopeDepth_repaged : (p.repaged paging).scopeDepth = p.scopeDepth := rfl
@[simp] theorem aggregating_repaged : (p.repaged paging).aggregating = p.aggregating := rfl
@[simp] theorem generated_repaged : (p.repaged paging).generated = p.generated := rfl

end Progress

/-- The same surroundings, where scans have other pages. -/
def Environment.repaged (paging : ScanSettings) (env : Environment) : Environment :=
  { env with settings := { env.settings with scan := paging } }

/-- **Unpaged** executors: what a scan ends with does not depend on its pages. -/
def Executor.Unpaged (executor : Executor) : Prop :=
  ∀ paging earlier request,
    (executor.run (earlier.map (ScanRequest.repaged paging)) (request.repaged paging)).outcome =
      (executor.run earlier request).outcome

/-- **Scans in memory** do not depend on their pages. -/
theorem Cluster.executor_unpaged (cluster : Cluster) : cluster.executor.Unpaged := by
  intro paging earlier request
  rw [run_executor, run_executor]
  have hhits : cluster.hits (request.repaged paging) = cluster.hits request := rfl
  have hindex : (request.repaged paging).index = request.index := rfl
  rw [hhits, hindex]
  rcases cluster.hits request with error | hits
  · rfl
  · by_cases hfailures : cluster.failuresOf request.index = []
    · simp only [hfailures, ne_eq, not_true_eq_false, if_false]
      rfl
    · simp only [hfailures, ne_eq, not_false_eq_true, if_true]

namespace Compile

variable {α β : Type} {env : Environment} {paging : ScanSettings} {p : Progress}

/-- **Computations with other pages**: one that starts in a state with other pages does what another one does
in the state itself. -/
abbrev Repages (paging : ScanSettings) (x y : Compile α) (p : Progress) : Prop :=
  Carries (Progress.repaged paging) Eq x y p

/-- Lookups have nothing to do with pages. -/
theorem spares_repaged (paging : ScanSettings) : Spares (Progress.repaged paging) :=
  ⟨fun _ => rfl, fun _ _ => rfl, fun _ => rfl⟩

/-- Loops over the same list. -/
theorem mapM_repages {ι : Type} {f g : ι → Compile α} {l : List ι}
    (h : ∀ i ∈ l, ∀ q, Repages paging (f i) (g i) q) : Repages paging (l.mapM f) (l.mapM g) p :=
  (Carries.mapM h).mono fun as bs hall => by rwa [List.forall₂_eq_eq_eq] at hall

/-! ## Predicates, proximities and scopes -/

theorem nest_repages (label : Label) (base : Fragment) (p : Progress) :
    Repages paging (nest env label base) (nest env label base) p := by
  unfold nest
  refine (nestedPathOf_carries (spares_repaged paging) label p).bindSame fun path q => ?_
  split
  · exact .getSame rfl (.pure rfl)
  · refine .getSame rfl ?_
    split
    · exact .pure rfl
    · split
      · split
        · exact .pure rfl
        · exact .throw _
      · exact .pure rfl

theorem leaf_repages (label : Label) (p : Progress) :
    Repages paging (leaf env label) (leaf (env.repaged paging) label) p :=
  leaf_carries (spares_repaged paging) (fun label base p _ => nest_repages label base p)
    (fun _ _ => rfl) label p

theorem spanOfPhrase_repages (outer phrase : Label) (p : Progress) :
    Repages paging (spanOfPhrase env outer phrase) (spanOfPhrase (env.repaged paging) outer phrase) p := by
  unfold spanOfPhrase
  split
  · exact .pure rfl
  · refine (phraseTokens_carries (spares_repaged paging) phrase p).bindSame fun tokens q => ?_
    refine (Carries.mapM fun token _ r => spanOfLeaf_carries _ _ _ r).bind fun clauses _ r hall => ?_
    obtain ⟨-, rfl⟩ := forall₂_kept.mp hall
    split <;> exact .pure rfl

/-- The clause for a child of a proximity. -/
theorem spanOfChild_repages {near near' : Label → NodeId → Compile Span} (outer : Label) (n : NodeId)
    (hnear : ∀ label n p, Repages paging (near label n) (near' label n) p) (p : Progress) :
    Repages paging (spanOfChild env near outer n) (spanOfChild (env.repaged paging) near' outer n) p := by
  unfold spanOfChild
  refine .labelOf ?_
  rw [Progress.draft_repaged]
  generalize p.draft.arena.label n = label
  split
  · exact (spanOfPhrase_repages outer label p).bindSame fun span q => .pure rfl
  · exact (hnear label n p).bindSame fun span q => .pure rfl
  · exact (spanOfLeaf_carries _ _ label p).bind fun span _ q hkept => .pure (by rw [hkept.2])

/-- The clauses of a proximity, by induction on the depth of proximities. -/
theorem nearWithin_repages (fuel : Nat) (label : Label) (n : NodeId) (p : Progress) :
    Repages paging (nearWithin env fuel label n) (nearWithin (env.repaged paging) fuel label n) p := by
  induction fuel generalizing label n p with
  | zero => exact .throw _
  | succ fuel ih =>
    unfold nearWithin
    exact .childrenOf ((mapM_repages fun c _ q => spanOfChild_repages label c ih q).bindSame
      fun clauses q => .pure rfl)

theorem proximity_repages (label : Label) (n : NodeId) (p : Progress) :
    Repages paging (proximity env label n) (proximity (env.repaged paging) label n) p := by
  unfold proximity
  exact .arena ((nearWithin_repages _ label n p).bindSame fun span q => .pure rfl)

/-- The path of a scope. -/
theorem sharedPath_repages (n : NodeId) (p : Progress) :
    Repages paging (sharedPath env n) (sharedPath (env.repaged paging) n) p := by
  unfold sharedPath
  refine .arena (.arena (Carries.foldlM rfl fun label _ shared _ q hsame => ?_))
  subst hsame
  exact sharePath_carries (spares_repaged paging) shared label q

section Nodes

variable {recur recur' : NodeId → Compile Fragment}
  (hrecur : ∀ n p, Repages paging (recur n) (recur' n) p)

include hrecur

/-- The children of a node. -/
theorem clauses_repages (ids : List NodeId) (p : Progress) :
    Repages paging (ids.mapM recur) (ids.mapM recur') p :=
  mapM_repages fun c _ q => hrecur c q

omit hrecur in
/-- The end of a scope. -/
theorem closeScope_repaged (Fs : List Fragment) (p : Progress) :
    closeScope Fs (p.repaged paging) = ((closeScope Fs p).1, (closeScope Fs p).2.repaged paging) := by
  unfold closeScope
  rw [Progress.scopeDepth_repaged]
  split <;> rfl

/-- **Scopes.** -/
theorem scope_repages (n : NodeId) (p : Progress) :
    Repages paging (scope env recur n) (scope (env.repaged paging) recur' n) p := by
  have hrest : ∀ ids q, Repages paging (scopeClauses recur ids) (scopeClauses recur' ids) q := by
    intro ids q
    unfold scopeClauses
    refine Carries.bindSame (Carries.within ?_ ?_ (clauses_repages hrecur ids _)) fun Fs r => ?_
    · rfl
    · exact fun _ => rfl
    · -- the end of a scope looks at its depth and its path, which have nothing to do with pages
      unfold Carries wp
      rw [exec_closing, exec_closing, closeScope_repaged]
      exact ⟨_, rfl, rfl⟩
  unfold scope
  refine .childrenOf (.get ?_)
  show Repages paging _ (if p.scopeDepth = 0 then _ else _) p
  split
  · refine (sharedPath_repages n p).bindSame fun path q => ?_
    refine Carries.bindSame (Carries.modify ?_) fun _ r => hrest _ r
    rfl
  · exact hrest _ p

/-- **Parent and child scopes.** -/
theorem joined_repages (join : Fragment → Fragment) (n : NodeId) (p : Progress) :
    Repages paging (joined env recur join n) (joined (env.repaged paging) recur' join n) p := by
  unfold joined
  refine .childrenOf ?_
  rw [Progress.draft_repaged]
  split
  · exact .pure rfl
  · next child rest _ => exact (hrecur child p).bindSame fun F q => .pure rfl

/-! ## Expansions -/

omit hrecur in
theorem queryOf_repages (n : NodeId) (p : Progress) : Repages paging (queryOf n) (queryOf n) p := by
  unfold queryOf
  refine .arena ?_
  rw [Progress.draft_repaged]
  split
  · exact .pure rfl
  · exact .throw _

omit hrecur in
theorem linkOf_repages (n : NodeId) (p : Progress) : Repages paging (linkOf n) (linkOf n) p := by
  unfold linkOf
  refine .labelOf ?_
  rw [Progress.draft_repaged]
  simp only
  split
  · exact .pure rfl
  · exact .throw _

omit hrecur in
/-- A report on an expansion. -/
theorem report_repages (n : NodeId) (link : Link) (query : Tree) (resolution : Resolution) (p : Progress) :
    Repages paging (report n link query resolution) (report n link query (resolution.repaged paging)) p :=
  .modify (by simp [Progress.repaged, Report.repaged])

omit hrecur in
/-- A new node. -/
theorem push_repages (label : Label) (p : Progress) : Repages paging (push label) (push label) p := by
  unfold push
  exact .arena (Carries.bindSame (.modify rfl) fun _ q => .pure rfl)

omit hrecur in
/-- **Scans** end with the same outcome. -/
theorem scan_repages (hexecutor : env.executor.Unpaged) (request : ScanRequest) (p : Progress) :
    Repages paging (scan env request) (scan (env.repaged paging) (request.repaged paging)) p := by
  unfold scan
  refine .get (Carries.bindSame (.modify ?_) fun _ q => ?_)
  · simp [Progress.repaged]
  · -- the earlier requests have other pages as well, and the executor looks at neither
    have houtcome : ((env.repaged paging).executor.run (p.repaged paging).scans
        (request.repaged paging)).outcome = (env.executor.run p.scans request).outcome :=
      hexecutor paging p.scans request
    rw [houtcome]
    exact .ofExcept fun _ _ => rfl

theorem scanQuery_repages (n : NodeId) (p : Progress) :
    Repages paging (scanQuery recur n) (scanQuery recur' n) p := by
  unfold scanQuery
  exact .get (.within rfl (fun _ => rfl) (hrecur n _))

/-- The condition under which documents are visible. -/
theorem visibility_repages (n : NodeId) (link : Link) (p : Progress) :
    Repages paging (visibility env recur n link) (visibility (env.repaged paging) recur' n link) p := by
  unfold visibility
  refine (look_carries (spares_repaged paging) _ p).bindSame fun mapping q => ?_
  split
  · exact .pure rfl
  · refine .get ?_
    rw [Progress.draft_repaged]
    simp only
    split
    · exact .pure rfl
    · split
      · exact .pure rfl
      · exact (scanQuery_repages hrecur _ q).bindSame fun F r => .pure rfl

omit hrecur in
theorem joinFields_repages (path : List String) (p : Progress) :
    Repages paging (joinFields env path) (joinFields (env.repaged paging) path) p := by
  have hkey : ∀ hop q, Repages paging (isKeyHop env hop) (isKeyHop (env.repaged paging) hop) q := by
    intro hop q
    unfold isKeyHop
    simp only
    split
    · exact .pure rfl
    · exact (look_carries (spares_repaged paging) _ q).bindSame fun mapping r => .pure rfl
  unfold joinFields
  split
  · next left right =>
    refine (hkey left p).bindSame fun key q => ?_
    split
    · exact (hkey right q).bindSame fun keys r => .pure rfl
    · exact .pure rfl
  · show Carries _ _ _ (if env.resolver.equivalent _ _ && env.resolver.equivalent _ _ then _ else _) _
    split
    · exact .pure rfl
    · exact .throw _
  · exact .throw _

omit hrecur in
/-- A query that takes the place of its expansion. -/
theorem substitute_repages (n : NodeId) (link : Link) (own : Bool) (p : Progress) :
    Repages paging (substitute n link own) (substitute n link own) p := by
  unfold substitute
  refine (queryOf_repages n p).bindSame fun query q => .arena ?_
  exact (report_repages n link _ (.inPlace own) q).bindSame fun _ r => .pure rfl

variable (hexecutor : env.executor.Unpaged)

include hexecutor

/-- **Join values.** The request is the same with other pages. -/
theorem joinValues_repages (n : NodeId) (link : Link) (left right : String) (p : Progress) :
    Repages paging (joinValues env recur n link left right)
      (joinValues (env.repaged paging) recur' n link left right) p := by
  unfold joinValues
  refine (queryOf_repages n p).bindSame fun queryId q => .labelOf (.arena ?_)
  rw [Progress.draft_repaged]
  generalize q.draft.arena.label queryId = label
  generalize q.draft.arena.treeAt queryId = tree
  refine (look_carries (spares_repaged paging) _ q).bindSame fun linked r => ?_
  refine (look_carries (spares_repaged paging) _ r).bindSame fun leftOwner s => ?_
  refine (look_carries (spares_repaged paging) _ s).bindSame fun rightOwner t => ?_
  split
  · exact (report_repages n link tree .keys t).bindSame fun _ u => push_repages _ u
  · -- both requests are made of the same conditions, so that only their pages differ
    refine (scanQuery_repages hrecur queryId t).bindSame fun filter u => ?_
    refine (visibility_repages hrecur n link u).bindSame fun postFilter v => ?_
    refine (report_repages n link tree (.scan (scanRequest env link.index right filter postFilter)) v).bindSame
      fun _ w => ?_
    exact (scan_repages hexecutor (scanRequest env link.index right filter postFilter) w).bindSame
      fun values x => push_repages _ x

theorem resolveLink_repages (n : NodeId) (link target : Link) (p : Progress) :
    Repages paging (resolveLink env recur n link target)
      (resolveLink (env.repaged paging) recur' n link target) p := by
  unfold resolveLink
  refine Carries.bindSame (.ofExcept fun _ _ => rfl) fun path q => ?_
  refine (joinFields_repages path q).bindSame fun fields r => ?_
  refine .get ?_
  rw [Progress.metadata_repaged]
  show Carries _ _ _ (if fields.2.2 && r.metadata.used.length == 1 && env.settings.allowSingleIndex then _
    else _) _
  split
  · exact substitute_repages n link false r
  · exact joinValues_repages hrecur hexecutor n link _ _ r

theorem resolveGenerated_repages (n : NodeId) (label : Label) (link primary : Link) (p : Progress) :
    Repages paging (resolveGenerated env recur n label link primary)
      (resolveGenerated (env.repaged paging) recur' n label link primary) p := by
  unfold resolveGenerated
  refine (joinValues_repages hrecur hexecutor n link _ _ p).bindSame fun values q => ?_
  refine (look_carries (spares_repaged paging) _ q).bindSame fun owner r => ?_
  split
  · exact .pure rfl
  · refine Carries.bindSame (.modify rfl) fun _ s => ?_
    refine (look_carries (spares_repaged paging) _ s).bindSame fun mapping t => ?_
    exact joinValues_repages hrecur hexecutor n link _ _ t

/-- **Resolution** of an expansion. -/
theorem resolve_repages (primary target : Link) (n : NodeId) (p : Progress) :
    Repages paging (resolve env recur primary target n) (resolve (env.repaged paging) recur' primary target n) p := by
  -- putting something in the place of the expansion has nothing to do with pages
  have hplace : ∀ (label : Label) (resolved : NodeId) q, Repages paging
      (do
        modifyArena fun arena => arena.replace n resolved
        if label.boost.isSome then
          modifyArena fun arena => arena.modifyLabel n fun new => { new with boost := label.boost })
      (do
        modifyArena fun arena => arena.replace n resolved
        if label.boost.isSome then
          modifyArena fun arena => arena.modifyLabel n fun new => { new with boost := label.boost }) q := by
    intro label resolved q
    refine Carries.bindSame (.modify rfl) fun _ r => ?_
    split
    · exact .modify rfl
    · exact .pure rfl
  unfold resolve
  refine .labelOf ?_
  rw [Progress.draft_repaged]
  generalize p.draft.arena.label n = label
  refine (linkOf_repages n p).bindSame fun link q => .get ?_
  rw [Progress.generated_repaged]
  simp only
  split
  · exact (substitute_repages n link true q).bindSame fun resolved r => hplace label resolved r
  · split
    · exact (resolveGenerated_repages hrecur hexecutor n label link primary q).bindSame
        fun resolved r => hplace label resolved r
    · exact (resolveLink_repages hrecur hexecutor n link target q).bindSame
        fun resolved r => hplace label resolved r

/-- **Expansions**, whose stack is resolved first. -/
theorem expand_repages (n : NodeId) (p : Progress) :
    Repages paging (expand env recur n) (expand (env.repaged paging) recur' n) p := by
  unfold expand
  refine (linkOf_repages n p).bindSame fun link q => .arena (.get (.get ?_))
  rw [Progress.draft_repaged, Progress.metadata_repaged, Progress.generated_repaged]
  have hstack : ∀ ids primary target r, Repages paging
      (do List.forM ids (resolve env recur primary target); recur n)
      (do List.forM ids (resolve (env.repaged paging) recur' primary target); recur' n) r :=
    fun ids primary target r => (Carries.forM fun c _ s =>
      resolve_repages hrecur hexecutor primary target c s).bindSame fun _ s => hrecur n s
  cases link.name with
  | none => exact hstack _ _ _ q
  | some name => exact Carries.bindSame (.modify rfl) fun _ r => hstack _ _ _ r

theorem expansion_repages (n : NodeId) (generated : Bool) (p : Progress) :
    Repages paging (expansion env recur n generated) (expansion (env.repaged paging) recur' n generated) p := by
  unfold expansion
  split
  · exact .within rfl (fun _ => rfl) (expand_repages hrecur hexecutor n _)
  · exact expand_repages hrecur hexecutor n p

/-! ## Nodes -/

/-- **A node** is compiled alike if the nodes below it are. -/
theorem node_repages (n : NodeId) (p : Progress) :
    Repages paging (node env recur n) (node (env.repaged paging) recur' n) p := by
  unfold node
  refine .labelOf ?_
  rw [Progress.draft_repaged]
  split
  · exact .childrenOf ((clauses_repages hrecur _ p).bindSame fun Fs q => .pure rfl)
  · exact .childrenOf ((clauses_repages hrecur _ p).bindSame fun Fs q => .pure rfl)
  · refine .get ?_
    rw [Progress.aggregating_repaged]
    split
    · exact .pure rfl
    · exact .childrenOf ((clauses_repages hrecur _ p).bindSame fun Fs q => .pure rfl)
  · exact scope_repages hrecur n p
  · exact joined_repages hrecur _ n p
  · refine .get ?_
    rw [Progress.aggregating_repaged]
    split
    · exact .pure rfl
    · exact joined_repages hrecur _ n p
  · next generated _ => exact expansion_repages hrecur hexecutor n generated p
  · exact (proximity_repages _ n p).bindSame fun F q => .pure rfl
  · exact (leaf_repages _ p).bindSame fun F q => .pure rfl

end Nodes

section Queries

variable (hexecutor : env.executor.Unpaged)

include hexecutor

/-- **Every node is compiled alike with other pages**, by induction on how deep a compilation may go. -/
theorem nodeWithin_repages (fuel : Nat) (n : NodeId) (p : Progress) :
    Repages paging (nodeWithin env fuel n) (nodeWithin (env.repaged paging) fuel n) p := by
  induction fuel generalizing n p with
  | zero => exact .throw _
  | succ fuel ih => exact node_repages ih hexecutor n p

theorem rootQuery_repages (p : Progress) :
    Repages paging (rootQuery env) (rootQuery (env.repaged paging)) p := by
  unfold rootQuery
  refine .get ?_
  rw [Progress.draft_repaged]
  split
  · exact .arena (nodeWithin_repages hexecutor _ _ p)
  · exact .pure rfl

/-! ## Aggregates -/

omit hexecutor in
/-- The aggregation of a level. -/
theorem aggregation_repages (level : AggregateLevel) (p : Progress) :
    Repages paging (aggregation env level) (aggregation (env.repaged paging) level) p := by
  unfold aggregation
  split
  · unfold tally
    refine (look_carries (spares_repaged paging) _ p).bindSame fun mapping q => ?_
    split
    · split
      · exact .pure rfl
      · exact .throw _
    · exact .pure rfl
  · unfold ranges
    refine (look_carries (spares_repaged paging) _ p).bindSame fun mapping q => ?_
    split
    · exact Carries.bindSame (.ofExcept fun _ _ => rfl) fun ranges r => .pure rfl
    · exact Carries.bindSame (.ofExcept fun _ _ => rfl) fun ranges r => .pure rfl
  · unfold significant
    exact (look_carries (spares_repaged paging) _ p).bindSame fun mapping q => .pure rfl
  · exact .pure rfl

omit hexecutor in
/-- The check of an inner level. -/
theorem checkInner_repages (outer inner : AggregateLevel) (compiled : Aggregation) (p : Progress) :
    Repages paging (checkInner env outer compiled inner) (checkInner (env.repaged paging) outer compiled inner)
      p := by
  have howner : ∀ q, Repages paging (do
        let owner ← ownerOf env inner.field
        if owner.index ≠ (← get).metadata.primary.index then throw Error.foreignSubAggregate : Compile Unit)
      (do
        let owner ← ownerOf env inner.field
        if owner.index ≠ (← get).metadata.primary.index then throw Error.foreignSubAggregate) q := by
    intro q
    refine (look_carries (spares_repaged paging) _ q).bindSame fun owner r => .getSame rfl ?_
    split
    · exact .throw _
    · exact .pure rfl
  unfold checkInner
  simp only
  split
  · exact Carries.bindSame (.throw _) fun _ q => howner q
  · exact howner p

/-- A tree of aggregations in the scope of a level. -/
theorem inScope_repages (level : AggregateLevel) (tree : AggregationTree) (p : Progress) :
    Repages paging (inScope env level tree) (inScope (env.repaged paging) level tree) p := by
  unfold inScope
  split
  · exact .pure rfl
  · exact (rootQuery_repages hexecutor p).bindSame fun filter q => .pure rfl

/-- **Chains of aggregates**, by induction on the inner levels. -/
theorem levels_repages (outer : AggregateLevel) (inner : List AggregateLevel) (p : Progress) :
    Repages paging (levels env outer inner) (levels (env.repaged paging) outer inner) p := by
  induction inner generalizing outer p with
  | nil =>
    rw [levels, levels]
    exact (aggregation_repages outer p).bindSame fun compiled q => inScope_repages hexecutor outer _ q
  | cons next rest ih =>
    rw [levels, levels]
    refine (aggregation_repages outer p).bindSame fun compiled q => ?_
    refine (checkInner_repages outer next compiled q).bindSame fun _ r => ?_
    exact (ih next r).bindSame fun tree s => inScope_repages hexecutor outer _ s

/-- **Aggregates** are compiled alike with other pages. -/
theorem aggregate_repages (p : Progress) :
    Repages paging (aggregate env) (aggregate (env.repaged paging)) p := by
  unfold aggregate
  refine .get ?_
  rw [Progress.draft_repaged]
  split
  · exact .pure rfl
  · next aggregate _ =>
    exact .within rfl (fun _ => rfl)
      ((levels_repages hexecutor aggregate.outer aggregate.inner _).bindSame fun tree q => .pure rfl)

end Queries

end Compile

end LinkedSearch
