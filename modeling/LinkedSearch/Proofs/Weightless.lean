import LinkedSearch.Cluster
import LinkedSearch.Compiler
import LinkedSearch.Proofs.Arena.Unweighted
import LinkedSearch.Proofs.Carrying

/-! # Compilations without boosts

Boosts are carried through a compilation and read nowhere on the way. So leaving out all of them before a
compilation is the same as leaving them out after it, in what it gives as well as in what it changes: in the
draft, in the requests of the scans, and in the reports on the expansions.

* `Progress.unweighted`: a state without boosts.
* `Unweighs`: a computation that is the same without boosts, up to boosts.
* `nodeWithin_unweighs`, `rootQuery_unweighs`, `aggregate_unweighs`: compilations. -/

namespace LinkedSearch

open Query (Aggregate AggregateLevel Arena Kind Label NodeId Tree)
open Schema (Mapping)

/-! ## States without boosts -/

/-- A request for a scan without the boosts of its conditions. -/
def ScanRequest.unweighted (request : ScanRequest) : ScanRequest :=
  { request with
    query := request.query.unweighted
    postFilter := request.postFilter.map Fragment.unweighted }

/-- The way an expansion is resolved, without boosts. -/
def Resolution.unweighted : Resolution → Resolution
  | inPlace own => inPlace own
  | keys => keys
  | scan request => scan request.unweighted

/-- A report on an expansion without boosts. -/
def Report.unweighted (report : Report) : Report :=
  { report with query := report.query.unweighted, resolution := report.resolution.unweighted }

/-- **A state without boosts.** -/
def Progress.unweighted (p : Progress) : Progress :=
  { p with
    draft := p.draft.unweighted
    scans := p.scans.map ScanRequest.unweighted
    reports := p.reports.map Report.unweighted }

namespace Progress

@[simp] theorem label_unweighted (p : Progress) (n : NodeId) :
    p.unweighted.draft.arena.label n = (p.draft.arena.label n).unweighted :=
  Arena.label_unweighted ..

@[simp] theorem children_unweighted (p : Progress) (n : NodeId) :
    p.unweighted.draft.arena.children n = p.draft.arena.children n :=
  Arena.children_unweighted ..

@[simp] theorem size_unweighted (p : Progress) :
    p.unweighted.draft.arena.size = p.draft.arena.size :=
  Arena.size_unweighted _

@[simp] theorem treeAt_unweighted (p : Progress) (n : NodeId) :
    p.unweighted.draft.arena.treeAt n = (p.draft.arena.treeAt n).unweighted :=
  Arena.treeAt_unweighted ..

end Progress

/-- **Weightless** executors answer requests alike that only differ in boosts. -/
def Executor.Weightless (executor : Executor) : Prop :=
  ∀ earlier request,
    executor (earlier.map ScanRequest.unweighted) request.unweighted = executor earlier request

/-- Documents are found without regard to boosts. -/
theorem Cluster.executor_weightless (cluster : Cluster) : cluster.executor.Weightless := by
  intro earlier request
  have hsearch : cluster.search request.index request.query.unweighted =
      cluster.search request.index request.query := by
    unfold Cluster.search
    simp only [Fragment.holds_unweighted]
  have hhits : cluster.hits request.unweighted = cluster.hits request := by
    unfold Cluster.hits
    simp only [ScanRequest.unweighted, hsearch]
    cases request.postFilter with
    | none => rfl
    | some filter => simp only [Option.map_some, Fragment.holds_unweighted]
  show cluster.openScan request.unweighted = cluster.openScan request
  unfold Cluster.openScan
  rw [hhits]
  rfl

/-- A scan is read alike without boosts. -/
theorem Executor.Weightless.run_eq {executor : Executor} (h : executor.Weightless)
    (earlier : List ScanRequest) (request : ScanRequest) :
    executor.run (earlier.map ScanRequest.unweighted) request.unweighted = executor.run earlier request := by
  unfold Executor.run
  rw [h]
  rfl

namespace Compile

variable {α β : Type} {env : Environment} {p : Progress}

/-- **Computations without boosts**: in a state without boosts one of them does what the other one does
in the state itself, up to boosts. -/
abbrev Unweighs (R : α → β → Prop) (x : Compile α) (y : Compile β) (p : Progress) : Prop :=
  Carries Progress.unweighted R x y p

/-- The same fragment without boosts. -/
abbrev Erased (F G : Fragment) : Prop := G = F.unweighted

/-- The same fragments without boosts. -/
theorem eq_map_of_forall₂ {f : α → β} {l : List α} {l' : List β}
    (h : List.Forall₂ (fun a b => b = f a) l l') : l' = l.map f := by
  induction h with
  | nil => rfl
  | cons hfirst _ ih => rw [List.map_cons, hfirst, ih]

/-- Lookups have nothing to do with boosts. -/
theorem spares_unweighted : Spares Progress.unweighted := ⟨fun _ => rfl, fun _ _ => rfl, fun _ => rfl⟩

/-! ## Predicates and proximities -/

/-- What is put below a nested path has no boost either. -/
theorem nest_unweighs (label : Label) {base : Fragment} (hbase : base.IsUnweighted) (p : Progress) :
    Unweighs (Kept Fragment.IsUnweighted) (nest env label base) (nest env label base) p := by
  unfold nest
  refine (nestedPathOf_carries spares_unweighted label p).bind fun path _ q hsame => ?_
  subst hsame
  split
  · refine .getSame rfl (.pure ⟨?_, rfl⟩)
    split
    · rfl
    · exact hbase
  · refine .getSame rfl ?_
    have hnested : ∀ path : String, (Fragment.nested path base none).IsUnweighted := fun path =>
      congrArg (Fragment.nested path · none) hbase
    split
    · exact .pure ⟨hnested _, rfl⟩
    · split
      · split
        · exact .pure ⟨hbase, rfl⟩
        · exact .throw _
      · exact .pure ⟨hbase, rfl⟩

/-- The fragment of a predicate has no boosts. -/
theorem leaf_unweighted (label : Label) (p : Progress) :
    Unweighs (Kept Fragment.IsUnweighted) (leaf env label) (leaf env label.unweighted) p :=
  leaf_carries spares_unweighted (fun label _ p hbase => nest_unweighs label hbase p)
    (fun _ hbase => ⟨hbase, rfl⟩) label p

/-- **Predicates** are compiled without their boost. -/
theorem leaf_unweighs (label : Label) (p : Progress) :
    Unweighs Erased (leaf env label) (leaf env label.unweighted) p :=
  (leaf_unweighted label p).mono fun _ _ ⟨hplain, hsame⟩ => hsame.symm.trans hplain.symm

/-- The clause for a phrase below a proximity. -/
theorem spanOfPhrase_unweighs (outer phrase : Label) (p : Progress) :
    Unweighs (Kept fun clause => clause.unweighted = clause) (spanOfPhrase env outer phrase)
      (spanOfPhrase env outer.unweighted phrase.unweighted) p := by
  unfold spanOfPhrase
  show Unweighs _ _ (if outer.operator = .regex then _ else _) p
  split
  · exact .pure ⟨rfl, rfl⟩
  · refine (phraseTokens_carries spares_unweighted phrase p).bind fun tokens _ q hsame => ?_
    subst hsame
    refine (Carries.mapM fun token _ r => spanOfLeaf_carries _ _ _ r).bind fun clauses _ r hall => ?_
    obtain ⟨hplain, rfl⟩ := forall₂_kept.mp hall
    split
    · next clause => exact .pure ⟨hplain clause List.mem_cons_self, rfl⟩
    · refine .pure ⟨?_, rfl⟩
      simp [Span.unweighted, List.map_congr_left hplain]

/-- The clause for a child of a proximity. -/
theorem spanOfChild_unweighs {near near' : Label → NodeId → Compile Span} (outer : Label) (n : NodeId)
    (hnear : ∀ label n p, Unweighs (fun S T => T = S.unweighted) (near label n) (near' label.unweighted n) p)
    (p : Progress) :
    Unweighs (fun S T => T = S.unweighted) (spanOfChild env near outer n)
      (spanOfChild env near' outer.unweighted n) p := by
  have hboost : ∀ label : Label, ∀ S T : Span, ∀ q, T = S.unweighted →
      Unweighs (fun S T => T = S.unweighted) (pure (label.boost.elim S S.boosted))
        (pure (label.unweighted.boost.elim T T.boosted)) q := by
    intro label S T q hT
    refine .pure ?_
    cases label.boost with
    | none => exact hT
    | some factor => exact hT.trans (Span.unweighted_boosted factor S).symm
  unfold spanOfChild
  refine .labelOf ?_
  rw [Progress.label_unweighted, Label.kind_unweighted]
  generalize p.draft.arena.label n = label
  split
  · exact (spanOfPhrase_unweighs outer label p).bind fun S _ q hkept =>
      hboost label S _ q (hkept.2 ▸ hkept.1.symm)
  · exact (hnear label n p).bind fun S T q hT => hboost label S T q hT
  · exact (spanOfLeaf_carries outer.operator outer.fieldName label p).bind fun S _ q hkept =>
      hboost label S _ q (hkept.2 ▸ hkept.1.symm)

/-- The clauses of a proximity. -/
theorem nearWithin_unweighs (fuel : Nat) (label : Label) (n : NodeId) (p : Progress) :
    Unweighs (fun S T => T = S.unweighted) (nearWithin env fuel label n)
      (nearWithin env fuel label.unweighted n) p := by
  induction fuel generalizing label n p with
  | zero => exact .throw _
  | succ fuel ih =>
    unfold nearWithin
    refine .childrenOf ?_
    rw [Progress.children_unweighted]
    refine (Carries.mapM fun c _ q => spanOfChild_unweighs label c ih q).bind fun clauses _ q hall => ?_
    obtain rfl := eq_map_of_forall₂ hall
    exact .pure (by simp [Span.unweighted])

theorem proximity_unweighs (label : Label) (n : NodeId) (p : Progress) :
    Unweighs Erased (proximity env label n) (proximity env label.unweighted n) p := by
  unfold proximity
  refine .arena ?_
  rw [Progress.size_unweighted]
  exact (nearWithin_unweighs _ label n p).bind fun S T q hT => .pure (by rw [hT, Erased, Fragment.unweighted])

/-! ## Nodes that are no expansions -/

/-- The path of a scope. -/
theorem sharedPath_unweighs (n : NodeId) (p : Progress) :
    Unweighs Eq (sharedPath env n) (sharedPath env n) p := by
  unfold sharedPath
  refine .arena (.arena ?_)
  rw [show p.unweighted.draft.arena.descendants n = p.draft.arena.descendants n from
    Arena.descendants_unweighted ..]
  have hlabels : (p.draft.arena.descendants n).map p.unweighted.draft.arena.label =
      ((p.draft.arena.descendants n).map p.draft.arena.label).map Label.unweighted := by
    rw [List.map_map]
    exact List.map_congr_left fun id _ => Progress.label_unweighted p id
  -- the paths of labels do not depend on their boosts
  have hfold : ∀ labels : List Label,
      ((labels.map Label.unweighted).filter (·.kind.isLeaf)).foldlM (sharePath env) none =
        (labels.filter (·.kind.isLeaf)).foldlM (sharePath env) none := by
    intro labels
    rw [List.filter_map, List.foldlM_map]
    rfl
  simp only
  rw [hlabels, hfold]
  refine Carries.foldlM rfl fun label _ shared _ q hsame => ?_
  subst hsame
  exact sharePath_carries spares_unweighted shared label q

section Nodes

variable {recur : NodeId → Compile Fragment} (hrecur : ∀ n p, Unweighs Erased (recur n) (recur n) p)

include hrecur

/-- The clauses of a connective. -/
theorem clauses_unweighs (ids : List NodeId) (p : Progress) :
    Unweighs (fun Fs Gs => Gs = Fs.map Fragment.unweighted) (ids.mapM recur) (ids.mapM recur) p :=
  (Carries.mapM fun c _ q => hrecur c q).mono fun _ _ => eq_map_of_forall₂

/-- A condition that a connective makes of its clauses. -/
theorem wrapped_unweighs {wrap : List Fragment → Fragment}
    (hwrap : ∀ Fs, (wrap Fs).unweighted = wrap (Fs.map Fragment.unweighted)) (n : NodeId) (p : Progress) :
    Unweighs Erased (do return wrap (← (← childrenOf n).mapM recur))
      (do return wrap (← (← childrenOf n).mapM recur)) p := by
  refine .childrenOf ?_
  rw [Progress.children_unweighted]
  exact (clauses_unweighs hrecur _ p).bind fun Fs _ q hFs => .pure (by rw [hFs, Erased, hwrap])

omit hrecur in
/-- The end of a scope. -/
theorem closeScope_unweighted (Fs : List Fragment) (p : Progress) :
    closeScope (Fs.map Fragment.unweighted) p.unweighted =
      ((closeScope Fs p).1.unweighted, (closeScope Fs p).2.unweighted) := by
  have hdepth : p.unweighted.scopeDepth = p.scopeDepth := rfl
  have hpath : p.unweighted.scopePath = p.scopePath := rfl
  unfold closeScope
  rw [← Fragment.unweighted_all, hdepth, hpath]
  split
  · rfl
  · cases p.scopePath with
    | none => rfl
    | some path =>
      simp only [Fragment.unweighted]
      rfl

/-- **Scopes.** -/
theorem scope_unweighs (n : NodeId) (p : Progress) :
    Unweighs Erased (scope env recur n) (scope env recur n) p := by
  have hrest : ∀ ids q, Unweighs Erased (scopeClauses recur ids) (scopeClauses recur ids) q := by
    intro ids q
    unfold scopeClauses
    refine Carries.bind (Carries.within ?_ ?_ (clauses_unweighs hrecur ids _)) fun Fs _ r hFs => ?_
    · rfl
    · exact fun _ => rfl
    · subst hFs
      unfold Carries wp
      rw [exec_closing, exec_closing, closeScope_unweighted]
      exact ⟨_, rfl, rfl⟩
  unfold scope
  refine .childrenOf (.get ?_)
  rw [Progress.children_unweighted]
  show Unweighs Erased _ (if p.scopeDepth = 0 then _ else _) p
  split
  · refine (sharedPath_unweighs n p).bind fun path _ q hsame => ?_
    subst hsame
    refine Carries.bind (Carries.modify ?_) fun _ _ r _ => hrest _ r
    rfl
  · exact hrest _ p

/-- **Parent and child scopes.** -/
theorem joined_unweighs {join : Fragment → Fragment}
    (hjoin : ∀ F, (join F).unweighted = join F.unweighted) (n : NodeId) (p : Progress) :
    Unweighs Erased (joined env recur join n) (joined env recur join n) p := by
  unfold joined
  refine .childrenOf ?_
  rw [Progress.children_unweighted]
  split
  · exact .pure rfl
  · next child rest _ =>
    refine (hrecur child p).bind fun F _ q hF => ?_
    subst hF
    refine .pure ?_
    split
    · exact (hjoin F).symm
    · rfl

end Nodes

/-! ## Expansions -/

theorem queryOf_unweighs (n : NodeId) (p : Progress) : Unweighs Eq (queryOf n) (queryOf n) p := by
  unfold queryOf
  refine .arena ?_
  rw [show p.unweighted.draft.arena.child? n 0 = p.draft.arena.child? n 0 from Arena.child?_unweighted ..]
  split
  · exact .pure rfl
  · exact .throw _

theorem linkOf_unweighs (n : NodeId) (p : Progress) : Unweighs Eq (linkOf n) (linkOf n) p := by
  unfold linkOf
  refine .labelOf ?_
  rw [Progress.label_unweighted, Label.kind_unweighted]
  simp only
  split
  · exact .pure rfl
  · exact .throw _

/-- A report on an expansion. -/
theorem report_unweighs (n : NodeId) (link : Link) (query : Tree) (resolution : Resolution)
    (p : Progress) :
    Unweighs Eq (report n link query resolution)
      (report n link query.unweighted resolution.unweighted) p := by
  refine Carries.modify ?_
  have hancestors : p.unweighted.draft.arena.ancestors n = p.draft.arena.ancestors n :=
    Arena.ancestors_unweighted ..
  simp only [hancestors, Progress.label_unweighted, Label.kind_unweighted]
  simp [Progress.unweighted, Report.unweighted]

/-- A change of the arena that does the same without boosts. -/
theorem modifyArena_unweighs {f g : Arena → Arena} (h : ∀ arena, (f arena).unweighted = g arena.unweighted)
    (p : Progress) : Unweighs Eq (modifyArena f) (modifyArena g) p :=
  Carries.modify (by simp [Progress.unweighted, Query.Draft.unweighted, h])

/-- A new node without a boost. -/
theorem push_unweighs {label : Label} (hlabel : label.unweighted = label) (p : Progress) :
    Unweighs Eq (push label) (push label) p := by
  unfold push
  refine .arena ?_
  simp only
  refine (modifyArena_unweighs (fun _ => ?_) p).bind fun _ _ q _ => .pure ?_
  · rw [Arena.unweighted_push, hlabel]
    rfl
  · exact (Progress.size_unweighted p).symm

/-- **Scans** have the same values. -/
theorem scan_unweighs (hexecutor : env.executor.Weightless) (request : ScanRequest) (p : Progress) :
    Unweighs Eq (scan env request) (scan env request.unweighted) p := by
  unfold scan
  refine .get ?_
  refine Carries.bind (Carries.modify ?_) fun _ _ q _ => ?_
  · simp [Progress.unweighted]
  · rw [show p.unweighted.scans = p.scans.map ScanRequest.unweighted from rfl, hexecutor.run_eq]
    exact .ofExcept fun _ _ => rfl

section Expansions

variable {recur : NodeId → Compile Fragment} (hrecur : ∀ n p, Unweighs Erased (recur n) (recur n) p)

include hrecur

theorem scanQuery_unweighs (n : NodeId) (p : Progress) :
    Unweighs Erased (scanQuery recur n) (scanQuery recur n) p := by
  unfold scanQuery
  refine .get (Carries.within ?_ ?_ (hrecur n _))
  · rfl
  · exact fun _ => rfl

/-- The condition under which documents are visible. -/
theorem visibility_unweighs (n : NodeId) (link : Link) (p : Progress) :
    Unweighs (fun F G => G = F.map Fragment.unweighted) (visibility env recur n link)
      (visibility env recur n link) p := by
  unfold visibility
  refine (look_carries spares_unweighted _ p).bind fun mapping _ q hsame => ?_
  subst hsame
  split
  · exact .pure rfl
  · refine .get ?_
    have hfind : q.unweighted.draft.find? (·.kind.isParent) = q.draft.find? (·.kind.isParent) :=
      q.draft.find?_unweighted fun _ => rfl
    have hwithin : ∀ scope, q.unweighted.draft.arena.isWithin n scope = q.draft.arena.isWithin n scope :=
      Arena.isWithin_unweighted _ n
    simp only [hfind, hwithin]
    split
    · exact .pure rfl
    · split
      · exact .pure rfl
      · exact (scanQuery_unweighs hrecur _ q).bind fun F _ r hF => .pure (by rw [hF]; rfl)

variable (hexecutor : env.executor.Weightless)

include hexecutor

/-- **Join values.** -/
theorem joinValues_unweighs (n : NodeId) (link : Link) (left right : String) (p : Progress) :
    Unweighs Eq (joinValues env recur n link left right) (joinValues env recur n link left right) p := by
  unfold joinValues
  refine (queryOf_unweighs n p).bind fun queryId _ q hsame => ?_
  subst hsame
  refine .labelOf (.arena ?_)
  rw [Progress.label_unweighted, Progress.treeAt_unweighted]
  generalize q.draft.arena.label queryId = label
  generalize q.draft.arena.treeAt queryId = tree
  refine (look_carries spares_unweighted _ q).bind fun linked _ r hsame => ?_
  subst hsame
  refine (look_carries spares_unweighted _ r).bind fun leftOwner _ s hsame => ?_
  subst hsame
  refine (look_carries spares_unweighted _ s).bind fun rightOwner _ t hsame => ?_
  subst hsame
  -- whether the keys are read off the query does not depend on any boost
  rw [show isKeyQuery label.unweighted linked leftOwner rightOwner left right =
    isKeyQuery label linked leftOwner rightOwner left right from rfl]
  split
  · exact (report_unweighs n link tree .keys t).bind fun _ _ u _ => push_unweighs rfl u
  · refine (scanQuery_unweighs hrecur queryId t).bind fun filter _ u hfilter => ?_
    refine (visibility_unweighs hrecur n link u).bind fun postFilter _ v hpost => ?_
    subst hfilter hpost
    have hrequest : scanRequest env link.index right filter.unweighted (postFilter.map Fragment.unweighted) =
        (scanRequest env link.index right filter postFilter).unweighted := by
      simp [scanRequest, ScanRequest.unweighted, Fragment.unweighted]
    simp only [hrequest]
    refine (report_unweighs n link tree (.scan _) v).bind fun _ _ w _ => ?_
    refine (scan_unweighs hexecutor _ w).bind fun values _ x hsame => ?_
    subst hsame
    exact push_unweighs rfl x

omit hrecur hexecutor in
theorem isKeyHop_unweighs (hop : String) (p : Progress) :
    Unweighs Eq (isKeyHop env hop) (isKeyHop env hop) p := by
  unfold isKeyHop
  simp only
  split
  · exact .pure rfl
  · exact (look_carries spares_unweighted _ p).bind fun mapping _ q hsame => .pure (by rw [hsame])

omit hrecur hexecutor in
theorem joinFields_unweighs (path : List String) (p : Progress) :
    Unweighs Eq (joinFields env path) (joinFields env path) p := by
  unfold joinFields
  split
  · next left right =>
    refine (isKeyHop_unweighs left p).bind fun key _ q hsame => ?_
    subst hsame
    split
    · exact (isKeyHop_unweighs right q).bind fun keys _ r hsame => .pure (by rw [hsame])
    · exact .pure rfl
  · split
    · exact .pure rfl
    · exact .throw _
  · exact .throw _

omit hrecur hexecutor in
/-- A query that takes the place of its expansion. -/
theorem substitute_unweighs (n : NodeId) (link : Link) (own : Bool) (p : Progress) :
    Unweighs Eq (substitute n link own) (substitute n link own) p := by
  unfold substitute
  refine (queryOf_unweighs n p).bind fun query _ q hsame => ?_
  subst hsame
  refine .arena ?_
  rw [Progress.treeAt_unweighted]
  exact (report_unweighs n link _ (.inPlace own) q).bind fun _ _ r _ => .pure rfl

theorem resolveLink_unweighs (n : NodeId) (link target : Link) (p : Progress) :
    Unweighs Eq (resolveLink env recur n link target) (resolveLink env recur n link target) p := by
  unfold resolveLink
  refine (Carries.ofExcept fun _ _ => rfl).bind fun path _ q hsame => ?_
  subst hsame
  refine (joinFields_unweighs path q).bind fun fields _ r hsame => ?_
  subst hsame
  obtain ⟨left, right, oneToOne⟩ := fields
  refine .getSame rfl ?_
  split
  · exact substitute_unweighs n link false r
  · exact joinValues_unweighs hrecur hexecutor n link left right r

theorem resolveGenerated_unweighs (n : NodeId) (label : Label) (link primary : Link) (p : Progress) :
    Unweighs Eq (resolveGenerated env recur n label link primary)
      (resolveGenerated env recur n label.unweighted link primary) p := by
  unfold resolveGenerated
  refine (joinValues_unweighs hrecur hexecutor n link _ _ p).bind fun values _ q hsame => ?_
  subst hsame
  refine (look_carries spares_unweighted _ q).bind fun owner _ r hsame => ?_
  subst hsame
  split
  · exact .pure rfl
  · refine (modifyArena_unweighs (fun _ => Arena.unweighted_setChild ..) r).bind fun _ _ s _ => ?_
    refine (look_carries spares_unweighted _ s).bind fun mapping _ t hsame => ?_
    subst hsame
    exact joinValues_unweighs hrecur hexecutor n link _ _ t

omit hrecur hexecutor in
/-- What has taken the place of an expansion gets its boost, if there is one. -/
theorem place_unweighs (n resolved : NodeId) (label : Label) (p : Progress) :
    Unweighs Eq
      (do
        modifyArena fun arena => arena.replace n resolved
        if label.boost.isSome then
          modifyArena fun arena => arena.modifyLabel n fun new => { new with boost := label.boost })
      (do
        modifyArena fun arena => arena.replace n resolved
        if label.unweighted.boost.isSome then
          modifyArena fun arena =>
            arena.modifyLabel n fun new => { new with boost := label.unweighted.boost }) p := by
  refine (modifyArena_unweighs (fun arena => Arena.unweighted_replace arena n resolved) p).bind
    fun _ _ q _ => ?_
  show Unweighs Eq _ (pure ()) q
  split
  · refine ⟨(), ?_, rfl⟩
    show (Except.ok (), q.unweighted) = (Except.ok (), _)
    simp [Progress.unweighted, Query.Draft.unweighted, Arena.unweighted_modifyLabel_boost]
  · exact .pure rfl

/-- **Resolution** of an expansion. -/
theorem resolve_unweighs (primary target : Link) (n : NodeId) (p : Progress) :
    Unweighs Eq (resolve env recur primary target n) (resolve env recur primary target n) p := by
  unfold resolve
  refine .labelOf ?_
  rw [Progress.label_unweighted]
  generalize p.draft.arena.label n = label
  refine (linkOf_unweighs n p).bind fun link _ q hsame => ?_
  subst hsame
  refine .get ?_
  simp only
  rw [show q.unweighted.generated = q.generated from rfl, Label.kind_unweighted]
  split
  · refine (substitute_unweighs n link true q).bind fun resolved _ r hsame => ?_
    exact hsame ▸ place_unweighs n resolved label r
  · split
    · refine (resolveGenerated_unweighs hrecur hexecutor n label link primary q).bind
        fun resolved _ r hsame => ?_
      exact hsame ▸ place_unweighs n resolved label r
    · refine (resolveLink_unweighs hrecur hexecutor n link target q).bind
        fun resolved _ r hsame => ?_
      exact hsame ▸ place_unweighs n resolved label r

/-- **Expansions**, whose stack is resolved first. -/
theorem expand_unweighs (n : NodeId) (p : Progress) :
    Unweighs Erased (expand env recur n) (expand env recur n) p := by
  unfold expand
  refine (linkOf_unweighs n p).bind fun link _ q hsame => ?_
  subst hsame
  refine .arena (.get (.get ?_))
  rw [show q.unweighted.draft.arena.expansions n = q.draft.arena.expansions n from
    Arena.expansions_unweighted ..]
  have hstack : ∀ primary target r, Unweighs Erased
      (do (q.draft.arena.expansions n).reverse.forM (resolve env recur primary target); recur n)
      (do (q.draft.arena.expansions n).reverse.forM (resolve env recur primary target); recur n) r :=
    fun primary target r => (Carries.forM fun c _ s => resolve_unweighs hrecur hexecutor primary target c s).bind
      fun _ _ s _ => hrecur n s
  simp only
  rw [show q.unweighted.generated = q.generated from rfl, show q.unweighted.metadata = q.metadata from rfl]
  cases link.name with
  | none => exact hstack _ _ q
  | some name =>
    exact (modifyArena_unweighs (fun arena => Arena.unweighted_stripName arena n name) q).bind
      fun _ _ r _ => hstack _ _ r

theorem expansion_unweighs (n : NodeId) (generated : Bool) (p : Progress) :
    Unweighs Erased (expansion env recur n generated) (expansion env recur n generated) p := by
  unfold expansion
  split
  · refine Carries.within ?_ ?_ (expand_unweighs hrecur hexecutor n _)
    · rfl
    · exact fun _ => rfl
  · exact expand_unweighs hrecur hexecutor n p

/-! ## Nodes -/

/-- **A node** is compiled alike without boosts if the nodes below it are. -/
theorem node_unweighs (n : NodeId) (p : Progress) :
    Unweighs Erased (node env recur n) (node env recur n) p := by
  have hweighted : ∀ {x y : Compile Fragment} (label : Label), Unweighs Erased x y p →
      Unweighs Erased (do return (← x).weighted label.boost)
        (do return (← y).weighted label.unweighted.boost) p := by
    intro x y label h
    refine h.bind fun F G q hG => .pure ?_
    rw [Erased, Fragment.unweighted_weighted]
    exact hG
  have hchild : ∀ typeName F, (Fragment.hasChild typeName F none).unweighted =
      .hasChild typeName F.unweighted none := fun _ _ => by rw [Fragment.unweighted]
  have hparent : ∀ typeName F, (Fragment.hasParent typeName F none).unweighted =
      .hasParent typeName F.unweighted none := fun _ _ => by rw [Fragment.unweighted]
  unfold node
  refine .labelOf ?_
  rw [Progress.label_unweighted, Label.kind_unweighted]
  split
  · exact wrapped_unweighs hrecur Fragment.unweighted_all n p
  · exact wrapped_unweighs hrecur Fragment.unweighted_any n p
  · refine .getSame rfl ?_
    split
    · exact .pure rfl
    · exact wrapped_unweighs hrecur Fragment.unweighted_excluding n p
  · exact scope_unweighs hrecur n p
  · next typeName _ => exact joined_unweighs hrecur (hchild typeName) n p
  · next typeName _ =>
    refine .getSame rfl ?_
    split
    · exact .pure rfl
    · exact joined_unweighs hrecur (hparent typeName) n p
  · next generated _ => exact expansion_unweighs hrecur hexecutor n generated p
  · exact hweighted _ (proximity_unweighs _ n p)
  · exact hweighted _ (leaf_unweighs _ p)

end Expansions

section Queries

variable (hexecutor : env.executor.Weightless)

include hexecutor

/-- **Every node is compiled alike without boosts**, by induction on how deep a compilation may go. -/
theorem nodeWithin_unweighs (fuel : Nat) (n : NodeId) (p : Progress) :
    Unweighs Erased (nodeWithin env fuel n) (nodeWithin env fuel n) p := by
  induction fuel generalizing n p with
  | zero => exact .throw _
  | succ fuel ih => exact node_unweighs ih hexecutor n p

theorem rootQuery_unweighs (p : Progress) : Unweighs Erased (rootQuery env) (rootQuery env) p := by
  unfold rootQuery
  refine .getSame rfl ?_
  split
  · unfold query
    refine .arena ?_
    rw [Progress.size_unweighted]
    exact nodeWithin_unweighs hexecutor _ _ p
  · exact .pure rfl

end Queries

end Compile

/-! ## Aggregates -/

/-- An aggregation without the boosts of its filter. -/
def Aggregation.unweighted : Aggregation → Aggregation
  | filter fragment => filter fragment.unweighted
  | aggregation => aggregation

namespace AggregationTree

mutual

/-- A tree of aggregations without the boosts of their filters. -/
def unweighted : AggregationTree → AggregationTree
  | node name aggregation inner => node name aggregation.unweighted (unweightedAll inner)

/-- Some trees of aggregations without the boosts of their filters. -/
def unweightedAll : List AggregationTree → List AggregationTree
  | [] => []
  | tree :: rest => tree.unweighted :: unweightedAll rest

end

end AggregationTree

namespace Compile

variable {env : Environment}

/-- The aggregation of a level has no boosts. -/
theorem aggregation_unweighs (level : AggregateLevel) (p : Progress) :
    Unweighs (Kept fun compiled => compiled.unweighted = compiled) (aggregation env level)
      (aggregation env level) p := by
  unfold aggregation
  split
  · unfold tally
    refine (look_carries spares_unweighted _ p).bind fun mapping _ q hsame => ?_
    subst hsame
    split
    · split
      · exact .pure ⟨rfl, rfl⟩
      · exact .throw _
    · exact .pure ⟨rfl, rfl⟩
  · unfold ranges
    refine (look_carries spares_unweighted _ p).bind fun mapping _ q hsame => ?_
    subst hsame
    split
    · exact (Carries.ofExcept fun _ _ => rfl).bind fun ranges _ r hsame => .pure ⟨rfl, by rw [hsame]⟩
    · exact (Carries.ofExcept fun _ _ => rfl).bind fun ranges _ r hsame => .pure ⟨rfl, by rw [hsame]⟩
  · unfold significant
    exact (look_carries spares_unweighted _ p).bind fun mapping _ q hsame => .pure ⟨rfl, by rw [hsame]⟩
  · exact .pure ⟨rfl, rfl⟩

/-- The check of an inner level. -/
theorem checkInner_unweighs (outer inner : AggregateLevel) (compiled : Aggregation) (p : Progress) :
    Unweighs Eq (checkInner env outer compiled inner) (checkInner env outer compiled inner) p := by
  have howner : ∀ q, Unweighs Eq (do
        let owner ← ownerOf env inner.field
        if owner.index ≠ (← get).metadata.primary.index then throw Error.foreignSubAggregate : Compile Unit)
      (do
        let owner ← ownerOf env inner.field
        if owner.index ≠ (← get).metadata.primary.index then throw Error.foreignSubAggregate) q := by
    intro q
    refine (look_carries spares_unweighted _ q).bind fun owner _ r hsame => ?_
    subst hsame
    refine .getSame rfl ?_
    split
    · exact .throw _
    · exact .pure rfl
  unfold checkInner
  simp only
  split
  · exact (Carries.throw (R := Eq) _).bind fun _ _ q _ => howner q
  · exact howner p

section Levels

variable (hexecutor : env.executor.Weightless)

include hexecutor

/-- A tree of aggregations in the scope of a level. -/
theorem inScope_unweighs (level : AggregateLevel) (tree : AggregationTree) (p : Progress) :
    Unweighs (fun T U => U = T.unweighted) (inScope env level tree) (inScope env level tree.unweighted) p := by
  unfold inScope
  split
  · exact .pure rfl
  · unfold overNested
    refine (rootQuery_unweighs hexecutor p).bind fun filter _ q hfilter => ?_
    subst hfilter
    exact .pure (by simp [AggregationTree.unweighted, AggregationTree.unweightedAll, AggregationTree.leaf,
      Aggregation.unweighted])

/-- **Chains of aggregates.** -/
theorem levels_unweighs (outer : AggregateLevel) (inner : List AggregateLevel) (p : Progress) :
    Unweighs (fun T U => U = T.unweighted) (levels env outer inner) (levels env outer inner) p := by
  induction inner generalizing outer p with
  | nil =>
    rw [levels]
    refine (aggregation_unweighs outer p).bind fun compiled _ q hkept => ?_
    obtain ⟨hplain, rfl⟩ := hkept
    have hleaf : (AggregationTree.leaf outer.field compiled).unweighted = .leaf outer.field compiled := by
      simp [AggregationTree.leaf, AggregationTree.unweighted, AggregationTree.unweightedAll, hplain]
    have hscope := inScope_unweighs hexecutor outer (.leaf outer.field compiled) q
    rwa [hleaf] at hscope
  | cons next rest ih =>
    rw [levels]
    refine (aggregation_unweighs outer p).bind fun compiled _ q hkept => ?_
    obtain ⟨hplain, rfl⟩ := hkept
    refine (checkInner_unweighs outer next compiled q).bind fun _ _ r _ => ?_
    refine (ih next r).bind fun tree _ s htree => ?_
    subst htree
    have hnode : (AggregationTree.node outer.field compiled [tree]).unweighted =
        .node outer.field compiled [tree.unweighted] := by
      simp [AggregationTree.unweighted, AggregationTree.unweightedAll, hplain]
    have hscope := inScope_unweighs hexecutor outer (.node outer.field compiled [tree]) s
    rwa [hnode] at hscope

/-- **Aggregates** are compiled alike without boosts. -/
theorem aggregate_unweighs (p : Progress) :
    Unweighs (fun T U => U = T.map AggregationTree.unweighted) (aggregate env) (aggregate env) p := by
  unfold aggregate
  refine .getSame rfl ?_
  split
  · exact .pure rfl
  · next aggregate _ =>
    refine Carries.within ?_ ?_ ((levels_unweighs hexecutor aggregate.outer aggregate.inner _).bind
      fun tree _ q htree => .pure ?_)
    · rfl
    · exact fun _ => rfl
    · rw [htree]
      rfl

end Levels

end Compile

end LinkedSearch
