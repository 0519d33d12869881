import LinkedSearch.Cluster
import LinkedSearch.Proofs.Using

/-! # What is restored after every call

A compilation counts the scopes around a node, and keeps the nested path of the outermost one, whether an
aggregate is being compiled, and which synthesized expansions are being resolved. All of this is undone
when the compilation ends, on whatever line it fails, with one exception: the path of a scope that
failed stays.

* `Progress.withPath`: a state with another leftover path.
* `Compile.Blind`: computations that keep the depth of scopes and, outside of scopes, do not see the path.
* `nodeWithin_blind`, `aggregate_blind`: compilations are blind, as the outermost scope writes the path
  before anything in it reads it.
* `Compiler.used_restored`: what holds between any two calls. -/

namespace LinkedSearch

open Query (AggregateLevel Label NodeId Operator Tree)
open Schema (Mapping)

/-- A state with another path of the outermost scope. -/
def Progress.withPath (p : Progress) (path : Option String) : Progress := { p with scopePath := path }

namespace Compile

variable {α β : Type} {env : Environment}

/-! ## Blindness -/

/-- A computation that leaves all scopes which it enters. -/
def Level (x : Compile α) : Prop := ∀ p, (exec x p).2.scopeDepth = p.scopeDepth

theorem Level.bind {x : Compile β} {f : β → Compile α} (hx : Level x) (hf : ∀ b, Level (f b)) :
    Level (x >>= f) := by
  intro p
  have hdepth := hx p
  rw [exec_bind]
  rcases hexec : exec x p with ⟨e | b, q⟩
  · rwa [hexec] at hdepth
  · rw [hexec] at hdepth
    exact (hf b q).trans hdepth

/-- Any outcome is one with some path. -/
theorem exists_withPath (r : Except Error α × Progress) : ∃ path, r = (r.1, r.2.withPath path) :=
  ⟨r.2.scopePath, rfl⟩

/-- **Blindness**: a computation that leaves all scopes which it enters and, if it starts outside of
scopes, does the same whatever the path left by an earlier one. -/
structure Blind (x : Compile α) : Prop where
  depth_eq : Level x
  outcome_eq : ∀ p path, p.scopeDepth = 0 →
    ∃ path', exec x (p.withPath path) = ((exec x p).1, (exec x p).2.withPath path')

namespace Blind

theorem pure (a : α) : Blind (pure a) := ⟨fun _ => rfl, fun _ path _ => ⟨path, rfl⟩⟩

theorem throw (error : Error) : Blind (throw error : Compile α) :=
  ⟨fun _ => rfl, fun _ path _ => ⟨path, rfl⟩⟩

theorem ofExcept (outcome : Except Error α) : Blind (ofExcept outcome) :=
  ⟨fun _ => rfl, fun _ path _ => ⟨path, rfl⟩⟩

/-- Lookups know nothing of scopes. -/
theorem look (lookup : Lookup α) : Blind (look lookup) :=
  ⟨fun _ => rfl, fun _ path _ => ⟨path, rfl⟩⟩

theorem bind {x : Compile β} {f : β → Compile α} (hx : Blind x) (hf : ∀ b, Blind (f b)) :
    Blind (x >>= f) where
  depth_eq := hx.depth_eq.bind fun b => (hf b).depth_eq
  outcome_eq := by
    intro p path hzero
    have hdepth := hx.depth_eq p
    obtain ⟨path', hsame⟩ := hx.outcome_eq p path hzero
    rw [exec_bind, exec_bind, hsame]
    rcases hexec : exec x p with ⟨e | b, q⟩
    · exact ⟨path', rfl⟩
    · rw [hexec] at hdepth
      exact (hf b).outcome_eq q path' (hdepth.trans hzero)

/-- The state may be read for anything but the path. -/
theorem get {f : Progress → Compile α} (h : ∀ p, Blind (f p))
    (hpath : ∀ p path, f (p.withPath path) = f p) : Blind (MonadState.get >>= f) where
  depth_eq := fun p => (h p).depth_eq p
  outcome_eq := by
    intro p path hzero
    show ∃ path', exec (f (p.withPath path)) (p.withPath path) = _
    rw [hpath]
    exact (h p).outcome_eq p path hzero

theorem modify {change : Progress → Progress}
    (hdepth : ∀ p, (change p).scopeDepth = p.scopeDepth)
    (hpath : ∀ p path, change (p.withPath path) = (change p).withPath path) :
    Blind (MonadState.modifyGet fun p => (PUnit.unit, change p) : Compile PUnit) :=
  ⟨hdepth, fun p path _ => ⟨path, congrArg _ (hpath p path)⟩⟩

theorem labelOf (id : NodeId) : Blind (labelOf id) := .get (fun _ => .pure _) fun _ _ => rfl

theorem childrenOf (id : NodeId) : Blind (childrenOf id) := .get (fun _ => .pure _) fun _ _ => rfl

theorem arena : Blind arena := .get (fun _ => .pure _) fun _ _ => rfl

theorem modifyArena (change : Query.Arena → Query.Arena) : Blind (modifyArena change) :=
  .modify (fun _ => rfl) fun _ _ => rfl

theorem push (label : Label) : Blind (push label) :=
  .bind .arena fun _ => .bind (.modifyArena _) fun _ => .pure _

theorem report (id : NodeId) (link : Link) (query : Tree) (resolution : Resolution) :
    Blind (report id link query resolution) :=
  .modify (fun _ => rfl) fun _ _ => rfl

/-- A scan. -/
theorem scan (request : ScanRequest) : Blind (scan env request) :=
  .get (fun _ => .bind (.modify (fun _ => rfl) fun _ _ => rfl) fun _ => .ofExcept _) fun _ _ => rfl

/-- A scope whose ends neither read nor write the path and the depth. -/
theorem within {enter leave : Progress → Progress} {x : Compile α}
    (henter : ∀ p, (enter p).scopeDepth = p.scopeDepth)
    (hleave : ∀ p, (leave p).scopeDepth = p.scopeDepth)
    (henter' : ∀ p path, enter (p.withPath path) = (enter p).withPath path)
    (hleave' : ∀ p path, leave (p.withPath path) = (leave p).withPath path) (hx : Blind x) :
    Blind (within enter leave x) where
  depth_eq := fun p => (hleave _).trans ((hx.depth_eq (enter p)).trans (henter p))
  outcome_eq := by
    intro p path hzero
    obtain ⟨path', hsame⟩ := hx.outcome_eq (enter p) path ((henter p).trans hzero)
    refine ⟨path', ?_⟩
    show ((exec x (enter (p.withPath path))).1, leave (exec x (enter (p.withPath path))).2) =
      ((exec x (enter p)).1, (leave (exec x (enter p)).2).withPath path')
    rw [henter', hsame, hleave']

theorem mapM {γ : Type} {f : γ → Compile α} (l : List γ) (h : ∀ a, Blind (f a)) :
    Blind (l.mapM f) := by
  induction l with
  | nil => exact pure []
  | cons a l ih =>
    rw [List.mapM_cons]
    exact (h a).bind fun b => ih.bind fun bs => pure (b :: bs)

theorem foldlM {γ : Type} {f : α → γ → Compile α} (l : List γ) (h : ∀ a c, Blind (f a c)) (a : α) :
    Blind (l.foldlM f a) := by
  induction l generalizing a with
  | nil => exact pure a
  | cons c l ih =>
    rw [List.foldlM_cons]
    exact (h a c).bind ih

theorem forM {γ : Type} {f : γ → Compile PUnit} (l : List γ) (h : ∀ a, Blind (f a)) :
    Blind (l.forM f) := by
  induction l with
  | nil => exact pure PUnit.unit
  | cons a l ih =>
    show Blind (f a >>= fun _ => l.forM f)
    exact (h a).bind fun _ => ih

end Blind

theorem mapping_blind (index : String) : Blind (mapping env index) := .look _

theorem ownerOf_blind (field : String) : Blind (ownerOf env field) := .look _

theorem mappingOf_blind (field : String) : Blind (mappingOf env field) := .look _

/-! ## Predicates -/

theorem nestedPathOf_blind (label : Label) : Blind (nestedPathOf env label) := by
  unfold nestedPathOf
  split
  · exact .pure _
  · exact .pure _
  · exact (mappingOf_blind _).bind fun _ => .pure _

/-- **Nesting** reads the path inside of scopes only. -/
theorem nest_blind (label : Label) (fragment : Fragment) : Blind (nest env label fragment) := by
  refine (nestedPathOf_blind label).bind fun path => ?_
  cases path with
  | none => exact .get (fun _ => .pure _) fun _ _ => rfl
  | some path =>
    constructor
    · intro p
      simp only [exec_bind]
      show (exec (if p.scopeDepth = 0 then _ else _) p).2.scopeDepth = p.scopeDepth
      split
      · rfl
      · split
        · split <;> rfl
        · rfl
    · intro p leftover hzero
      refine ⟨leftover, ?_⟩
      show exec (if p.scopeDepth = 0 then _ else _) (p.withPath leftover) =
        ((exec (if p.scopeDepth = 0 then _ else _) p).1,
          (exec (if p.scopeDepth = 0 then _ else _) p).2.withPath leftover)
      rw [if_pos hzero, if_pos hzero]
      rfl

theorem standard_blind (label : Label) (base : Fragment) : Blind (standard env label base) := by
  have hnest : ∀ fragment, Blind (nest env label fragment) := nest_blind label
  unfold standard
  simp only
  split
  case h_9 => exact ((mappingOf_blind _).bind fun _ => .pure _).bind hnest
  case h_10 => exact (Blind.throw _).bind hnest
  all_goals exact (Blind.pure _).bind hnest

theorem validateOperator_blind (label : Label) : Blind (validateOperator label) := by
  unfold validateOperator
  split
  case h_4 => exact .throw _
  all_goals exact .pure _

theorem arrayData_blind (key : String) : Blind (arrayData key) := by
  refine .get (fun p => ?_) fun _ _ => rfl
  split
  · exact .pure _
  · exact .throw _

theorem plainLeaf_blind (label : Label) : Blind (plainLeaf env label) := by
  have hvalidated : ∀ base, Blind (do validateOperator label; standard env label base) :=
    fun base => (validateOperator_blind label).bind fun _ => standard_blind label base
  unfold plainLeaf
  simp only
  split
  case h_1 => exact standard_blind label _
  case h_2 => exact standard_blind label _
  case h_9 =>
    refine (mappingOf_blind _).bind fun mapping => ?_
    split
    · exact .pure _
    · exact hvalidated _
  case h_11 =>
    refine (validateOperator_blind label).bind fun _ => ?_
    exact (arrayData_blind _).bind fun _ => standard_blind label _
  case h_12 => exact .pure _
  case h_13 => exact .throw _
  all_goals exact hvalidated _

theorem spanOfLeaf_blind (outer : Operator) (field : String) (label : Label) :
    Blind (spanOfLeaf outer field label) := by
  unfold spanOfLeaf
  split
  · exact .pure _
  · exact .throw _

theorem phraseTokens_blind (label : Label) : Blind (phraseTokens env label) :=
  (mappingOf_blind _).bind fun _ => (Blind.ofExcept _).bind fun _ => .pure _

theorem phrase_blind (label : Label) : Blind (phrase env label) := by
  unfold phrase
  simp only
  split
  · exact standard_blind label _
  · refine (phraseTokens_blind label).bind fun tokens => ?_
    split
    · exact standard_blind label _
    · split
      · exact plainLeaf_blind _
      · exact standard_blind label _
    · split
      · exact (Blind.mapM _ fun token => spanOfLeaf_blind _ _ _).bind fun _ => .pure _
      · exact standard_blind label _

/-- A predicate. -/
theorem leaf_blind (label : Label) : Blind (leaf env label) := by
  unfold leaf
  split
  · exact phrase_blind label
  · exact plainLeaf_blind label

/-! ## Proximities and scopes -/

theorem spanOfPhrase_blind (outer label : Label) : Blind (spanOfPhrase env outer label) := by
  unfold spanOfPhrase
  split
  · exact .pure _
  · refine (phraseTokens_blind label).bind fun tokens => ?_
    refine (Blind.mapM _ fun token => spanOfLeaf_blind _ _ _).bind fun clauses => ?_
    split <;> exact .pure _

theorem spanOfChild_blind {near : Label → NodeId → Compile Span}
    (hnear : ∀ label id, Blind (near label id)) (outer : Label) (id : NodeId) :
    Blind (spanOfChild env near outer id) := by
  refine (Blind.labelOf id).bind fun label => ?_
  simp only
  split
  · exact (spanOfPhrase_blind outer label).bind fun _ => .pure _
  · exact (hnear label id).bind fun _ => .pure _
  · exact (spanOfLeaf_blind _ _ label).bind fun _ => .pure _

theorem nearWithin_blind (fuel : Nat) (label : Label) (id : NodeId) :
    Blind (nearWithin env fuel label id) := by
  induction fuel generalizing label id with
  | zero => exact .throw _
  | succ fuel ih =>
    refine (Blind.childrenOf id).bind fun ids => ?_
    exact (Blind.mapM _ fun c => spanOfChild_blind ih label c).bind fun _ => .pure _

/-- A proximity. -/
theorem proximity_blind (label : Label) (id : NodeId) : Blind (proximity env label id) := by
  refine Blind.arena.bind fun arena => ?_
  exact (nearWithin_blind _ label id).bind fun _ => .pure _

/-- The nested path of a scope. -/
theorem sharedPath_blind (id : NodeId) : Blind (sharedPath env id) := by
  refine Blind.arena.bind fun _ => Blind.arena.bind fun _ => ?_
  refine .foldlM _ (fun shared label => ?_) none
  refine (nestedPathOf_blind label).bind fun path => ?_
  split
  · exact .pure _
  · exact .pure _
  · split
    · exact .pure _
    · exact .throw _

/-- A part that is one scope deeper, and what follows it. -/
theorem deeper_level {x : Compile β} {f : β → Compile α} (hx : Blind x) (hf : ∀ b, Level (f b)) :
    Level (within (fun progress => { progress with scopeDepth := progress.scopeDepth + 1 })
      (fun progress => { progress with scopeDepth := progress.scopeDepth - 1 }) x >>= f) := by
  refine Level.bind (fun p => ?_) hf
  show (exec x { p with scopeDepth := p.scopeDepth + 1 }).2.scopeDepth - 1 = p.scopeDepth
  rw [hx.depth_eq]
  exact Nat.add_sub_cancel _ 1

/-- The end of a scope writes the path only. -/
theorem closing_level (fragments : List Fragment) : Level (do
    let progress ← get
    if 0 < progress.scopeDepth then return Fragment.all fragments
    else
      set { progress with scopePath := none }
      match progress.scopePath with
      | some path => return .nested path (.all fragments) none
      | none => return .all fragments) := by
  intro p
  show (exec (if 0 < p.scopeDepth then _ else _) p).2.scopeDepth = p.scopeDepth
  split
  · rfl
  · show (exec (match p.scopePath with | some path => _ | none => _)
      { p with scopePath := none }).2.scopeDepth = p.scopeDepth
    split <;> rfl

/-- **Scopes** are blind: the outermost one writes the path before its parts are compiled, and the parts
of the others start inside of a scope. -/
theorem scope_blind {recur : NodeId → Compile Fragment} (hrecur : ∀ id, Blind (recur id)) (id : NodeId) :
    Blind (scope env recur id) := by
  refine (Blind.childrenOf id).bind fun ids => ⟨fun p => ?_, fun p path hzero => ?_⟩
  · show (exec (if p.scopeDepth = 0 then _ else _) p).2.scopeDepth = p.scopeDepth
    have hparts : Blind (ids.mapM recur) := .mapM ids hrecur
    split
    · refine Level.bind (sharedPath_blind id).depth_eq (fun path => ?_) p
      exact Level.bind (fun _ => rfl) fun _ => deeper_level hparts closing_level
    · exact deeper_level hparts closing_level p
  · obtain ⟨path', hsame⟩ := (show Blind (sharedPath env id) from sharedPath_blind id).outcome_eq p path hzero
    show ∃ path', exec (if p.scopeDepth = 0 then _ else _) (p.withPath path) =
      ((exec (if p.scopeDepth = 0 then _ else _) p).1,
        (exec (if p.scopeDepth = 0 then _ else _) p).2.withPath path')
    rw [if_pos hzero]
    simp only [exec_bind, hsame]
    rcases hexec : exec (sharedPath env id) p with ⟨e | shared, q⟩
    · exact ⟨path', rfl⟩
    -- the path is overwritten in both runs
    · exact exists_withPath _

/-! ## Expansions -/

theorem isKeyHop_blind (hop : String) : Blind (isKeyHop env hop) := by
  unfold isKeyHop
  simp only
  split
  · exact .pure _
  · exact (mapping_blind _).bind fun _ => .pure _

theorem joinFields_blind (path : List String) : Blind (joinFields env path) := by
  unfold joinFields
  split
  · refine (isKeyHop_blind _).bind fun isKey => ?_
    split
    · exact (isKeyHop_blind _).bind fun _ => .pure _
    · exact .pure _
  · split
    · exact .pure _
    · exact .throw _
  · exact .throw _

theorem queryOf_blind (id : NodeId) : Blind (queryOf id) := by
  refine Blind.arena.bind fun arena => ?_
  split
  · exact .pure _
  · exact .throw _

theorem linkOf_blind (id : NodeId) : Blind (linkOf id) := by
  refine (Blind.labelOf id).bind fun label => ?_
  simp only
  split
  · exact .pure _
  · exact .throw _

theorem substitute_blind (id : NodeId) (link : Link) (own : Bool) :
    Blind (substitute id link own) := by
  refine (queryOf_blind id).bind fun query => Blind.arena.bind fun arena => ?_
  exact (Blind.report id link _ _).bind fun _ => .pure _

section Nodes

variable {recur : NodeId → Compile Fragment} (hrecur : ∀ id, Blind (recur id))

include hrecur

theorem scanQuery_blind (id : NodeId) : Blind (scanQuery recur id) :=
  .get (fun _ => .within (fun _ => rfl) (fun _ => rfl) (fun _ _ => rfl) (fun _ _ => rfl) (hrecur id))
    fun _ _ => rfl

theorem visibility_blind (id : NodeId) (link : Link) : Blind (visibility env recur id link) := by
  refine (mapping_blind _).bind fun mapping => ?_
  split
  · exact .pure _
  · refine .get (fun p => ?_) fun _ _ => rfl
    simp only
    split
    · exact .pure _
    · split
      · exact .pure _
      · exact (scanQuery_blind hrecur _).bind fun _ => .pure _

theorem joinValues_blind (id : NodeId) (link : Link) (left right : String) :
    Blind (joinValues env recur id link left right) := by
  unfold joinValues
  refine (queryOf_blind id).bind fun query => (Blind.labelOf query).bind fun label => ?_
  refine Blind.arena.bind fun arena => (mapping_blind _).bind fun linked => ?_
  refine (mappingOf_blind _).bind fun leftOwner => (mappingOf_blind _).bind fun rightOwner => ?_
  split
  · exact (Blind.report id link _ _).bind fun _ => .push _
  · refine (scanQuery_blind hrecur query).bind fun filter => ?_
    refine (visibility_blind hrecur id link).bind fun post => ?_
    refine (Blind.report id link _ _).bind fun _ => ?_
    exact (Blind.scan _).bind fun _ => .push _

theorem resolveLink_blind (id : NodeId) (link target : Link) :
    Blind (resolveLink env recur id link target) := by
  refine (Blind.ofExcept _).bind fun path => (joinFields_blind path).bind fun fields => ?_
  refine .get (fun p => ?_) fun _ _ => rfl
  split
  · exact substitute_blind id link false
  · exact joinValues_blind hrecur id link _ _

theorem resolveGenerated_blind (id : NodeId) (label : Label) (link primary : Link) :
    Blind (resolveGenerated env recur id label link primary) := by
  refine (joinValues_blind hrecur id link _ _).bind fun values => ?_
  refine (ownerOf_blind _).bind fun owner => ?_
  split
  · exact .pure _
  · refine (Blind.modifyArena _).bind fun _ => (mapping_blind _).bind fun linked => ?_
    exact joinValues_blind hrecur id link _ _

theorem resolve_blind (primary target : Link) (id : NodeId) :
    Blind (resolve env recur primary target id) := by
  have hfinish : ∀ (label : Label) resolved, Blind (do
      modifyArena fun arena => arena.replace id resolved
      if label.boost.isSome then
        modifyArena fun arena => arena.modifyLabel id fun new => { new with boost := label.boost }) := by
    intro label resolved
    refine (Blind.modifyArena _).bind fun _ => ?_
    split
    · exact .modifyArena _
    · exact .pure _
  unfold resolve
  refine (Blind.labelOf id).bind fun label => (linkOf_blind id).bind fun link => ?_
  refine .get (fun p => ?_) fun _ _ => rfl
  simp only
  split
  · exact (substitute_blind id link true).bind (hfinish label)
  · split
    · exact (resolveGenerated_blind hrecur id label link primary).bind (hfinish label)
    · exact (resolveLink_blind hrecur id link target).bind (hfinish label)

theorem expand_blind (id : NodeId) : Blind (expand env recur id) := by
  unfold expand
  refine (linkOf_blind id).bind fun link => Blind.arena.bind fun arena => ?_
  refine .get (fun p => .get (fun q => ?_) fun _ _ => rfl) fun _ _ => rfl
  have hrest : ∀ target, Blind (do
      (arena.expansions id).reverse.forM (resolve env recur p.metadata.primary target)
      recur id) := fun target =>
    (Blind.forM _ fun e => resolve_blind hrecur _ _ e).bind fun _ => hrecur id
  simp only
  split
  · exact (Blind.modifyArena _).bind fun _ => hrest _
  · exact hrest _

/-! ## Nodes -/

/-- One level of a compilation. -/
theorem node_blind (id : NodeId) : Blind (node env recur id) := by
  -- clauses and joins are blind to what their children are blind to
  have hclauses : ∀ wrap : List Fragment → Fragment, Blind (do
      return wrap (← (← childrenOf id).mapM recur)) := fun wrap =>
    (Blind.childrenOf id).bind fun ids => (Blind.mapM ids hrecur).bind fun _ => .pure _
  have hjoined : ∀ join, Blind (joined env recur join id) := by
    intro join
    refine (Blind.childrenOf id).bind fun ids => ?_
    split
    · exact .pure _
    · exact (hrecur _).bind fun _ => .pure _
  unfold node
  refine (Blind.labelOf id).bind fun label => ?_
  split
  · exact hclauses _
  · exact hclauses _
  · refine .get (fun p => ?_) fun _ _ => rfl
    split
    · exact .pure _
    · exact hclauses _
  · exact scope_blind hrecur id
  · exact hjoined _
  · refine .get (fun p => ?_) fun _ _ => rfl
    split
    · exact .pure _
    · exact hjoined _
  · unfold expansion
    have hexpand : Blind (expand env recur id) := expand_blind hrecur id
    split
    · exact .within (fun _ => rfl) (fun _ => rfl) (fun _ _ => rfl) (fun _ _ => rfl) hexpand
    · exact hexpand
  · exact (proximity_blind label id).bind fun _ => .pure _
  · exact (leaf_blind label).bind fun _ => .pure _

end Nodes

/-- **Compilations are blind.** -/
theorem nodeWithin_blind (fuel : Nat) (id : NodeId) : Blind (nodeWithin env fuel id) := by
  induction fuel generalizing id with
  | zero => exact .throw _
  | succ fuel ih => exact node_blind ih id

/-- The query of the draft. -/
theorem rootQuery_blind : Blind (rootQuery env) := by
  refine .get (fun p => ?_) fun _ _ => rfl
  split
  · exact Blind.arena.bind fun _ => nodeWithin_blind _ _
  · exact .pure _

/-! ## Aggregates -/

/-- The aggregation of a level. -/
theorem aggregation_blind (level : AggregateLevel) : Blind (aggregation env level) := by
  unfold aggregation
  split
  · refine (mappingOf_blind _).bind fun mapping => ?_
    split
    · split
      · exact .pure _
      · exact .throw _
    · exact .pure _
  · refine (mappingOf_blind _).bind fun mapping => ?_
    split
    · exact (Blind.ofExcept _).bind fun _ => .pure _
    · exact (Blind.ofExcept _).bind fun _ => .pure _
  · exact (Blind.look _).bind fun _ => .pure _
  · exact .pure _

/-- The check of an inner level. -/
theorem checkInner_blind (outer inner : AggregateLevel) (compiled : Aggregation) :
    Blind (checkInner env outer compiled inner) := by
  have howner : Blind (do
      let owner ← ownerOf env inner.field
      if owner.index ≠ (← MonadState.get).metadata.primary.index then
        throw Error.foreignSubAggregate : Compile Unit) := by
    refine (ownerOf_blind _).bind fun owner => .get (fun q => ?_) fun _ _ => rfl
    split
    · exact .throw _
    · exact .pure _
  unfold checkInner
  simp only
  split
  · exact (Blind.throw _).bind fun _ => howner
  · exact howner

theorem inScope_blind (level : AggregateLevel) (tree : AggregationTree) :
    Blind (inScope env level tree) := by
  unfold inScope
  split
  · exact .pure _
  · exact rootQuery_blind.bind fun _ => .pure _

/-- A chain of aggregates. -/
theorem levels_blind (outer : AggregateLevel) (inner : List AggregateLevel) :
    Blind (levels env outer inner) := by
  induction inner generalizing outer with
  | nil =>
    rw [levels]
    exact (aggregation_blind outer).bind fun _ => inScope_blind outer _
  | cons next rest ih =>
    rw [levels]
    refine (aggregation_blind outer).bind fun compiled => ?_
    refine (checkInner_blind outer next compiled).bind fun _ => ?_
    exact (ih next).bind fun _ => inScope_blind outer _

/-- **Aggregates are blind**, with the query that is their filter. -/
theorem aggregate_blind : Blind (aggregate env) := by
  refine .get (fun p => ?_) fun _ _ => rfl
  split
  · exact .pure _
  · exact .within (fun _ => rfl) (fun _ => rfl) (fun _ _ => rfl) (fun _ _ => rfl)
      ((levels_blind _ _).bind fun _ => .pure _)

end Compile

/-! ## Calls -/

namespace Compiler

open Compile

variable {setup : Setup} {compiler : Compiler}

/-- A compiler with another leftover path. -/
def withPath (compiler : Compiler) (path : Option String) : Compiler :=
  { compiler with progress := compiler.progress.withPath path }

/-- Outside of scopes, what is blind does the same whatever the leftover path. -/
theorem run_withPath {α : Type} {action : Environment → Compile α}
    (haction : Blind (action compiler.environment)) (hzero : compiler.progress.scopeDepth = 0)
    (path : Option String) : ∃ path', (compiler.withPath path).run action =
      ((compiler.run action).1, (compiler.run action).2.withPath path') := by
  obtain ⟨path', hsame⟩ := haction.outcome_eq compiler.progress path hzero
  refine ⟨path', ?_⟩
  show ((exec (action compiler.environment) (compiler.progress.withPath path)).1, _) = _
  have hrun : (compiler.withPath path).run action =
      ((exec (action compiler.environment) (compiler.progress.withPath path)).1,
        { compiler with
          progress := (exec (action compiler.environment) (compiler.progress.withPath path)).2 }) := rfl
  rw [hsame] at hrun
  exact hrun

/-- **Compile state is restored.** After any uses of a compiler, whatever their outcomes, no scope is
open, no aggregate is being compiled, no synthesized expansion is being resolved, and the primary link
is still the one chosen at the start. The path that a failed scope may have left is of no account: the
next call has the same outcome with any other one, and leaves all but that path behind the same. -/
theorem used_restored (hstart : setup.start = .ok compiler) (uses : List Use) :
    (compiler.used uses).progress.scopeDepth = 0 ∧
      (compiler.used uses).progress.aggregating = false ∧
      (compiler.used uses).progress.generated = [] ∧
      (compiler.used uses).progress.metadata.primary = compiler.progress.metadata.primary ∧
      ∀ path,
        (∃ path', ((compiler.used uses).withPath path).query =
          ((compiler.used uses).query.1, (compiler.used uses).query.2.withPath path')) ∧
        ∃ path', ((compiler.used uses).withPath path).aggregation =
          ((compiler.used uses).aggregation.1, (compiler.used uses).aggregation.2.withPath path') := by
  have hstarted := Setup.started_of_ok hstart
  obtain ⟨md, hprogress⟩ := hstarted.progress_eq
  have hevolves := used_evolves (idle_of_started hstarted) uses
  have hzero : (compiler.used uses).progress.scopeDepth = 0 := by
    rw [hevolves.scopeDepth_eq, hprogress]
  refine ⟨hzero, ?_, ?_, hevolves.grows.primary_eq, fun path => ⟨?_, ?_⟩⟩
  · rw [hevolves.aggregating_eq, hprogress]
  · rw [hevolves.generated_eq, hprogress]
  · obtain ⟨path', hsame⟩ := run_withPath rootQuery_blind hzero path
    refine ⟨path', ?_⟩
    unfold query
    rw [hsame]
    rfl
  · exact run_withPath aggregate_blind hzero path

/-- A scope of two conditions on the tags of items, the second of which cannot be compiled. -/
def tagScope : Setup where
  index := "books"
  request := {
    query := some (.scope [.word "tag" (.str "x"),
      (Query.Tree.word "tag" (.str "y")).withOperator .fuzzyConcept]) }
  resolver := some (Cluster.resolver { mappings := [
    ("books", (Mapping.keyed "books" "id").withField "tag"
      { type := .keyword none, nestedPath := some "items" })] })
  executor := some (Cluster.executor { documents := [("books", [])] })

/-- The scope fails and leaves its path, which the next call does not see. -/
theorem used_restored_tagScope : ∃ compiler, tagScope.start = .ok compiler ∧
    (compiler.used [.call .query]).progress.scopePath = some "items" ∧
    (compiler.used [.call .query]).progress.scopeDepth = 0 ∧
    ∃ path', ((compiler.used [.call .query]).withPath none).query =
      ((compiler.used [.call .query]).query.1, (compiler.used [.call .query]).query.2.withPath path') := by
  have hrun : (tagScope.start.toOption.any fun compiler =>
      decide ((compiler.used [.call .query]).progress.scopePath = some "items")) = true := by
    decide +kernel
  simp only [Option.any_eq_true, toOption_eq_some, decide_eq_true_eq] at hrun
  obtain ⟨compiler, hstart, hpath⟩ := hrun
  obtain ⟨hdepth, -, -, -, hblind⟩ := used_restored hstart [.call .query]
  exact ⟨compiler, hstart, hpath, hdepth, (hblind none).1⟩

end Compiler

end LinkedSearch
