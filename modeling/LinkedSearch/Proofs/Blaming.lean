import LinkedSearch.Proofs.Outcome

/-! # What a failure is to be blamed on

A compilation fails because of the query, because of what it asks of its surroundings, or because its
last scan was not answered:

* `Error.isOrdinary`: the errors that the parts of a query give rise to.
* `Environment.Reports`: a condition on errors that these and those of the surroundings satisfy.
* `Compile.Blames`: a failed computation has reported such an error, or its last scan has failed.
* `leaf_blames`, `proximity_blames`, `sharedPath_blames`: predicates and scopes.
* `nodeWithin_blames`: every compilation. -/

namespace LinkedSearch

open Query (Kind Label NodeId Operator Tree)

/-- **Ordinary errors** are neither a failed scan nor about a node that should be an expansion. -/
def Error.isOrdinary : Error → Bool
  | .notAnExpansion _ => false
  | error => !error.isRetriable

/-- **Reported errors**: a condition on errors that every ordinary one satisfies, and every error of the
resolver and of the analyzer. -/
structure Environment.Reports (env : Environment) (P : Error → Prop) : Prop where
  ordinary : ∀ error, error.isOrdinary = true → P error
  mapping : ∀ index error, env.resolver.mapping index = .error error → P error
  joinPath : ∀ target link error, env.resolver.joinPath target link = .error error → P error
  analyzer : ∀ field type text error, env.analyzer field type text = .error error → P error

/-- Every error is reported. -/
theorem Environment.reports_any (env : Environment) : env.Reports fun _ => True :=
  ⟨fun _ _ => trivial, fun _ _ _ => trivial, fun _ _ _ _ => trivial, fun _ _ _ _ _ => trivial⟩

/-! ## Lookups -/

namespace Metadata

variable {resolver : Resolver} {P : Error → Prop} {md : Metadata}
  (hmapping : ∀ index error, resolver.mapping index = .error error → P error)

include hmapping

/-- A mapping that cannot be fetched. -/
theorem mapping_fails (index : String) :
    wp (mapping resolver index) (fun _ _ => True) (fun error _ => P error) md := by
  unfold mapping
  rw [wp_bind, wp_get]
  split
  · trivial
  · rw [wp_bind]
    show wp (ExceptT.mk (pure (resolver.mapping index)) : Lookup _) _ _ md
    cases hanswer : resolver.mapping index with
    | error error => exact hmapping index error hanswer
    | ok found => trivial

theorem firstWithField_fails (field : String) (links : List Link) :
    wp (firstWithField resolver field links) (fun _ _ => True) (fun error _ => P error) md := by
  induction links generalizing md with
  | nil => trivial
  | cons link rest ih =>
    rw [firstWithField, wp_bind]
    refine wp_mono (mapping_fails hmapping link.index) (fun found md' _ => ?_) fun _ _ h => h
    split
    · trivial
    · exact ih

theorem find_fails (field : String) :
    wp (find resolver field) (fun _ _ => True) (fun error _ => P error) md := by
  unfold find locate
  rw [wp_bind, wp_bind, wp_get]
  refine wp_mono (Q := fun _ _ => True) ?_ (fun _ _ _ => trivial) fun _ _ h => h
  split
  · trivial
  · rw [wp_bind]
    exact wp_mono (firstWithField_fails hmapping field _) (fun _ _ _ => trivial) fun _ _ h => h

theorem mappingOf_fails (field : String) :
    wp (mappingOf resolver field) (fun _ _ => True) (fun error _ => P error) md := by
  unfold mappingOf
  rw [wp_bind]
  exact wp_mono (find_fails hmapping field) (fun link _ _ => mapping_fails hmapping link.index)
    fun _ _ h => h

end Metadata

namespace Compile

variable {α β : Type} {env : Environment} {P : Error → Prop}

/-! ## Blame -/

/-- **Unanswered**: the last scan has failed, and all others of this computation came before. -/
def Unanswered (env : Environment) (p q : Progress) (error : Error) : Prop :=
  ∃ earlier request, p.scans <+: earlier ∧ q.scans = earlier ++ [request] ∧
    (env.executor.run earlier request).outcome = .error error

/-- **Blame**: a computation that fails has reported an error, or its last scan has failed. -/
def Blames (env : Environment) (P : Error → Prop) (x : Compile α) : Prop :=
  ∀ p, wp x (fun _ q => p.scans <+: q.scans) (fun error q => P error ∨ Unanswered env p q error) p

namespace Blames

theorem pure (a : α) : Blames env P (pure a) := fun p => List.prefix_refl p.scans

theorem throw {error : Error} (h : P error) : Blames env P (throw error : Compile α) :=
  fun _ => .inl h

theorem bind {x : Compile β} {f : β → Compile α} (hx : Blames env P x)
    (hf : ∀ b, Blames env P (f b)) : Blames env P (x >>= f) := by
  intro p
  rw [wp_bind]
  refine wp_mono (hx p) (fun b q hpq => ?_) fun _ _ h => h
  refine wp_mono (hf b q) (fun _ _ h => hpq.trans h) ?_
  rintro error s (h | ⟨earlier, request, hearlier, hlast, hrun⟩)
  · exact .inl h
  · exact .inr ⟨earlier, request, hpq.trans hearlier, hlast, hrun⟩

/-- Computations that neither fail nor scan. -/
theorem of_wp {x : Compile α} (h : ∀ p, wp x (fun _ q => q.scans = p.scans) (fun _ _ => False) p) :
    Blames env P x := fun p =>
  wp_mono (h p) (fun _ _ hq => hq ▸ List.prefix_refl _) fun _ _ => False.elim

theorem get {f : Progress → Compile α} (h : ∀ p, Blames env P (f p)) :
    Blames env P (MonadState.get >>= f) :=
  .bind (.of_wp fun _ => rfl) h

theorem labelOf (id : NodeId) : Blames env P (labelOf id) := .of_wp fun _ => rfl

theorem childrenOf (id : NodeId) : Blames env P (childrenOf id) := .of_wp fun _ => rfl

theorem arena : Blames env P arena := .of_wp fun _ => rfl

theorem modifyArena (change : Query.Arena → Query.Arena) : Blames env P (modifyArena change) :=
  .of_wp fun _ => rfl

theorem push (label : Label) : Blames env P (push label) := .of_wp fun _ => rfl

theorem report (id : NodeId) (link : Link) (query : Tree) (resolution : Resolution) :
    Blames env P (report id link query resolution) :=
  .of_wp fun _ => rfl

theorem ofExcept {outcome : Except Error α} (h : ∀ error, outcome = .error error → P error) :
    Blames env P (ofExcept outcome) := by
  cases outcome with
  | error error => exact throw (h error rfl)
  | ok a => exact pure a

theorem look {lookup : Lookup α}
    (h : ∀ md, wp lookup (fun _ _ => True) (fun error _ => P error) md) :
    Blames env P (look lookup) := by
  intro p
  rw [wp_look]
  exact wp_mono (h p.metadata) (fun _ _ _ => List.prefix_refl _) fun _ _ h => .inl h

/-- A scope changes no scans. -/
theorem within {enter leave : Progress → Progress} {x : Compile α}
    (henter : ∀ p, (enter p).scans = p.scans) (hleave : ∀ p, (leave p).scans = p.scans)
    (hx : Blames env P x) : Blames env P (within enter leave x) := by
  intro p
  rw [wp_within]
  refine wp_mono (hx (enter p)) (fun _ q h => ?_) ?_
  · rwa [hleave, ← henter]
  · rintro error q (h | ⟨earlier, request, hearlier, hlast, hrun⟩)
    · exact .inl h
    · exact .inr ⟨earlier, request, henter p ▸ hearlier, (hleave q).trans hlast, hrun⟩

theorem mapM {γ : Type} {f : γ → Compile α} {l : List γ} (h : ∀ a ∈ l, Blames env P (f a)) :
    Blames env P (l.mapM f) := by
  induction l with
  | nil => exact pure []
  | cons a l ih =>
    rw [List.mapM_cons]
    refine (h a List.mem_cons_self).bind fun b => ?_
    exact (ih fun a' ha' => h a' (List.mem_cons_of_mem a ha')).bind fun bs => pure (b :: bs)

theorem foldlM {γ : Type} {f : α → γ → Compile α} (l : List γ) (h : ∀ a c, Blames env P (f a c))
    (a : α) : Blames env P (l.foldlM f a) := by
  induction l generalizing a with
  | nil => exact pure a
  | cons c l ih =>
    rw [List.foldlM_cons]
    exact (h a c).bind ih

theorem forM {γ : Type} {f : γ → Compile PUnit} (l : List γ) (h : ∀ a, Blames env P (f a)) :
    Blames env P (l.forM f) := by
  induction l with
  | nil => exact pure PUnit.unit
  | cons a l ih =>
    show Blames env P (f a >>= fun _ => l.forM f)
    exact (h a).bind fun _ => ih

/-- A computation that fails without a scan has reported an error. -/
theorem reported {x : Compile α} (h : Blames env P x) {p q : Progress} {error : Error}
    (hexec : exec x p = (.error error, q)) (hscans : q.scans = p.scans) : P error := by
  refine ((wp_of_error hexec).mp (h p)).resolve_right ?_
  rintro ⟨earlier, request, hprefix, hlast, -⟩
  have hlength := congrArg List.length (hscans.symm.trans hlast)
  have hle := hprefix.length_le
  rw [List.length_append, List.length_singleton] at hlength
  omega

end Blames

section Reported

variable (hP : env.Reports P)

include hP

theorem mapping_blames (index : String) : Blames env P (mapping env index) :=
  .look fun _ => Metadata.mapping_fails hP.mapping index

theorem ownerOf_blames (field : String) : Blames env P (ownerOf env field) :=
  .look fun _ => Metadata.find_fails hP.mapping field

theorem mappingOf_blames (field : String) : Blames env P (mappingOf env field) :=
  .look fun _ => Metadata.mappingOf_fails hP.mapping field

/-! ## Predicates -/

theorem nestedPathOf_blames (label : Label) : Blames env P (nestedPathOf env label) := by
  unfold nestedPathOf
  split
  · exact .pure _
  · exact .pure _
  · exact (mappingOf_blames hP _).bind fun _ => .pure _

theorem nest_blames (label : Label) (fragment : Fragment) :
    Blames env P (nest env label fragment) := by
  refine (nestedPathOf_blames hP label).bind fun path => ?_
  cases path with
  | none => exact .get fun _ => .pure _
  | some path =>
    refine .get fun p => ?_
    split
    · exact .pure _
    · split
      · split
        · exact .pure _
        · exact .throw (hP.ordinary _ rfl)
      · exact .pure _

theorem standard_blames (label : Label) (base : Fragment) :
    Blames env P (standard env label base) := by
  have hnest : ∀ fragment, Blames env P (nest env label fragment) := nest_blames hP label
  unfold standard
  simp only
  split
  case h_9 => exact ((mappingOf_blames hP _).bind fun _ => .pure _).bind hnest
  case h_10 => exact (Blames.throw (hP.ordinary _ rfl)).bind hnest
  all_goals exact (Blames.pure _).bind hnest

theorem validateOperator_blames (label : Label) : Blames env P (validateOperator label) := by
  unfold validateOperator
  split
  case h_4 => exact .throw (hP.ordinary _ rfl)
  all_goals exact .pure _

theorem arrayData_blames (key : String) : Blames env P (arrayData key) := by
  refine .get fun p => ?_
  split
  · exact .pure _
  · exact .throw (hP.ordinary _ rfl)

theorem plainLeaf_blames (label : Label) : Blames env P (plainLeaf env label) := by
  have hvalidated : ∀ base, Blames env P (do validateOperator label; standard env label base) :=
    fun base => (validateOperator_blames hP label).bind fun _ => standard_blames hP label base
  unfold plainLeaf
  simp only
  split
  case h_1 => exact standard_blames hP label _
  case h_2 => exact standard_blames hP label _
  case h_9 =>
    refine (mappingOf_blames hP _).bind fun mapping => ?_
    split
    · exact .pure _
    · exact hvalidated _
  case h_11 =>
    refine (validateOperator_blames hP label).bind fun _ => ?_
    exact (arrayData_blames hP _).bind fun _ => standard_blames hP label _
  case h_12 => exact .pure _
  case h_13 => exact .throw (hP.ordinary _ rfl)
  all_goals exact hvalidated _

theorem spanOfLeaf_blames (outer : Operator) (field : String) (label : Label) :
    Blames env P (spanOfLeaf outer field label) := by
  unfold spanOfLeaf
  split
  · exact .pure _
  · exact .throw (hP.ordinary _ rfl)

theorem phraseTokens_blames (label : Label) : Blames env P (phraseTokens env label) := by
  refine (mappingOf_blames hP _).bind fun mapping => ?_
  exact (Blames.ofExcept fun error => hP.analyzer _ _ _ error).bind fun _ => .pure _

theorem phrase_blames (label : Label) : Blames env P (phrase env label) := by
  unfold phrase
  simp only
  split
  · exact standard_blames hP label _
  · refine (phraseTokens_blames hP label).bind fun tokens => ?_
    split
    · exact standard_blames hP label _
    · split
      · exact plainLeaf_blames hP _
      · exact standard_blames hP label _
    · split
      · exact (Blames.mapM fun token _ => spanOfLeaf_blames hP _ _ _).bind fun _ => .pure _
      · exact standard_blames hP label _

/-- A predicate. -/
theorem leaf_blames (label : Label) : Blames env P (leaf env label) := by
  unfold leaf
  split
  · exact phrase_blames hP label
  · exact plainLeaf_blames hP label

/-! ## Proximities and scopes -/

theorem spanOfPhrase_blames (outer label : Label) : Blames env P (spanOfPhrase env outer label) := by
  unfold spanOfPhrase
  split
  · exact .pure _
  · refine (phraseTokens_blames hP label).bind fun tokens => ?_
    refine (Blames.mapM fun token _ => spanOfLeaf_blames hP _ _ _).bind fun clauses => ?_
    split <;> exact .pure _

theorem spanOfChild_blames {near : Label → NodeId → Compile Span}
    (hnear : ∀ label id, Blames env P (near label id)) (outer : Label) (id : NodeId) :
    Blames env P (spanOfChild env near outer id) := by
  refine (Blames.labelOf id).bind fun label => ?_
  simp only
  split
  · exact (spanOfPhrase_blames hP outer label).bind fun _ => .pure _
  · exact (hnear label id).bind fun _ => .pure _
  · exact (spanOfLeaf_blames hP _ _ label).bind fun _ => .pure _

theorem nearWithin_blames (fuel : Nat) (label : Label) (id : NodeId) :
    Blames env P (nearWithin env fuel label id) := by
  induction fuel generalizing label id with
  | zero => exact .throw (hP.ordinary _ rfl)
  | succ fuel ih =>
    refine (Blames.childrenOf id).bind fun ids => ?_
    exact (Blames.mapM fun c _ => spanOfChild_blames hP ih label c).bind fun _ => .pure _

/-- A proximity. -/
theorem proximity_blames (label : Label) (id : NodeId) : Blames env P (proximity env label id) := by
  refine Blames.arena.bind fun arena => ?_
  exact (nearWithin_blames hP _ label id).bind fun _ => .pure _

/-- The nested path of a scope. -/
theorem sharedPath_blames (id : NodeId) : Blames env P (sharedPath env id) := by
  refine Blames.arena.bind fun _ => Blames.arena.bind fun _ => ?_
  refine .foldlM _ (fun shared label => ?_) none
  refine (nestedPathOf_blames hP label).bind fun path => ?_
  split
  · exact .pure _
  · exact .pure _
  · split
    · exact .pure _
    · exact .throw (hP.ordinary _ rfl)

/-! ## Join paths -/

theorem isKeyHop_blames (hop : String) : Blames env P (isKeyHop env hop) := by
  unfold isKeyHop
  simp only
  split
  · exact .pure _
  · exact (mapping_blames hP _).bind fun _ => .pure _

theorem joinFields_blames (path : List String) : Blames env P (joinFields env path) := by
  unfold joinFields
  split
  · refine (isKeyHop_blames hP _).bind fun isKey => ?_
    split
    · exact (isKeyHop_blames hP _).bind fun _ => .pure _
    · exact .pure _
  · split
    · exact .pure _
    · exact .throw (hP.ordinary _ rfl)
  · exact .throw (hP.ordinary _ rfl)

/-! ## Expansions -/

theorem queryOf_blames (id : NodeId) : Blames env P (queryOf id) := by
  refine Blames.arena.bind fun arena => ?_
  split
  · exact .pure _
  · exact .throw (hP.ordinary _ rfl)

omit hP in
/-- **A scan** is to blame for its own failure. -/
theorem scan_blames (request : ScanRequest) : Blames env P (scan env request) := by
  intro p
  unfold scan
  rw [wp_bind, wp_get, wp_bind, wp_modify, wp_ofExcept]
  cases hrun : (env.executor.run p.scans request).outcome with
  | error error => exact .inr ⟨p.scans, request, List.prefix_refl _, rfl, hrun⟩
  | ok values => exact List.prefix_append _ _

section Nodes

variable {recur : NodeId → Compile Fragment} (hrecur : ∀ id, Blames env P (recur id))
  (hexpansion : ∀ kind, P (.notAnExpansion kind))

include hrecur

omit hP in
theorem scanQuery_blames (id : NodeId) : Blames env P (scanQuery recur id) :=
  .get fun _ => .within (fun _ => rfl) (fun _ => rfl) (hrecur id)

theorem visibility_blames (id : NodeId) (link : Link) :
    Blames env P (visibility env recur id link) := by
  refine (mapping_blames hP _).bind fun mapping => ?_
  split
  · exact .pure _
  · refine .get fun p => ?_
    simp only
    split
    · exact .pure _
    · split
      · exact .pure _
      · exact (scanQuery_blames hrecur _).bind fun _ => .pure _

theorem joinValues_blames (id : NodeId) (link : Link) (left right : String) :
    Blames env P (joinValues env recur id link left right) := by
  unfold joinValues
  refine (queryOf_blames hP id).bind fun query => (Blames.labelOf query).bind fun label => ?_
  refine Blames.arena.bind fun arena => (mapping_blames hP _).bind fun linked => ?_
  refine (mappingOf_blames hP _).bind fun leftOwner => (mappingOf_blames hP _).bind fun rightOwner => ?_
  split
  · exact (Blames.report id link _ _).bind fun _ => .push _
  · refine (scanQuery_blames hrecur query).bind fun filter => ?_
    refine (visibility_blames hP hrecur id link).bind fun post => ?_
    refine (Blames.report id link _ _).bind fun _ => ?_
    exact (scan_blames _).bind fun _ => .push _

omit hrecur in
theorem substitute_blames (id : NodeId) (link : Link) (own : Bool) :
    Blames env P (substitute id link own) := by
  refine (queryOf_blames hP id).bind fun query => Blames.arena.bind fun arena => ?_
  exact (Blames.report id link _ _).bind fun _ => .pure _

theorem resolveLink_blames (id : NodeId) (link target : Link) :
    Blames env P (resolveLink env recur id link target) := by
  refine (Blames.ofExcept fun error => hP.joinPath _ _ error).bind fun path => ?_
  refine (joinFields_blames hP path).bind fun fields => .get fun p => ?_
  split
  · exact substitute_blames hP id link false
  · exact joinValues_blames hP hrecur id link _ _

theorem resolveGenerated_blames (id : NodeId) (label : Label) (link primary : Link) :
    Blames env P (resolveGenerated env recur id label link primary) := by
  refine (joinValues_blames hP hrecur id link _ _).bind fun values => ?_
  refine (ownerOf_blames hP _).bind fun owner => ?_
  split
  · exact .pure _
  · refine (Blames.modifyArena _).bind fun _ => (mapping_blames hP _).bind fun linked => ?_
    exact joinValues_blames hP hrecur id link _ _

include hexpansion

omit hP hrecur in
theorem linkOf_blames (id : NodeId) : Blames env P (linkOf id) := by
  refine (Blames.labelOf id).bind fun label => ?_
  simp only
  split
  · exact .pure _
  · exact .throw (hexpansion _)

theorem resolve_blames (primary target : Link) (id : NodeId) :
    Blames env P (resolve env recur primary target id) := by
  unfold resolve
  refine (Blames.labelOf id).bind fun label => (linkOf_blames hexpansion id).bind fun link => ?_
  have hfinish : ∀ resolved, Blames env P (do
      modifyArena fun arena => arena.replace id resolved
      if label.boost.isSome then
        modifyArena fun arena => arena.modifyLabel id fun new => { new with boost := label.boost }) := by
    intro resolved
    refine (Blames.modifyArena _).bind fun _ => ?_
    split
    · exact .modifyArena _
    · exact .pure _
  refine .get fun p => ?_
  simp only
  split
  · exact (substitute_blames hP id link true).bind hfinish
  · split
    · exact (resolveGenerated_blames hP hrecur id label link primary).bind hfinish
    · exact (resolveLink_blames hP hrecur id link target).bind hfinish

theorem expand_blames (id : NodeId) : Blames env P (expand env recur id) := by
  unfold expand
  refine (linkOf_blames hexpansion id).bind fun link => Blames.arena.bind fun arena => ?_
  refine .get fun p => .get fun q => ?_
  have hrest : ∀ target, Blames env P (do
      (arena.expansions id).reverse.forM (resolve env recur p.metadata.primary target)
      recur id) := fun target =>
    (Blames.forM _ fun e => resolve_blames hP hrecur hexpansion _ _ e).bind fun _ => hrecur id
  simp only
  split
  · exact (Blames.modifyArena _).bind fun _ => hrest _
  · exact hrest _

/-! ## Nodes -/

/-- One level of a compilation. -/
theorem node_blames (id : NodeId) : Blames env P (node env recur id) := by
  -- clauses and joins only pass on what is blamed below them
  have hclauses : ∀ wrap : List Fragment → Fragment, Blames env P (do
      return wrap (← (← childrenOf id).mapM recur)) := fun wrap =>
    (Blames.childrenOf id).bind fun ids => (Blames.mapM fun c _ => hrecur c).bind fun _ => .pure _
  have hjoined : ∀ join, Blames env P (joined env recur join id) := by
    intro join
    refine (Blames.childrenOf id).bind fun ids => ?_
    split
    · exact .pure _
    · exact (hrecur _).bind fun _ => .pure _
  unfold node
  refine (Blames.labelOf id).bind fun label => ?_
  split
  · exact hclauses _
  · exact hclauses _
  · refine .get fun p => ?_
    split
    · exact .pure _
    · exact hclauses _
  · unfold scope
    refine (Blames.childrenOf id).bind fun ids => .get fun p => ?_
    -- entering a scope and leaving it again does not fail
    have hrest : Blames env P (scopeClauses recur ids) := by
      refine Blames.bind (.within (fun _ => rfl) (fun _ => rfl) (.mapM fun c _ => hrecur c))
        fun fragments => ?_
      intro q
      rw [wp_bind, wp_get]
      split
      · exact List.prefix_refl _
      · rw [wp_bind, wp_set]
        split <;> exact List.prefix_refl _
    simp only
    split
    · refine (sharedPath_blames hP id).bind fun path => ?_
      refine Blames.bind (fun q => ?_) fun _ => hrest
      exact List.prefix_refl _
    · exact hrest
  · exact hjoined _
  · refine .get fun p => ?_
    split
    · exact .pure _
    · exact hjoined _
  · unfold expansion
    have hexpand := expand_blames hP hrecur hexpansion id
    split
    · exact .within (fun _ => rfl) (fun _ => rfl) hexpand
    · exact hexpand
  · exact (proximity_blames hP label id).bind fun _ => .pure _
  · exact (leaf_blames hP label).bind fun _ => .pure _

end Nodes

/-- **Every failed compilation** has reported an error, or its last scan has failed. -/
theorem nodeWithin_blames (hexpansion : ∀ kind, P (.notAnExpansion kind)) (fuel : Nat)
    (id : NodeId) : Blames env P (nodeWithin env fuel id) := by
  induction fuel generalizing id with
  | zero => exact .throw (hP.ordinary _ rfl)
  | succ fuel ih => exact node_blames hP ih hexpansion id

end Reported

end Compile

end LinkedSearch
