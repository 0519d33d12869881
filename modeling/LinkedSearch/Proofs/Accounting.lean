import LinkedSearch.Proofs.Wrapping

/-! # Accounting for compiled queries

Every condition of a compiled query without expansions comes from one of its predicates, and what lies
around it is known from where the predicate stands:

* `SpanAccounted`, `Accounted`: the pieces of a fragment are those of the predicates, and make it up.
* `Fits`: the nested paths around a piece.
* `nodeWithin_accounted`: whatever a query is compiled to is accounted for. -/

namespace LinkedSearch

open Query (Arena Kind Label NodeId Tree)

namespace Compile

variable {env : Environment} {p q : Progress} {n : Nat} {label : Label} {F : Fragment}

/-! ## Pieces on word positions -/

/-- **Accounting for a condition on word positions**: every clause on words comes from the piece of one
predicate below the proximity. -/
structure SpanAccounted (filter : Bool) (tree : Tree) (S : Span) : Prop where
  leaves : (tree.spanPieces S).map (·.leaf) = tree.leaves filter
  primitives : (Fragment.span S).primitives = (tree.spanPieces S).flatMap Piece.primitives
  loose : ∀ piece ∈ tree.spanPieces S, piece.near = true ∧ piece.inScope = false ∧
    piece.paths = [] ∧ ∃ clause, piece.part = .span clause

/-- Accounting for the clauses of several queries. -/
structure SpansAccounted (filter : Bool) (trees : List Tree) (clauses : List Span) : Prop where
  leaves : (Tree.spanPiecesOf trees clauses).map (·.leaf) = Tree.leavesOf filter trees
  primitives : ∀ slop ordered boost, (Fragment.span (.near clauses slop ordered boost)).primitives =
    (Tree.spanPiecesOf trees clauses).flatMap Piece.primitives
  loose : ∀ piece ∈ Tree.spanPiecesOf trees clauses, piece.near = true ∧ piece.inScope = false ∧
    piece.paths = [] ∧ ∃ clause, piece.part = .span clause

theorem SpansAccounted.nil (filter : Bool) : SpansAccounted filter [] [] where
  leaves := rfl
  primitives := fun _ _ _ => rfl
  loose := fun _ h => absurd h List.not_mem_nil

theorem SpansAccounted.cons {filter : Bool} {tree : Tree} {trees : List Tree} {S : Span}
    {clauses : List Span} (h : SpanAccounted filter tree S)
    (hrest : SpansAccounted filter trees clauses) :
    SpansAccounted filter (tree :: trees) (S :: clauses) where
  leaves := by
    rw [Tree.spanPiecesOf, List.map_append, h.leaves, hrest.leaves, Tree.leavesOf]
  primitives := fun slop ordered boost => by
    have hfirst := h.primitives
    have hlater := hrest.primitives slop ordered boost
    rw [Fragment.primitives] at hfirst hlater
    rw [Span.primitives] at hlater
    rw [Tree.spanPiecesOf, List.flatMap_append, ← hfirst, ← hlater, Fragment.primitives,
      Span.primitives, Span.primitivesOf, List.map_append]
  loose := fun piece hpiece => by
    rw [Tree.spanPiecesOf] at hpiece
    rcases List.mem_append.mp hpiece with hpiece | hpiece
    · exact h.loose piece hpiece
    · exact hrest.loose piece hpiece

/-- A proximity is accounted for if its children are. -/
theorem SpansAccounted.near {filter : Bool} {label : Label} {children : List Tree}
    {clauses : List Span} (hkind : label.kind.isProximity = true)
    (h : SpansAccounted filter children clauses) (slop : Nat) (ordered : Bool) (boost : Boost) :
    SpanAccounted filter (.node label children) (.near clauses slop ordered boost) := by
  obtain ⟨hadmitted, hjoin, hleaf⟩ := Kind.of_isProximity hkind
  refine ⟨?_, ?_, ?_⟩
  · rw [Tree.spanPieces_near hkind, Tree.leaves_inner hleaf hjoin fun _ => hadmitted]
    exact h.leaves
  · rw [Tree.spanPieces_near hkind, h.primitives]
    rfl
  · rw [Tree.spanPieces_near hkind]
    exact h.loose

/-- A predicate below a proximity accounts for its own clause. -/
theorem SpanAccounted.leaf (filter : Bool) {label : Label} (children : List Tree)
    (hkind : label.kind.isLeaf = true) (S : Span) :
    SpanAccounted filter (.node label children) S := by
  refine ⟨?_, ?_, ?_⟩
  · rw [Tree.spanPieces_leaf hkind, Tree.leaves_leaf hkind]
    rfl
  · rw [Tree.spanPieces_leaf hkind]
    simp [Piece.primitives]
  · rw [Tree.spanPieces_leaf hkind]
    intro piece hpiece
    obtain rfl := List.mem_singleton.mp hpiece
    exact ⟨rfl, rfl, rfl, S, rfl⟩

section Proximities

variable (hp : Sound env p)

include hp

/-- The clause for a child of a proximity is the same in all states. -/
theorem spanOfChild_timeless (outer : Label) {k : Nat} (hreach : Reaches p.draft.arena k n) :
    Timeless env (spanOfChild env (nearWithin env k) outer n) p := by
  refine .of_agrees fun s hs => ?_
  have hheld := hp.ascending.holds_treeAt n
  have hdraft := hs.draft_eq
  exact spanOfChild_agrees (hs.facing hp).1 (hs.sound hp).ascending hp.ascending outer _
    (hdraft ▸ hheld) hheld (fun label _ _ => (hs.facing hp).2 label) (hdraft ▸ hreach) hreach

omit hp in
/-- Only predicates are conditions on word positions of their own. -/
theorem isLeaf_of_spanOfLeaf {outer : Query.Operator} {field : String} {S : Span}
    (h : (exec (spanOfLeaf outer field label) p).1 = .ok S) : label.kind.isLeaf = true := by
  unfold spanOfLeaf at h
  split at h
  · next hspan =>
    unfold spanOfLeaf? at hspan
    split at hspan <;> first | (next hk => rw [hk]; rfl) | exact absurd hspan (by simp)
  · exact absurd h (by simp [exec])

/-- A proximity has one clause for each of its children. -/
theorem clauses_of_nearWithin {outer : Label} {k : Nat} {S : Span}
    (hreach : ∀ c ∈ p.draft.arena.children n, Reaches p.draft.arena k c)
    (h : (exec (nearWithin env (k + 1) outer n) p).1 = .ok S) :
    ∃ clauses slop ordered, S = .near clauses slop ordered none ∧
      List.Forall₂ (fun c S => (exec (spanOfChild env (nearWithin env k) outer c) p).1 = .ok S)
        (p.draft.arena.children n) clauses := by
  have hchild : ∀ c ∈ p.draft.arena.children n,
      Timeless env (spanOfChild env (nearWithin env k) outer c) p :=
    fun c hc => spanOfChild_timeless hp outer (hreach c hc)
  have h : (exec (do
      let clauses ← (p.draft.arena.children n).mapM (spanOfChild env (nearWithin env k) outer)
      return Span.near clauses (proximityDistance outer.kind).1 (proximityDistance outer.kind).2 none)
      p).1 = .ok S := h
  obtain ⟨clauses, hclauses, hS⟩ := ((Timeless.mapM hchild).bind_ok fun _ => .pure _).mp h
  exact ⟨clauses, _, _, (Except.ok.inj hS).symm, Timeless.mapM_ok hchild hclauses⟩

end Proximities

mutual

/-- **The clause for a child of a proximity** comes from the predicates below. -/
theorem spanOfChild_accounted (hp : Sound env p) (filter : Bool) (outer : Label) :
    ∀ (tree : Tree) {n k : Nat} {S : Span}, p.draft.arena.Holds n tree → Reaches p.draft.arena k n →
      (exec (spanOfChild env (nearWithin env k) outer n) p).1 = .ok S → SpanAccounted filter tree S
  | .node label children, n, k, S, hheld, hreach, h => by
    obtain ⟨hlabel, hchildren⟩ := Arena.holds_node.mp hheld
    have hread : exec (labelOf n) p = (.ok label, p) := by
      rw [← hlabel]
      rfl
    unfold spanOfChild at h
    rw [exec_bind, hread] at h
    simp only at h
    split at h
    · next hkind => exact .leaf filter children (by rw [hkind]; rfl) S
    · next hkind =>
      -- the bound reaches the children, since they come later in the arena
      obtain ⟨k, rfl⟩ : ∃ j, k = j + 1 := ⟨k - 1, by have := hreach.1; have := hreach.2; omega⟩
      have hreach' : ∀ c ∈ p.draft.arena.children n, Reaches p.draft.arena k c := fun c hc =>
        hreach.child hp.ascending hc
      rw [exec_bind] at h
      rcases hnear : exec (nearWithin env (k + 1) label n) p with ⟨error | S', q⟩
      · rw [hnear] at h
        exact absurd h (by simp)
      rw [hnear] at h
      obtain ⟨clauses, slop, ordered, rfl, hclauses⟩ :=
        clauses_of_nearWithin hp hreach' (congrArg Prod.fst hnear)
      have hall := spansOfChildren_accounted hp filter label children hchildren hreach' hclauses
      have hnear : label.kind.isProximity = true := by rw [hkind]; rfl
      obtain rfl := Except.ok.inj h
      cases label.boost with
      | none => exact hall.near hnear slop ordered none
      | some factor => exact hall.near hnear slop ordered _
    · rw [exec_bind] at h
      rcases hspan : exec (spanOfLeaf outer.operator outer.fieldName label) p with ⟨error | S', q⟩
      · rw [hspan] at h
        exact absurd h (by simp)
      · exact .leaf filter children (isLeaf_of_spanOfLeaf (congrArg Prod.fst hspan)) S

/-- The clauses for some children of a proximity. -/
theorem spansOfChildren_accounted (hp : Sound env p) (filter : Bool) (outer : Label) : ∀ (trees : List Tree)
    {ids : List NodeId} {k : Nat} {clauses : List Span}, p.draft.arena.HoldsAll ids trees →
    (∀ n ∈ ids, Reaches p.draft.arena k n) →
    List.Forall₂ (fun c S => (exec (spanOfChild env (nearWithin env k) outer c) p).1 = .ok S) ids clauses →
    SpansAccounted filter trees clauses
  | [], ids, k, clauses, hheld, hreach, h => by
    rw [Arena.holdsAll_nil.mp hheld] at h
    obtain rfl := List.forall₂_nil_left_iff.mp h
    exact .nil filter
  | tree :: rest, ids, k, clauses, hheld, hreach, h => by
    obtain ⟨n, later, rfl, hn, hrest⟩ := Arena.holdsAll_cons.mp hheld
    obtain ⟨S, clauses', hS, hlater, rfl⟩ := List.forall₂_cons_left_iff.mp h
    exact .cons (spanOfChild_accounted hp filter outer tree hn (hreach n List.mem_cons_self) hS)
      (spansOfChildren_accounted hp filter outer rest hrest
        (fun c hc => hreach c (List.mem_cons_of_mem n hc)) hlater)

end

/-! ## Pieces of queries -/

/-- Loose predicates are known by what is known of their fields. -/
theorem isLoose_congr {md md' : Metadata} (h : md.Grows env.resolver md') (label : Label) :
    isLoose env md' label = isLoose env md label := by
  unfold isLoose isPositional tokens?
  rw [h.ownerMapping_eq]

/-- A scope deeper. -/
def deeper (p : Progress) : Progress := { p with scopeDepth := p.scopeDepth + 1 }

/-- **Fitting**: a piece is wrapped unless it is loose, and the scope that it stands in has the nested path
of its predicate. -/
structure Fits (env : Environment) (p : Progress) (piece : Piece) : Prop where
  loose : piece.isLoose env p.metadata = true →
    piece.part.IsFlat ∧ piece.part.isMatchAll = false
  wrapped : piece.isLoose env p.metadata = false →
    Wrapped env (if piece.inScope then deeper p else p) piece.leaf piece.part
  outside : piece.inScope = false → piece.paths = []
  deep : p.scopeDepth ≠ 0 → piece.paths = []
  shared : p.scopeDepth = 0 → piece.inScope = true → ∀ path,
    p.metadata.pathOf env.resolver piece.leaf = .ok (some path) → piece.paths = [path]

/-- A piece of a predicate. -/
theorem Fits.of_routed (h : Routed env p label F) (boost : Boost) :
    Fits env p { leaf := label, part := F.weighted boost } where
  loose := fun hloose => by
    cases h with
    | loose _ hflat hopen =>
      exact ⟨(Fragment.forall_paths_weighted boost (P := (· = []))).mpr hflat, by simpa using hopen⟩
    | wrapped hwrapped _ =>
      rw [Piece.isLoose, Bool.false_or, hwrapped] at hloose
      exact absurd hloose (by simp)
  wrapped := fun hplain => by
    cases h with
    | loose hloose _ _ =>
      rw [Piece.isLoose, Bool.false_or, hloose] at hplain
      exact absurd hplain (by simp)
    | wrapped _ h => exact h.weighted boost
  outside := fun _ => rfl
  deep := fun _ => rfl
  shared := fun _ hscope => absurd hscope (by simp)

/-- A piece below a proximity. -/
theorem Fits.of_near {piece : Piece} (h : piece.near = true ∧ piece.inScope = false ∧
    piece.paths = [] ∧ ∃ clause, piece.part = .span clause) : Fits env p piece := by
  obtain ⟨hnear, houtside, hpaths, clause, hpart⟩ := h
  refine ⟨fun _ => ?_, fun hplain => ?_, fun _ => hpaths, fun _ => hpaths, fun _ hscope => ?_⟩
  · rw [hpart]
    exact ⟨Fragment.isFlat_span clause, rfl⟩
  · rw [Piece.isLoose, hnear, Bool.true_or] at hplain
    exact absurd hplain (by simp)
  · rw [houtside] at hscope
    exact absurd hscope (by simp)

/-- A piece inside of a scope. -/
theorem Fits.inside {piece : Piece} (h : Fits env (deeper q) piece) {path : Option String}
    (hgrows : p.metadata.Grows env.resolver q.metadata) (hmode : q.aggregating = p.aggregating)
    (hshared : p.scopeDepth = 0 → ∀ path', p.metadata.pathOf env.resolver piece.leaf = .ok (some path') →
      path = some path')
    (hdeep : p.scopeDepth ≠ 0 → path = none) : Fits env p (piece.inside path) := by
  have hnone : piece.paths = [] := h.deep (Nat.succ_ne_zero _)
  have hloose : (piece.inside path).isLoose env p.metadata = piece.isLoose env (deeper q).metadata := by
    unfold Piece.isLoose
    exact congrArg (piece.near || ·) (isLoose_congr hgrows piece.leaf).symm
  refine ⟨fun hl => h.loose (hloose ▸ hl), fun hw => ?_, fun hscope => ?_, fun hdepth => ?_,
    fun hzero _ path' hpath' => ?_⟩
  · refine (h.wrapped (hloose ▸ hw)).congr ?_ ?_ ?_
    · show p.metadata.Grows env.resolver _
      split <;> exact hgrows
    · split <;> exact hmode
    · show _ ↔ p.scopeDepth + 1 = 0
      split <;> simp [deeper]
  · exact absurd hscope (by simp [Piece.inside])
  · simp [Piece.inside, hnone, hdeep hdepth]
  · simp [Piece.inside, hnone, hshared hzero path' hpath']

/-- **Accounting for a fragment**: its pieces are those of the compiled predicates of the query, in this
order, its conditions are those of the pieces, and the pieces fit. -/
structure Accounted (env : Environment) (p : Progress) (tree : Tree) (F : Fragment) : Prop where
  leaves : (tree.pieces env.settings.useParentChild p.aggregating F).map (·.leaf) =
    tree.leaves p.aggregating
  primitives : F.primitives =
    (tree.pieces env.settings.useParentChild p.aggregating F).flatMap Piece.primitives
  fits : ∀ piece ∈ tree.pieces env.settings.useParentChild p.aggregating F, Fits env p piece

/-- Accounting for the fragments of several queries. -/
structure AccountedAll (env : Environment) (p : Progress) (trees : List Tree)
    (fragments : List Fragment) : Prop where
  leaves : (Tree.piecesOf env.settings.useParentChild p.aggregating trees fragments).map (·.leaf) =
    Tree.leavesOf p.aggregating trees
  primitives : Fragment.primitivesOf fragments =
    (Tree.piecesOf env.settings.useParentChild p.aggregating trees fragments).flatMap Piece.primitives
  fits : ∀ piece ∈ Tree.piecesOf env.settings.useParentChild p.aggregating trees fragments,
    Fits env p piece

theorem accountedAll_of_forall₂ {trees : List Tree} {fragments : List Fragment}
    (h : List.Forall₂ (Accounted env p) trees fragments) : AccountedAll env p trees fragments := by
  induction h with
  | nil => exact ⟨rfl, rfl, fun _ h => absurd h List.not_mem_nil⟩
  | cons hfirst _ ih =>
    refine ⟨?_, ?_, fun piece hpiece => ?_⟩
    · rw [Tree.piecesOf, List.map_append, hfirst.leaves, ih.leaves, Tree.leavesOf]
    · rw [Tree.piecesOf, List.flatMap_append, ← hfirst.primitives, ← ih.primitives,
        Fragment.primitivesOf]
    · rw [Tree.piecesOf] at hpiece
      rcases List.mem_append.mp hpiece with hpiece | hpiece
      · exact hfirst.fits piece hpiece
      · exact ih.fits piece hpiece

namespace Accounted

variable {children : List Tree}

/-- What matches everything accounts for a query that is admitted. -/
theorem admitted (hkind : label.kind.isAdmitted = true) (hfilter : p.aggregating = true) :
    Accounted env p (.node label children) (.matchAll none) := by
  refine ⟨?_, ?_, ?_⟩
  all_goals rw [hfilter, Tree.pieces_admitted hkind]
  · rw [Tree.leaves_admitted hkind]
    rfl
  · rfl
  · exact fun _ h => absurd h List.not_mem_nil

/-- A predicate accounts for its own fragment. -/
theorem leaf (hkind : label.kind.isLeaf = true) (h : Routed env p label F) (boost : Boost) :
    Accounted env p (.node label children) (F.weighted boost) := by
  refine ⟨?_, ?_, ?_⟩
  · rw [Tree.pieces_leaf hkind, Tree.leaves_leaf hkind]
    rfl
  · rw [Tree.pieces_leaf hkind]
    simp [Piece.primitives]
  · rw [Tree.pieces_leaf hkind]
    intro piece hpiece
    obtain rfl := List.mem_singleton.mp hpiece
    exact .of_routed h boost

/-- A connective accounts for its clauses. -/
theorem connective {wrap : List Fragment → Fragment} {clauses : List Fragment}
    (hwrap : label.kind.connective? = some wrap)
    (hopen : p.aggregating = true → label.kind.isAdmitted = false)
    (h : AccountedAll env p children clauses) :
    Accounted env p (.node label children) (wrap clauses) := by
  obtain ⟨hjoin, hleaf, -, -⟩ := Kind.of_connective hwrap
  obtain ⟨hclauses, hprimitives⟩ := Fragment.primitives_connective hwrap clauses
  refine ⟨?_, ?_, ?_⟩
  · rw [Tree.pieces_connective hwrap hopen, hclauses, Tree.leaves_inner hleaf hjoin hopen]
    exact h.leaves
  · rw [Tree.pieces_connective hwrap hopen, hclauses, hprimitives]
    exact h.primitives
  · rw [Tree.pieces_connective hwrap hopen, hclauses]
    exact h.fits

/-- A scope accounts for its clauses, which it puts below its path. -/
theorem scope {clauses : List Fragment} {path : Option String} (hkind : label.kind = .scope)
    (h : AccountedAll env (deeper q) children clauses)
    (hgrows : p.metadata.Grows env.resolver q.metadata) (hmode : q.aggregating = p.aggregating)
    (hshared : p.scopeDepth = 0 → ∀ l ∈ Tree.leavesOf p.aggregating children, ∀ path',
      p.metadata.pathOf env.resolver l = .ok (some path') → path = some path')
    (hdeep : p.scopeDepth ≠ 0 → path = none) :
    Accounted env p (.node label children) (underPath path clauses) := by
  have hmode' : (deeper q).aggregating = p.aggregating := hmode
  obtain ⟨hleaves, hprimitives, hfits⟩ := h
  rw [hmode'] at hleaves hprimitives hfits
  -- without a path there is no nested clause around the clauses, but the same primitives
  have hunder : (underPath path clauses).content.clauses = clauses ∧
      (underPath path clauses).path? = path ∧ (underPath path clauses).primitives =
        (Fragment.primitivesOf clauses).map fun x => (path.toList ++ x.1, x.2) := by
    cases path <;>
      simp [underPath, Fragment.content, Fragment.all, Fragment.clauses, Fragment.path?,
        Fragment.primitives, Fragment.primitivesOf]
  obtain ⟨hclauses, hpath, hmap⟩ := hunder
  refine ⟨?_, ?_, ?_⟩
  · rw [Tree.pieces_scope hkind, hclauses, List.map_map,
      Tree.leaves_inner (by rw [hkind]; rfl) (by rw [hkind]; rfl) fun _ => by rw [hkind]; rfl]
    exact hleaves
  · rw [Tree.pieces_scope hkind, hclauses, hpath, hmap, hprimitives, List.map_flatMap, List.flatMap_map]
    simp only [Piece.primitives_inside]
  · rw [Tree.pieces_scope hkind, hclauses, hpath]
    intro piece hpiece
    obtain ⟨inner, hinner, rfl⟩ := List.mem_map.mp hpiece
    refine (hfits inner hinner).inside hgrows hmode (fun hzero => hshared hzero _ ?_) hdeep
    rw [← hleaves]
    exact List.mem_map_of_mem hinner

/-- A parent or child scope accounts for its first query. -/
theorem joined {join : Fragment → Fragment} {tree : Tree} {rest : List Tree}
    (hjoin : label.kind.join? = some join)
    (hopen : p.aggregating = true → label.kind.isAdmitted = false) (h : Accounted env p tree F) :
    Accounted env p (.node label (tree :: rest))
      (if env.settings.useParentChild then join F else F) := by
  obtain ⟨hcontent, hprimitives⟩ := Fragment.primitives_join hjoin F
  have hinner : (if env.settings.useParentChild then
      (if env.settings.useParentChild then join F else F).content
      else (if env.settings.useParentChild then join F else F)) = F := by
    split
    · exact hcontent
    · rfl
  have hsame : (if env.settings.useParentChild then join F else F).primitives = F.primitives := by
    split
    · exact hprimitives
    · rfl
  refine ⟨?_, ?_, ?_⟩
  · rw [Tree.pieces_joined hjoin hopen, hinner, Tree.piecesOfFirst, Tree.leaves_joined hjoin hopen,
      Tree.leavesOfFirst]
    exact h.leaves
  · rw [Tree.pieces_joined hjoin hopen, hinner, Tree.piecesOfFirst, hsame]
    exact h.primitives
  · rw [Tree.pieces_joined hjoin hopen, hinner, Tree.piecesOfFirst]
    exact h.fits

/-- A parent or child scope without children has nothing to account for. -/
theorem childless {join : Fragment → Fragment} (hjoin : label.kind.join? = some join)
    (hopen : p.aggregating = true → label.kind.isAdmitted = false) :
    Accounted env p (.node label []) (.matchAll none) := by
  refine ⟨?_, ?_, ?_⟩
  · rw [Tree.pieces_joined hjoin hopen, Tree.leaves_joined hjoin hopen]
    rfl
  · rw [Tree.pieces_joined hjoin hopen]
    rfl
  · rw [Tree.pieces_joined hjoin hopen]
    exact fun _ h => absurd h List.not_mem_nil

/-- A proximity accounts for its clauses. -/
theorem proximity {clauses : List Span} (hkind : label.kind.isProximity = true)
    (h : SpansAccounted p.aggregating children clauses) (slop : Nat) (ordered : Bool)
    (boost : Boost) :
    Accounted env p (.node label children) (.span (.near clauses slop ordered boost)) := by
  obtain ⟨hadmitted, hjoin, hleaf⟩ := Kind.of_isProximity hkind
  refine ⟨?_, ?_, ?_⟩
  · rw [Tree.pieces_proximity hkind, Tree.leaves_inner hleaf hjoin fun _ => hadmitted]
    exact h.leaves
  · rw [Tree.pieces_proximity hkind]
    exact h.primitives slop ordered boost
  · rw [Tree.pieces_proximity hkind]
    exact fun piece hpiece => .of_near (h.loose piece hpiece)

end Accounted

/-! ## Compiled queries -/

/-- **The path that leaves share** is the one of every leaf that has one. -/
theorem path_of_sharing {labels : List Label} : ∀ {p q : Progress} {shared path : Option String},
    Sound env p → exec (labels.foldlM (sharePath env) shared) p = (.ok path, q) →
    (∀ path', shared = some path' → path = some path') ∧
      ∀ l ∈ labels, ∀ path', p.metadata.pathOf env.resolver l = .ok (some path') →
        path = some path' := by
  induction labels with
  | nil =>
    intro p q shared path _ h
    obtain rfl := Except.ok.inj (congrArg Prod.fst h)
    exact ⟨fun _ h => h, fun _ hl => absurd hl List.not_mem_nil⟩
  | cons label labels ih =>
    intro p q shared path hp h
    rw [List.foldlM_cons] at h
    obtain ⟨next, s, hnext, hrest⟩ := exec_bind_ok.mp h
    obtain ⟨s', hexec, hlooked⟩ := exec_nestedPathOf hp label
    unfold sharePath at hnext
    obtain ⟨own, u, hown, hnext⟩ := exec_bind_ok.mp hnext
    obtain ⟨howneq, rfl⟩ := Prod.mk.inj (hexec.symm.trans hown)
    -- what is shared so far is kept, and so is the path of this leaf
    have hkept : (∀ path', shared = some path' → next = some path') ∧
        (∀ path', own = some path' → next = some path') ∧ s' = s := by
      cases own with
      | none =>
        obtain ⟨hn, hs⟩ := Prod.mk.inj hnext
        obtain rfl := Except.ok.inj hn
        exact ⟨fun _ h => h, fun _ h => absurd h (by simp), hs⟩
      | some ownPath =>
        cases shared with
        | none =>
          obtain ⟨hn, hs⟩ := Prod.mk.inj hnext
          obtain rfl := Except.ok.inj hn
          exact ⟨fun _ h => absurd h (by simp), fun _ h => h, hs⟩
        | some active =>
          simp only at hnext
          split at hnext
          · next hsame =>
            obtain ⟨hn, hs⟩ := Prod.mk.inj hnext
            obtain rfl := Except.ok.inj hn
            exact ⟨fun _ h => h, fun _ h => hsame ▸ h, hs⟩
          · exact absurd (congrArg Prod.fst hnext) (by simp [exec])
    obtain ⟨hshared, hownpath, rfl⟩ := hkept
    obtain ⟨hfirst, hlater⟩ := ih (hlooked.evolves hp).sound hrest
    refine ⟨fun path' h => hfirst path' (hshared path' h), fun l hl path' hpath' => ?_⟩
    rcases List.mem_cons.mp hl with rfl | hl
    · exact hfirst path' (hownpath path' (Except.ok.inj (howneq.symm.trans hpath')))
    · refine hlater l hl path' ?_
      obtain ⟨md, hgrows, rfl⟩ := hlooked
      exact (hgrows.pathOf_eq l).trans hpath'

/-- The path of a scope is the one of every leaf below it that has one. -/
theorem path_of_sharedPath (hp : Sound env p) {tree : Tree} (hheld : p.draft.arena.Holds n tree)
    {path : Option String} (h : (exec (sharedPath env n) p).1 = .ok path) :
    ∀ l ∈ tree.preorder, l.kind.isLeaf = true → ∀ path',
      p.metadata.pathOf env.resolver l = .ok (some path') → path = some path' := by
  intro l hl hleaf
  have hexec : exec ((tree.preorder.filter (·.kind.isLeaf)).foldlM (sharePath env) none) p =
      (.ok path, (exec (sharedPath env n) p).2) := by
    rw [← hp.ascending.labels_descendants hheld]
    exact Prod.ext h rfl
  exact (path_of_sharing hp hexec).2 l (List.mem_filter.mpr ⟨hl, hleaf⟩)

/-- Some nodes, each of which is accounted for. -/
theorem forall₂_accounted {fuel : Nat} {trees : List Tree} {ids : List NodeId}
    {fragments : List Fragment}
    (hrecur : ∀ c ∈ ids, ∀ (tree : Tree) (F : Fragment), p.draft.arena.Holds c tree →
      tree.IsBare → (exec (nodeWithin env fuel c) p).1 = .ok F → Accounted env p tree F)
    (hheld : p.draft.arena.HoldsAll ids trees) (hbare : ∀ tree ∈ trees, tree.IsBare)
    (hall : List.Forall₂ (fun c F => (exec (nodeWithin env fuel c) p).1 = .ok F) ids fragments) :
    List.Forall₂ (Accounted env p) trees fragments := by
  induction trees generalizing ids fragments with
  | nil =>
    rw [Arena.holdsAll_nil.mp hheld] at hall
    obtain rfl := List.forall₂_nil_left_iff.mp hall
    exact .nil
  | cons tree rest ih =>
    obtain ⟨c, later, rfl, hc, hlater⟩ := Arena.holdsAll_cons.mp hheld
    obtain ⟨F, fragments', hF, hrest, rfl⟩ := List.forall₂_cons_left_iff.mp hall
    exact .cons (hrecur c List.mem_cons_self tree F hc (hbare tree List.mem_cons_self) hF)
      (ih (fun d hd => hrecur d (List.mem_cons_of_mem c hd)) hlater
        (fun t ht => hbare t (List.mem_cons_of_mem tree ht)) hrest)

/-- The leaves of a scope, each with the path that the scope has found. -/
theorem path_of_scope (hp : Sound env p) {children : List Tree} (hkind : label.kind = .scope)
    (hheld : p.draft.arena.Holds n (.node label children)) {path : Option String}
    (h : (exec (sharedPath env n) p).1 = .ok path) (filter : Bool) :
    ∀ l ∈ Tree.leavesOf filter children, ∀ path',
      p.metadata.pathOf env.resolver l = .ok (some path') → path = some path' := by
  intro l hl
  have hleaves : (Query.Tree.node label children).leaves filter = Tree.leavesOf filter children :=
    Tree.leaves_inner (by rw [hkind]; rfl) (by rw [hkind]; rfl) (fun _ => by rw [hkind]; rfl) _
  rw [← hleaves] at hl
  obtain ⟨hmem, hleaf⟩ := Tree.leaves_spec filter _ l hl
  exact path_of_sharedPath hp hheld h l hmem hleaf

/-- A proximity accounts for what it is compiled to. -/
theorem proximity_accounted (hp : Sound env p) {children : List Tree}
    (hheld : p.draft.arena.Holds n (.node label children)) (hn : n < p.draft.arena.size)
    (hkind : label.kind.isProximity = true)
    (h : (exec (weightedProximity env label n) p).1 = .ok F) :
    Accounted env p (.node label children) F := by
  obtain ⟨-, hchildren⟩ := Arena.holds_node.mp hheld
  obtain ⟨k, hk⟩ : ∃ k, p.draft.arena.size = k + 1 := ⟨p.draft.arena.size - 1, by omega⟩
  have hreach : ∀ c ∈ p.draft.arena.children n, Reaches p.draft.arena k c := fun c hc =>
    Reaches.child hp.ascending ⟨by omega, hn⟩ hc
  have hnear : (exec (nearWithin env (k + 1) label n >>= fun S =>
      pure ((Fragment.span S).weighted label.boost)) p).1 = .ok F := by
    rw [← hk, ← h]
    unfold weightedProximity proximity
    simp only [bind_assoc, pure_bind]
    rfl
  rw [exec_bind] at hnear
  rcases hexec : exec (nearWithin env (k + 1) label n) p with ⟨error | S, q⟩
  · rw [hexec] at hnear
    exact absurd hnear (by simp)
  rw [hexec] at hnear
  obtain rfl := Except.ok.inj hnear
  obtain ⟨clauses, slop, ordered, rfl, hclauses⟩ :=
    clauses_of_nearWithin hp hreach (congrArg Prod.fst hexec)
  have hall := spansOfChildren_accounted hp p.aggregating label children hchildren hreach hclauses
  cases label.boost with
  | none => exact .proximity hkind hall slop ordered none
  | some factor => exact .proximity hkind hall slop ordered _

/-- A scope accounts for what it is compiled to, if its children do wherever they are compiled. -/
theorem scope_accounted {fuel : Nat} {children : List Tree} {s u q : Progress}
    {clauses : List Fragment} (hp : Sound env p) (hkind : label.kind = .scope)
    (hheld : p.draft.arena.Holds n (.node label children))
    (htimeless : ∀ {s : Progress}, Sound env s → s.draft = p.draft →
      ∀ c ∈ p.draft.arena.children n, Timeless env (nodeWithin env fuel c) s)
    (hall : ∀ {s u : Progress} {clauses : List Fragment}, Sound env s → s.draft = p.draft →
      exec ((p.draft.arena.children n).mapM (nodeWithin env fuel)) s = (.ok clauses, u) →
      AccountedAll env s children clauses)
    (hentered : Entered env n p s)
    (hclauses : exec ((p.draft.arena.children n).mapM (nodeWithin env fuel))
      { s with scopeDepth := s.scopeDepth + 1 } = (.ok clauses, u))
    (hclose : (F, q) = closeScope clauses { u with scopeDepth := u.scopeDepth - 1 }) :
    Accounted env p (.node label children) F := by
  cases hentered with
  | outermost path s hzero hpath =>
    obtain ⟨outcome, s', hexec', hlooked⟩ := sharedPath_looks hp n
    obtain ⟨-, rfl⟩ := Prod.mk.inj (hexec'.symm.trans hpath)
    obtain ⟨md, hgrows, rfl⟩ := hlooked
    obtain ⟨path', hpath', rfl⟩ := closeScope_underPath hp hzero (.outermost path _ hzero hpath)
      _ hclauses hclose
    have hinside : AccountedAll env (deeper { p with metadata := md, scopePath := path })
        children clauses := hall ⟨hp.ascending, hgrows.faithful hp.faithful⟩ rfl hclauses
    exact .scope hkind hinside hgrows rfl (fun _ => path_of_scope hp hkind hheld hpath' _)
      fun hdepth => absurd hzero hdepth
  | inner hdepth =>
    have hdeeper : Sound env (deeper p) := ⟨hp.ascending, hp.faithful⟩
    have hclauses : exec ((p.draft.arena.children n).mapM (nodeWithin env fuel)) (deeper p) =
        (.ok clauses, u) := hclauses
    -- the scope is still inside of another one when its children are compiled
    have hdrift := (Timeless.mapM (htimeless hdeeper rfl) _ (.refl _)).2
    rw [hclauses] at hdrift
    have hu : u.scopeDepth = p.scopeDepth + 1 := hdrift.scopeDepth_eq
    have hF : F = underPath none clauses := by
      have hF := congrArg Prod.fst hclose
      unfold closeScope at hF
      rw [if_pos (by show 0 < u.scopeDepth - 1; omega)] at hF
      exact hF
    rw [hF]
    exact .scope hkind (hall hdeeper rfl hclauses) (.refl _) rfl (fun hzero => absurd hzero hdepth)
      fun _ => rfl

/-- **Whatever a query without expansions is compiled to is accounted for.** -/
theorem nodeWithin_accounted (fuel : Nat) : ∀ {p : Progress} {n : Nat} {tree : Tree} {F : Fragment},
    Sound env p → p.draft.arena.Holds n tree → n < p.draft.arena.size → tree.IsBare →
    (exec (nodeWithin env fuel n) p).1 = .ok F → Accounted env p tree F := by
  induction fuel with
  | zero =>
    intro p n tree F _ _ _ _ h
    exact absurd h (by simp [nodeWithin, exec])
  | succ fuel ih =>
    intro p n tree F hp hheld hn hbare h
    obtain ⟨label, children⟩ := tree
    obtain ⟨hlabel, hchildren⟩ := Arena.holds_node.mp hheld
    obtain ⟨hkind, hbareall⟩ := Tree.isBare_node.mp hbare
    have hnode := (hp.ascending.bare_iff hheld).mpr hbare
    have htimeless : ∀ {s : Progress}, Sound env s → s.draft = p.draft →
        ∀ c ∈ p.draft.arena.children n, Timeless env (nodeWithin env fuel c) s := by
      intro s hs hdraft c hc
      refine nodeWithin_timeless fuel hs ?_
      rw [hdraft]
      exact hp.ascending.settled_of_bare (hp.ascending.child_lt n c hc) (hnode.child hc)
    -- the children, compiled in a state with the same draft
    have hall : ∀ {s u : Progress} {clauses : List Fragment}, Sound env s → s.draft = p.draft →
        exec ((p.draft.arena.children n).mapM (nodeWithin env fuel)) s = (.ok clauses, u) →
        AccountedAll env s children clauses := by
      intro s u clauses hs hdraft hexec
      have heach := Timeless.mapM_ok (htimeless hs hdraft) (congrArg Prod.fst hexec)
      have hheldall : s.draft.arena.HoldsAll (p.draft.arena.children n) children := hdraft ▸ hchildren
      refine accountedAll_of_forall₂ (forall₂_accounted (fun c hc tree F htree hbare hF => ?_)
        hheldall hbareall heach)
      exact ih hs htree (hdraft ▸ hp.ascending.child_lt n c hc) hbare hF
    obtain ⟨q, hexec⟩ : ∃ q, exec (node env (nodeWithin env fuel) n) p = (.ok F, q) :=
      ⟨_, Prod.ext h rfl⟩
    cases (yields_iff (by rwa [hlabel])).mp hexec with
    | connective wrap clauses _ hwrap hopen hclauses =>
      rw [hlabel] at hwrap hopen
      exact .connective hwrap hopen (hall hp rfl hclauses)
    | scope s u clauses _ _ hk hentered hclauses hclose =>
      rw [hlabel] at hk
      exact scope_accounted hp hk hheld htimeless hall hentered hclauses hclose
    | joined join child rest inner _ hjoin hopen hcons hinner =>
      rw [hlabel] at hjoin hopen
      rw [hcons] at hchildren
      cases children with
      | nil => exact absurd (Arena.holdsAll_nil.mp hchildren) (by simp)
      | cons tree trees =>
        obtain ⟨_, _, hids, htree, -⟩ := Arena.holdsAll_cons.mp hchildren
        obtain ⟨rfl, rfl⟩ := List.cons.inj hids
        have hchild : child ∈ p.draft.arena.children n := by
          rw [hcons]
          exact List.mem_cons_self
        exact .joined hjoin hopen (ih hp htree (hp.ascending.child_lt n child hchild)
          (hbareall tree List.mem_cons_self) (congrArg Prod.fst hinner))
    | childless join hjoin hopen hnil =>
      rw [hlabel] at hjoin hopen
      rw [hnil] at hchildren
      cases children with
      | nil => exact .childless hjoin hopen
      | cons tree trees =>
        obtain ⟨_, _, hids, -⟩ := Arena.holdsAll_cons.mp hchildren
        exact absurd hids (by simp)
    | admitted hadmitted hfilter =>
      rw [hlabel] at hadmitted
      exact .admitted hadmitted hfilter
    | proximity _ _ hk hproximity =>
      rw [hlabel] at hk hproximity
      exact proximity_accounted hp hheld hn hk (congrArg Prod.fst hproximity)
    | predicate _ _ hk hpredicate =>
      rw [hlabel] at hk hpredicate
      unfold predicate at hpredicate
      obtain ⟨G, _, hG, hF⟩ := exec_bind_ok.mp hpredicate
      obtain rfl := Except.ok.inj (congrArg Prod.fst hF)
      exact .leaf hk (leaf_routed hp (congrArg Prod.fst hG)) _

end Compile

end LinkedSearch
