import LinkedSearch.Proofs.Yielding

/-! # Where the conditions of a compiled query come from

A compiled query is made of primitive conditions, some of them below nested fragments. Walking the query
and its fragment at the same time tells which predicate every primitive condition was compiled from:

* `Fragment.primitives`: the primitive conditions of a fragment, each with the nested paths around it.
* `Tree.leaves`: the predicates of a query that are compiled, in a query or in the filter of an
  aggregate.
* `Piece`, `Tree.pieces`: what each predicate has contributed to a fragment, and where it is. -/

namespace LinkedSearch

open Query (Kind Label Tree)

/-! ## Primitive conditions -/

mutual

/-- The conditions on single words that a condition on word positions is made of. -/
def Span.primitives : Span → List Span
  | .near clauses _ _ _ => Span.primitivesOf clauses
  | .term field text boost => [.term field text boost]
  | .multiTerm query => [.multiTerm query]

/-- The conditions on single words of some clauses. -/
def Span.primitivesOf : List Span → List Span
  | [] => []
  | clause :: rest => clause.primitives ++ Span.primitivesOf rest

end

/-- The clauses of a condition on word positions. -/
def Span.clauses : Span → List Span
  | .near clauses _ _ _ => clauses
  | _ => []

namespace Fragment

mutual

/-- **Primitive conditions** of a fragment, from left to right, each with the paths of the nested
fragments that it lies in, outermost first. To match everything is no condition. -/
def primitives : Fragment → List (List String × Fragment)
  | .matchAll _ => []
  | .bool must should mustNot _ _ =>
    primitivesOf must ++ primitivesOf should ++ primitivesOf mustNot
  | .nested path query _ => query.primitives.map fun x => (path :: x.1, x.2)
  | .hasChild _ query _ => query.primitives
  | .hasParent _ query _ => query.primitives
  | .constantScore filter _ => filter.primitives
  | .span condition => condition.primitives.map fun clause => ([], .span clause)
  | fragment => [([], fragment)]

/-- The primitive conditions of some fragments. -/
def primitivesOf : List Fragment → List (List String × Fragment)
  | [] => []
  | fragment :: rest => fragment.primitives ++ primitivesOf rest

end

/-- Whether a fragment matches everything. -/
def isMatchAll : Fragment → Bool
  | matchAll _ => true
  | _ => false

/-- **Flat** fragments have no nested fragments around their primitive conditions. -/
def IsFlat (fragment : Fragment) : Prop := ∀ x ∈ fragment.primitives, x.1 = []

/-- The clauses of a connective. -/
def clauses : Fragment → List Fragment
  | bool must should mustNot _ _ => must ++ should ++ mustNot
  | _ => []

/-- The clauses of a condition on word positions. -/
def spanClauses : Fragment → List Span
  | span condition => condition.clauses
  | _ => []

/-- The query inside of a nested fragment or of a join. -/
def content : Fragment → Fragment
  | nested _ query _ | hasChild _ query _ | hasParent _ query _ => query
  | fragment => fragment

/-- The path of a nested fragment. -/
def path? : Fragment → Option String
  | nested path _ _ => some path
  | _ => none

/-- A fragment that matches everything has no conditions. -/
theorem primitives_of_isMatchAll {F : Fragment} (h : F.isMatchAll = true) : F.primitives = [] := by
  cases F with
  | matchAll => rw [primitives]
  | _ => exact absurd h (by simp [isMatchAll])

/-- A fragment that is its own only condition is flat. -/
theorem isFlat_of_primitives {F : Fragment} (h : F.primitives = [([], F)]) : F.IsFlat := by
  intro x hx
  rw [h] at hx
  rw [List.mem_singleton.mp hx]

/-- Conditions on word positions are flat. -/
theorem isFlat_span (condition : Span) : (span condition).IsFlat := by
  intro x hx
  rw [primitives] at hx
  obtain ⟨_, -, rfl⟩ := List.mem_map.mp hx
  rfl

/-- The negation of a flat fragment. -/
theorem IsFlat.not {F : Fragment} (h : F.IsFlat) : F.not.IsFlat := by
  intro x hx
  rw [Fragment.not, primitives, primitivesOf, primitivesOf, primitivesOf] at hx
  simp only [List.append_nil, List.nil_append] at hx
  exact h x hx

/-- A boost changes none of the paths. -/
theorem map_fst_primitives_weighted (boost : Boost) (F : Fragment) :
    (F.weighted boost).primitives.map Prod.fst = F.primitives.map Prod.fst := by
  cases boost with
  | none => rfl
  | some factor =>
    show (F.boosted factor).primitives.map Prod.fst = _
    cases F with
    | span condition => cases condition <;> simp [boosted, Span.boosted, primitives, Span.primitives]
    | _ => simp [boosted, primitives]

/-- What holds of the paths of all primitive conditions does so with a boost. -/
theorem forall_paths_weighted (boost : Boost) {F : Fragment} {P : List String → Prop} :
    (∀ x ∈ (F.weighted boost).primitives, P x.1) ↔ ∀ x ∈ F.primitives, P x.1 := by
  have hmap : ∀ G : Fragment, (∀ x ∈ G.primitives, P x.1) ↔ ∀ paths ∈ G.primitives.map Prod.fst, P paths := by
    intro G
    rw [List.forall_mem_map]
  rw [hmap, hmap, map_fst_primitives_weighted]

@[simp] theorem isMatchAll_weighted (boost : Boost) (F : Fragment) :
    (F.weighted boost).isMatchAll = F.isMatchAll := by
  cases boost with
  | none => rfl
  | some factor => cases F <;> rfl

/-- The conditions of a connective are those of its clauses. -/
theorem primitives_connective {kind : Kind} {wrap : List Fragment → Fragment}
    (h : kind.connective? = some wrap) (fragments : List Fragment) :
    (wrap fragments).clauses = fragments ∧
      (wrap fragments).primitives = primitivesOf fragments := by
  cases kind <;> simp only [Kind.connective?, Option.some.injEq, reduceCtorEq] at h
  all_goals
    subst h
    simp [clauses, primitives, primitivesOf, all, any]

/-- The conditions of a join are those of its content. -/
theorem primitives_join {kind : Kind} {join : Fragment → Fragment} (h : kind.join? = some join)
    (F : Fragment) : (join F).content = F ∧ (join F).primitives = F.primitives := by
  cases kind <;> simp only [Kind.join?, Option.some.injEq, reduceCtorEq] at h
  all_goals
    subst h
    simp [content, primitives]

end Fragment

namespace Query

/-- A predicate is nothing else. -/
theorem Kind.of_isLeaf {kind : Kind} (h : kind.isLeaf = true) :
    kind.isAdmitted = false ∧ kind.join? = none ∧ kind.isProximity = false ∧
      kind.connective? = none := by
  cases kind <;> first | exact ⟨rfl, rfl, rfl, rfl⟩ | exact absurd h (by simp [isLeaf])

/-- A proximity is nothing else. -/
theorem Kind.of_isProximity {kind : Kind} (h : kind.isProximity = true) :
    kind.isAdmitted = false ∧ kind.join? = none ∧ kind.isLeaf = false := by
  cases kind <;> first | exact ⟨rfl, rfl, rfl⟩ | exact absurd h (by simp [isProximity])

/-- A connective is nothing else. -/
theorem Kind.of_connective {kind : Kind} {wrap : List Fragment → Fragment}
    (h : kind.connective? = some wrap) :
    kind.join? = none ∧ kind.isLeaf = false ∧ kind.isProximity = false ∧ kind ≠ .scope := by
  cases kind <;> simp_all [connective?, join?, isLeaf, isProximity]

namespace Tree

/-! ## Compiled predicates -/

mutual

/-- **Leaves** of a query: the predicates that are compiled. Of a parent or child scope only the first
subtree is; the filter of an aggregate leaves out what it admits without looking. -/
def leaves (filter : Bool) : Tree → List Label
  | .node label children =>
    if filter && label.kind.isAdmitted then []
    else if label.kind.join?.isSome then leavesOfFirst filter children
    else if label.kind.isLeaf then [label]
    else leavesOf filter children

/-- The leaves of some queries. -/
def leavesOf (filter : Bool) : List Tree → List Label
  | [] => []
  | tree :: rest => tree.leaves filter ++ leavesOf filter rest

/-- The leaves of the first query. -/
def leavesOfFirst (filter : Bool) : List Tree → List Label
  | [] => []
  | tree :: _ => tree.leaves filter

end

section Leaves

variable {label : Label} {filter : Bool}

theorem leaves_admitted (h : label.kind.isAdmitted = true) (children : List Tree) :
    (node label children).leaves true = [] := by
  simp [leaves, h]

theorem leaves_leaf (h : label.kind.isLeaf = true) (children : List Tree) :
    (node label children).leaves filter = [label] := by
  obtain ⟨hadmitted, hjoin, -⟩ := Kind.of_isLeaf h
  simp [leaves, hadmitted, hjoin, h]

theorem leaves_joined {join : Fragment → Fragment} (h : label.kind.join? = some join)
    (hopen : filter = true → label.kind.isAdmitted = false) (children : List Tree) :
    (node label children).leaves filter = leavesOfFirst filter children := by
  cases filter with
  | false => simp [leaves, h]
  | true => simp [leaves, h, hopen rfl]

/-- Of all other nodes the children are compiled. -/
theorem leaves_inner (hleaf : label.kind.isLeaf = false) (hjoin : label.kind.join? = none)
    (hopen : filter = true → label.kind.isAdmitted = false) (children : List Tree) :
    (node label children).leaves filter = leavesOf filter children := by
  cases filter with
  | false => simp [leaves, hleaf, hjoin]
  | true => simp [leaves, hleaf, hjoin, hopen rfl]

end Leaves

/-- Leaves are predicates of the query. -/
theorem leaves_spec (filter : Bool) (tree : Tree) :
    ∀ label ∈ tree.leaves filter, label ∈ tree.preorder ∧ label.kind.isLeaf = true := by
  induction tree using Tree.rec (motive_2 := fun trees =>
    (∀ label ∈ leavesOf filter trees, label ∈ preorders trees ∧ label.kind.isLeaf = true) ∧
      ∀ label ∈ leavesOfFirst filter trees, label ∈ preorders trees ∧ label.kind.isLeaf = true) with
  | node label children ih =>
    intro l hl
    rw [leaves] at hl
    rw [preorder_node]
    split at hl
    · exact absurd hl List.not_mem_nil
    · split at hl
      · exact ⟨List.mem_cons_of_mem _ (ih.2 l hl).1, (ih.2 l hl).2⟩
      · split at hl
        · next hleaf =>
          obtain rfl := List.mem_singleton.mp hl
          exact ⟨List.mem_cons_self, hleaf⟩
        · exact ⟨List.mem_cons_of_mem _ (ih.1 l hl).1, (ih.1 l hl).2⟩
  | nil => exact ⟨fun _ h => absurd h (by simp [leavesOf]), fun _ h => absurd h (by simp [leavesOfFirst])⟩
  | cons tree rest ihtree ihrest =>
    -- the first of several trees is among the trees that are visited in both functions
    have hfirst : ∀ label ∈ tree.leaves filter, label ∈ preorders (tree :: rest) ∧
        label.kind.isLeaf = true := fun label h => by
      rw [preorders_cons]
      exact ⟨List.mem_append_left _ (ihtree label h).1, (ihtree label h).2⟩
    refine ⟨fun label h => ?_, fun label h => ?_⟩
    · rw [leavesOf] at h
      rcases List.mem_append.mp h with h | h
      · exact hfirst label h
      · rw [preorders_cons]
        exact ⟨List.mem_append_right _ (ihrest.1 label h).1, (ihrest.1 label h).2⟩
    · exact hfirst label (by rwa [leavesOfFirst] at h)

end Tree

end Query

/-! ## Pieces -/

/-- **A piece** of a fragment: the part that a predicate was compiled to. -/
structure Piece where
  leaf : Label
  part : Fragment
  /-- The predicate stands below a proximity. -/
  near : Bool := false
  /-- The predicate stands below a scope. -/
  inScope : Bool := false
  /-- The paths of the nested fragments that scopes around the predicate were compiled to. -/
  paths : List String := []

namespace Piece

/-- The primitive conditions of a piece, with all the paths around them. -/
def primitives (piece : Piece) : List (List String × Fragment) :=
  piece.part.primitives.map fun x => (piece.paths ++ x.1, x.2)

/-- A piece inside of a scope with a path, or without. -/
def inside (path : Option String) (piece : Piece) : Piece :=
  { piece with inScope := true, paths := path.toList ++ piece.paths }

theorem primitives_inside (path : Option String) (piece : Piece) :
    (piece.inside path).primitives = piece.primitives.map fun x => (path.toList ++ x.1, x.2) := by
  simp [primitives, inside, Function.comp_def]

end Piece

namespace Query.Tree

mutual

/-- **Pieces of a condition on word positions** that a child of a proximity was compiled to. -/
def spanPieces : Tree → Span → List Piece
  | .node label children, condition =>
    if label.kind.isProximity then spanPiecesOf children condition.clauses
    else if label.kind.isLeaf then [{ leaf := label, part := .span condition, near := true }]
    else []

/-- The pieces of the clauses for some queries. -/
def spanPiecesOf : List Tree → List Span → List Piece
  | tree :: rest, clause :: clauses => tree.spanPieces clause ++ spanPiecesOf rest clauses
  | _, _ => []

end

mutual

/-- **Pieces of a compiled query**, in the order of its predicates. Parent and child scopes are joins in
it or are left out, and a filter admits some of the query without looking. -/
def pieces (joins filter : Bool) : Tree → Fragment → List Piece
  | .node label children, F =>
    if filter && label.kind.isAdmitted then []
    else if label.kind.join?.isSome then
      piecesOfFirst joins filter children (if joins then F.content else F)
    else if label.kind.isLeaf then [{ leaf := label, part := F }]
    else if label.kind.isProximity then spanPiecesOf children F.spanClauses
    else if label.kind = .scope then
      (piecesOf joins filter children F.content.clauses).map (·.inside F.path?)
    else piecesOf joins filter children F.clauses

/-- The pieces of the clauses for some queries. -/
def piecesOf (joins filter : Bool) : List Tree → List Fragment → List Piece
  | tree :: rest, F :: fragments =>
    tree.pieces joins filter F ++ piecesOf joins filter rest fragments
  | _, _ => []

/-- The pieces of what the first query was compiled to. -/
def piecesOfFirst (joins filter : Bool) : List Tree → Fragment → List Piece
  | tree :: _, F => tree.pieces joins filter F
  | [], _ => []

end

section Pieces

variable {label : Label} {joins filter : Bool}

theorem spanPieces_near (h : label.kind.isProximity = true) (children : List Tree) (S : Span) :
    (node label children).spanPieces S = spanPiecesOf children S.clauses := by
  simp [spanPieces, h]

theorem spanPieces_leaf (h : label.kind.isLeaf = true) (children : List Tree) (S : Span) :
    (node label children).spanPieces S = [{ leaf := label, part := .span S, near := true }] := by
  simp [spanPieces, (Kind.of_isLeaf h).2.2.1, h]

theorem pieces_admitted (h : label.kind.isAdmitted = true) (children : List Tree) (F : Fragment) :
    (node label children).pieces joins true F = [] := by
  simp [pieces, h]

theorem pieces_leaf (h : label.kind.isLeaf = true) (children : List Tree) (F : Fragment) :
    (node label children).pieces joins filter F = [{ leaf := label, part := F }] := by
  obtain ⟨hadmitted, hjoin, -⟩ := Kind.of_isLeaf h
  simp [pieces, hadmitted, hjoin, h]

theorem pieces_joined {join : Fragment → Fragment} (h : label.kind.join? = some join)
    (hopen : filter = true → label.kind.isAdmitted = false) (children : List Tree) (F : Fragment) :
    (node label children).pieces joins filter F =
      piecesOfFirst joins filter children (if joins then F.content else F) := by
  cases filter with
  | false => simp [pieces, h]
  | true => simp [pieces, h, hopen rfl]

theorem pieces_proximity (h : label.kind.isProximity = true) (children : List Tree) (F : Fragment) :
    (node label children).pieces joins filter F = spanPiecesOf children F.spanClauses := by
  obtain ⟨hadmitted, hjoin, hleaf⟩ := Kind.of_isProximity h
  simp [pieces, hadmitted, hjoin, hleaf, h]

theorem pieces_scope (h : label.kind = .scope) (children : List Tree) (F : Fragment) :
    (node label children).pieces joins filter F =
      (piecesOf joins filter children F.content.clauses).map (·.inside F.path?) := by
  simp [pieces, h, Kind.isAdmitted, Kind.join?, Kind.isLeaf, Kind.isProximity]

theorem pieces_connective {wrap : List Fragment → Fragment}
    (h : label.kind.connective? = some wrap)
    (hopen : filter = true → label.kind.isAdmitted = false) (children : List Tree) (F : Fragment) :
    (node label children).pieces joins filter F = piecesOf joins filter children F.clauses := by
  obtain ⟨hjoin, hleaf, hnear, hscope⟩ := Kind.of_connective h
  cases filter with
  | false => simp [pieces, hjoin, hleaf, hnear, hscope]
  | true => simp [pieces, hjoin, hleaf, hnear, hscope, hopen rfl]

end Pieces

end Query.Tree

end LinkedSearch
