import Mathlib.Data.List.Forall2
import LinkedSearch.Compile.Leaf
import LinkedSearch.Proofs.Collecting

/-! # The meaning of a query

What a query means is said here without a compiler, by recursion on its tree. A conjunction asks for
all of its subtrees, a disjunction for any and a negation for none of them. An expansion is a
semi-join: it holds of a document that is joined with a document of the linked index of which the
query of the expansion holds.

* `Semantics`: which documents satisfy a predicate, and the documents of each index.
* `Semantics.holds`: the meaning of a tree.
* `Tree.IsJoinQuery`: the queries that are covered, those without scopes and proximities.
* `holds_weighted`, `holds_all`, `holds_any`, `holds_none`: the fragments that say the same. -/

namespace LinkedSearch

open Query (Kind Label Tree)

/-! ## Fragments -/

namespace Fragment

/-- A boost changes no meaning. -/
@[simp] theorem holds_weighted (fragment : Fragment) (boost : Boost) (document : Json) :
    (fragment.weighted boost).holds document = fragment.holds document := by
  cases boost with
  | none => rfl
  | some factor => cases fragment <;> simp [weighted, boosted, holds]

/-- Conjunctions of fragments. -/
theorem holds_all (fragments : List Fragment) (document : Json) :
    (all fragments).holds document = fragments.all (·.holds document) := by
  simp [all, holds]

/-- Disjunctions of fragments, which need a clause: without one everything satisfies them. -/
theorem holds_any {fragments : List Fragment} (h : fragments ≠ []) (document : Json) :
    (any fragments).holds document = fragments.any (·.holds document) := by
  have hempty : fragments.isEmpty = false := by simpa using h
  rw [Bool.eq_iff_iff]
  simp [any, holds, leastClauses, hempty, List.one_le_countP_iff]

/-- Negations of fragments. -/
theorem holds_none (fragments : List Fragment) (document : Json) :
    (bool [] [] fragments none none).holds document = !fragments.any (·.holds document) := by
  simp [holds]

end Fragment

/-! ## Trees -/

/-- **Joined** documents: a value of the left field of one matches a value of the right field of the
other. -/
def Link.joins (link : Link) (document other : Json) : Bool :=
  (Document.values other link.rightField).any fun value =>
    (Document.values document link.leftField).any (·.hasTerm value)

/-- What the meaning of a query is made from. -/
structure Semantics where
  /-- Whether a document satisfies a predicate. -/
  predicate : Label → Json → Bool
  /-- The documents of an index. -/
  documents : String → List Json

namespace Semantics

variable (meaning : Semantics)

mutual

/-- **Meaning** of a query: whether it holds of a document. -/
def holds : Tree → Json → Bool
  | .node label children, document =>
    match label.kind with
    | .conjunction => holdsAll children document
    | .disjunction => holdsAny children document
    | .negation => !holdsAny children document
    | .expansion link _ => holdsJoined link children document
    | _ => meaning.predicate label document

/-- All of some queries hold. -/
def holdsAll : List Tree → Json → Bool
  | [], _ => true
  | tree :: rest, document => holds tree document && holdsAll rest document

/-- Any of some queries holds. -/
def holdsAny : List Tree → Json → Bool
  | [], _ => false
  | tree :: rest, document => holds tree document || holdsAny rest document

/-- **Semi-join**: the query of an expansion holds of a joined document of the linked index. -/
def holdsJoined (link : Link) : List Tree → Json → Bool
  | [], _ => false
  | query :: _, document =>
    (meaning.documents link.index).any fun other =>
      holds query other && link.joins document other

end

theorem holdsAll_eq_all (trees : List Tree) (document : Json) :
    meaning.holdsAll trees document = trees.all (meaning.holds · document) := by
  induction trees with
  | nil => simp [holdsAll]
  | cons tree rest ih => simp [holdsAll, ih]

theorem holdsAny_eq_any (trees : List Tree) (document : Json) :
    meaning.holdsAny trees document = trees.any (meaning.holds · document) := by
  induction trees with
  | nil => simp [holdsAny]
  | cons tree rest ih => simp [holdsAny, ih]

/-- **Same meaning** of two queries. -/
def Same (tree tree' : Tree) : Prop :=
  ∀ document, meaning.holds tree' document = meaning.holds tree document

variable {meaning}

theorem Same.trans {tree tree' tree'' : Tree} (h : meaning.Same tree tree')
    (h' : meaning.Same tree' tree'') : meaning.Same tree tree'' :=
  fun document => (h' document).trans (h document)

theorem all_congr {trees trees' : List Tree} (h : List.Forall₂ meaning.Same trees trees')
    (document : Json) : meaning.holdsAll trees' document = meaning.holdsAll trees document := by
  induction h with
  | nil => rfl
  | cons hhead _ ih => rw [holdsAll, holdsAll, hhead document, ih]

theorem any_congr {trees trees' : List Tree} (h : List.Forall₂ meaning.Same trees trees')
    (document : Json) : meaning.holdsAny trees' document = meaning.holdsAny trees document := by
  induction h with
  | nil => rfl
  | cons hhead _ ih => rw [holdsAny, holdsAny, hhead document, ih]

/-- **Congruence**: the meaning of a connective or an expansion depends on the meaning of its
subtrees. -/
theorem same_node {label : Label} {trees trees' : List Tree}
    (h : List.Forall₂ meaning.Same trees trees') :
    meaning.Same (.node label trees) (.node label trees') := by
  intro document
  rw [holds, holds]
  split
  · exact all_congr h document
  · exact any_congr h document
  · rw [any_congr h document]
  · cases h with
    | nil => rfl
    | cons hhead _ =>
      rw [holdsJoined, holdsJoined]
      simp only [hhead _]
  · rfl

/-- **Rendering** of a query by a fragment that holds of the same documents. -/
def Renders (meaning : Semantics) (fragment : Fragment) (tree : Tree) : Prop :=
  ∀ document, fragment.holds document = meaning.holds tree document

theorem all_of_renders {fragments : List Fragment} {trees : List Tree}
    (h : List.Forall₂ meaning.Renders fragments trees) (document : Json) :
    fragments.all (·.holds document) = meaning.holdsAll trees document := by
  induction h with
  | nil => rfl
  | cons hhead _ ih => rw [List.all_cons, holdsAll, hhead document, ih]

theorem any_of_renders {fragments : List Fragment} {trees : List Tree}
    (h : List.Forall₂ meaning.Renders fragments trees) (document : Json) :
    fragments.any (·.holds document) = meaning.holdsAny trees document := by
  induction h with
  | nil => rfl
  | cons hhead _ ih => rw [List.any_cons, holdsAny, hhead document, ih]

/-- The meaning of a predicate. -/
theorem holds_leaf {label : Label} (h : label.kind.isLeaf = true) (children : List Tree)
    (document : Json) :
    meaning.holds (.node label children) document = meaning.predicate label document := by
  rw [holds]
  split
  all_goals first
    | rfl
    | next hkind => rw [hkind] at h; exact absurd h (by simp [Kind.isLeaf])

/-- An expansion without a match in the linked index holds of nothing. -/
theorem holds_expansion_eq_false {label : Label} {link : Link} {generated : Bool} {query : Tree}
    (hkind : label.kind = .expansion link generated)
    (h : ∀ other ∈ meaning.documents link.index, meaning.holds query other = false)
    (document : Json) : meaning.holds (.node label [query]) document = false := by
  rw [holds, hkind]
  simp only [holdsJoined, List.any_eq_false, Bool.and_eq_true, not_and, Bool.not_eq_true]
  intro other hother htrue
  rw [h other hother] at htrue
  exact absurd htrue (by simp)

end Semantics

/-! ## Join queries -/

namespace Query.Tree

mutual

/-- **Join queries**: trees of predicates, conjunctions, disjunctions that are not empty, negations
and expansions over links of some sort, none of which asks for any value of a field only. -/
def IsJoinQuery (sort : Link → Prop) : Tree → Prop
  | .node label children =>
    match label.kind with
    | .conjunction | .negation => AreJoinQueries sort children
    | .disjunction => children ≠ [] ∧ AreJoinQueries sort children
    | .expansion link generated =>
      generated = false ∧ sort link ∧
        (∃ query, children = [query] ∧ query.label.kind ≠ .notNull) ∧
        AreJoinQueries sort children
    | kind => kind.isLeaf = true ∧ children = []

/-- Some join queries. -/
def AreJoinQueries (sort : Link → Prop) : List Tree → Prop
  | [] => True
  | tree :: rest => IsJoinQuery sort tree ∧ AreJoinQueries sort rest

end

variable {sort : Link → Prop}

theorem areJoinQueries_iff {trees : List Tree} :
    AreJoinQueries sort trees ↔ ∀ tree ∈ trees, tree.IsJoinQuery sort := by
  induction trees with
  | nil => simp [AreJoinQueries]
  | cons tree rest ih => simp [AreJoinQueries, ih]

/-- A predicate is a join query. -/
theorem isJoinQuery_leaf {label : Label} (h : label.kind.isLeaf = true) :
    (node label []).IsJoinQuery sort := by
  rw [IsJoinQuery]
  split
  case h_1 hkind => rw [hkind] at h; exact absurd h (by simp [Kind.isLeaf])
  case h_2 hkind => rw [hkind] at h; exact absurd h (by simp [Kind.isLeaf])
  case h_3 hkind => rw [hkind] at h; exact absurd h (by simp [Kind.isLeaf])
  case h_4 hkind => rw [hkind] at h; exact absurd h (by simp [Kind.isLeaf])
  case h_5 => exact ⟨h, rfl⟩

/-- The subtrees of a join query are join queries. -/
theorem IsJoinQuery.children {label : Label} {trees : List Tree}
    (h : (node label trees).IsJoinQuery sort) : AreJoinQueries sort trees := by
  rw [IsJoinQuery] at h
  split at h
  · exact h
  · exact h
  · exact h.2
  · exact h.2.2.2
  · rw [h.2]
    trivial

/-- Join queries have no scopes and no proximities. -/
theorem IsJoinQuery.scopeless {label : Label} {trees : List Tree}
    (h : (node label trees).IsJoinQuery sort) :
    label.kind ≠ .scope ∧ (∀ typeName, label.kind ≠ .child typeName) ∧
      (∀ typeName, label.kind ≠ .parent typeName) ∧
      ∀ distance ordered, label.kind ≠ .proximity distance ordered := by
  rw [IsJoinQuery] at h
  cases hkind : label.kind <;> simp_all [Kind.isLeaf]

/-- A disjunction that is a join query has a subtree. -/
theorem IsJoinQuery.disjuncts {label : Label} {trees : List Tree}
    (h : (node label trees).IsJoinQuery sort) (hkind : label.kind = .disjunction) : trees ≠ [] := by
  rw [IsJoinQuery, hkind] at h
  exact h.1

mutual

/-- There is no parent scope in a join query. -/
theorem IsJoinQuery.parentless : ∀ {tree : Tree}, tree.IsJoinQuery sort →
    ∀ label ∈ tree.preorder, label.kind.isParent = false
  | node label trees, h, l, hl => by
    rw [preorder_node] at hl
    rcases List.mem_cons.mp hl with rfl | hl
    · cases hkind : l.kind with
      | parent typeName => exact absurd hkind (h.scopeless.2.2.1 typeName)
      | _ => rfl
    · exact AreJoinQueries.parentless h.children l hl

/-- There is no parent scope in join queries. -/
theorem AreJoinQueries.parentless : ∀ {trees : List Tree}, AreJoinQueries sort trees →
    ∀ label ∈ preorders trees, label.kind.isParent = false
  | [], _, l, hl => by
    rw [preorders_nil] at hl
    exact absurd hl (by simp)
  | _ :: _, h, l, hl => by
    rw [preorders_cons] at hl
    rcases List.mem_append.mp hl with hl | hl
    · exact h.1.parentless l hl
    · exact AreJoinQueries.parentless h.2 l hl

end

/-- A join query that is no expansion may get other join queries for subtrees. -/
theorem IsJoinQuery.withChildren {label : Label} {trees trees' : List Tree}
    (h : (node label trees).IsJoinQuery sort) (hnot : label.kind.isExpansion = false)
    (hlength : trees.length = trees'.length) (h' : AreJoinQueries sort trees') :
    (node label trees').IsJoinQuery sort := by
  rw [IsJoinQuery] at h ⊢
  split at h
  · exact h'
  · exact h'
  · refine ⟨?_, h'⟩
    rintro rfl
    exact h.1 (List.length_eq_zero_iff.mp hlength)
  · next hkind => rw [hkind] at hnot; exact absurd hnot (by simp [Kind.isExpansion])
  · refine ⟨h.1, ?_⟩
    rw [h.2] at hlength
    exact List.length_eq_zero_iff.mp hlength.symm

/-- A join query that is an expansion has one subtree, which is a join query. -/
theorem IsJoinQuery.expansion {label : Label} {children : List Tree} {link : Link}
    {generated : Bool} (h : (node label children).IsJoinQuery sort)
    (hkind : label.kind = .expansion link generated) :
    generated = false ∧ sort link ∧
      ∃ query, children = [query] ∧ query.label.kind ≠ .notNull ∧ query.IsJoinQuery sort := by
  rw [IsJoinQuery, hkind] at h
  obtain ⟨hgenerated, hsort, ⟨query, rfl, hnotNull⟩, hchildren⟩ := h
  exact ⟨hgenerated, hsort, query, rfl, hnotNull, areJoinQueries_iff.mp hchildren query (by simp)⟩

end Query.Tree

end LinkedSearch
