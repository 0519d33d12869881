import LinkedSearch.Query.Label
import LinkedSearch.Text.Escape

/-!
# Query trees

A query tree is a rose tree of labels. This is the form in which a query is exchanged and in which
its meaning is read; `Query.Arena` holds the same tree with addressable nodes.

* `Tree.preorder`: the labels in document order.
* `Tree.word`, `Tree.phrase`, …: one builder per kind of node.
-/

namespace LinkedSearch.Query

open Number (Binary)

/-- A tree of labelled nodes. -/
inductive Tree where
  | node (label : Label) (children : List Tree)
  deriving Inhabited

namespace Tree

/-- The label of the root. -/
def label : Tree → Label
  | node label _ => label

/-- The subtrees below the root. -/
def children : Tree → List Tree
  | node _ children => children

@[simp] theorem label_node (l : Label) (children : List Tree) : (node l children).label = l := rfl
@[simp] theorem children_node (l : Label) (children : List Tree) :
    (node l children).children = children := rfl

mutual

/-- The number of nodes. -/
def size : Tree → Nat
  | node _ children => sizes children + 1

/-- The number of nodes of a forest. -/
def sizes : List Tree → Nat
  | [] => 0
  | tree :: rest => tree.size + sizes rest

end

@[simp] theorem size_node (l : Label) (children : List Tree) :
    (node l children).size = sizes children + 1 := by simp [size]

@[simp] theorem sizes_nil : sizes [] = 0 := by simp [sizes]

@[simp] theorem sizes_cons (tree : Tree) (rest : List Tree) :
    sizes (tree :: rest) = tree.size + sizes rest := by simp [sizes]

mutual

/-- **Document order**: every node before its children, children from left to right. -/
def preorder : Tree → List Label
  | node label children => label :: preorders children

/-- The labels of a forest in document order. -/
def preorders : List Tree → List Label
  | [] => []
  | tree :: rest => tree.preorder ++ preorders rest

end

@[simp] theorem preorder_node (l : Label) (children : List Tree) :
    (node l children).preorder = l :: preorders children := by simp [preorder]

@[simp] theorem preorders_nil : preorders [] = [] := by simp [preorders]

@[simp] theorem preorders_cons (tree : Tree) (rest : List Tree) :
    preorders (tree :: rest) = tree.preorder ++ preorders rest := by simp [preorders]

/-! ## Builders -/

/-- A node without children. -/
def leaf (field : String) (kind : Kind) : Tree := node { kind, field := some field } []

/-- A node without a field. -/
def branch (kind : Kind) (children : List Tree) : Tree := node { kind } children

def word (field : String) (value : Json) : Tree := leaf field (.word value)

/-- A phrase without escapes. -/
def phrase (field text : String) : Tree := leaf field (.phrase text none 0 true)

/-- A phrase in escaped form; its plain text drops the backslashes. -/
def escapedPhrase (field escaped : String) : Tree :=
  leaf field (.phrase (Text.unescapeText escaped) (some escaped) 0 true)

/-- A phrase whose words may be up to `distance` positions apart. -/
def proximityPhrase (field text : String) (distance : Nat) (ordered : Bool) : Tree :=
  leaf field (.phrase text none distance ordered)

def number (field : String) (value : Json) : Tree := leaf field (.number value)

def boolean (field : String) (value : Bool) : Tree := leaf field (.boolean value)

def range (field : String) (lower upper : Json) : Tree := leaf field (.range lower upper)

def wildcard (field pattern : String) : Tree := leaf field (.wildcard pattern)

def fuzzy (field text : String) (fuzziness : Nat) : Tree := leaf field (.fuzzy text fuzziness)

def leading (field text : String) : Tree := leaf field (.leading text)

def null (field : String) : Tree := leaf field .null

def notNull (field : String) : Tree := leaf field .notNull

/-- Values written in the query; a conjunctive array requires every one of them. -/
def array (field : String) (values : List Json) (conjunctive : Bool) : Tree :=
  leaf field (.array (.literal values) conjunctive)

def arrayData (field key : String) : Tree := leaf field (.arrayData key)

def script (source : String) : Tree := branch (.script source) []

def conjunction (children : List Tree) : Tree := branch .conjunction children

def disjunction (children : List Tree) : Tree := branch .disjunction children

def negation (child : Tree) : Tree := branch .negation [child]

def scope (children : List Tree) : Tree := branch .scope children

def child (typeName : String) (children : List Tree) : Tree := branch (.child typeName) children

def parent (typeName : String) (children : List Tree) : Tree := branch (.parent typeName) children

def proximity (field : String) (distance : Nat) (ordered : Bool) (children : List Tree) : Tree :=
  node { kind := .proximity distance ordered, field := some field } children

/-- A query on the index of a link written by the user. -/
def expansion (link : Link) (query : Tree) : Tree := branch (.expansion link false) [query]

/-- A query on the index of a synthesized link. -/
def generatedExpansion (link : Link) (query : Tree) : Tree :=
  branch (.expansion link true) [query]

/-- The tree with another label on its root. -/
def mapLabel (f : Label → Label) : Tree → Tree
  | node label children => node (f label) children

def withField (field : String) (tree : Tree) : Tree :=
  tree.mapLabel fun label => { label with field := some field }

def withOperator (operator : Operator) (tree : Tree) : Tree :=
  tree.mapLabel fun label => { label with operator }

def withBoost (boost : Binary) (tree : Tree) : Tree :=
  tree.mapLabel fun label => { label with boost := some boost }

def withNestedPath (path : String) (tree : Tree) : Tree :=
  tree.mapLabel fun label => { label with nestedPath := some path }

end Tree

end LinkedSearch.Query
