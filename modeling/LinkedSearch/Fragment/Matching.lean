import LinkedSearch.Document
import LinkedSearch.Fragment.Basic
import LinkedSearch.Text.Pattern.Expression
import LinkedSearch.Text.Wildcard
import LinkedSearch.Text.Words

/-!
# Meaning of fragments

Whether a document satisfies a fragment. A field satisfies a condition when one of its values does;
conditions on terms look at the whole value in lower case and at each run of letters and numbers in
it. Parent and child scopes are evaluated on the document itself. Conditions that depend on scores,
word positions or scripts are never satisfied.

* `Json.hasTerm`: whether a value is, or contains, a term.
* `Bounds.contains`: whether a value lies inside bounds.
* `Fragment.holds`: the meaning of a fragment.
-/

namespace LinkedSearch

/-- Whether a text occurs in another one. -/
def occursIn (needle : List Char) : List Char → Bool
  | [] => needle.isEmpty
  | c :: rest => needle.isPrefixOf (c :: rest) || occursIn needle rest

namespace Json

/-- Whether a value equals a term, or is a text that equals it or has it as a run, both up to
case. -/
def hasTerm (value term : Json) : Bool :=
  value.compare? term == some .eq ||
    match value, term with
    | .str text, .str term =>
      let term := Text.lower term.toList
      Text.lower text.toList == term || (Text.runs text.toList).any fun run => Text.lower run == term
    | _, _ => false

/-- Whether the text of a value in lower case, or one of the runs in it, satisfies a condition. -/
def anyTerm (condition : List Char → Bool) (value : Json) : Bool :=
  let text := Text.lower value.scalarText.toList
  condition text || (Text.runs text).any fun run => condition (Text.lower run)

end Json

namespace Bounds

/-- Whether a value is on the accepted side of a bound; without a bound it is. -/
def accepts (value : Json) (bound : Option Json) (accept : Ordering → Bool) : Bool :=
  match bound with
  | none => true
  | some bound => (value.compare? bound).any accept

/-- **Membership** of a value in bounds. -/
def contains (bounds : Bounds) (value : Json) : Bool :=
  accepts value bounds.above (·.isGT) && accepts value bounds.atLeast (·.isGE)
    && accepts value bounds.below (·.isLT) && accepts value bounds.atMost (·.isLE)

end Bounds

namespace Fragment

/-- How many of the optional clauses of a conjunction have to hold. -/
def leastClauses (hasMust : Bool) (least : Option Nat) : Nat :=
  least.getD (if hasMust then 0 else 1)

/-- The documents in which a nested query is evaluated: one for every object under the path, put
in place of the list of them. -/
def nestedDocuments (path : String) (document : Json) : List Json :=
  match document with
  | .obj members =>
    match Keyed.find? path members with
    | some (.arr items) => items.map fun item => .obj (Keyed.insert path item members)
    | _ => [document]
  | _ => [document]

mutual

/-- **Meaning** of a fragment: whether a document satisfies it. -/
def holds (document : Json) : Fragment → Bool
  | .matchAll _ => true
  | .term field value _ => (Document.values document field).any (·.hasTerm value)
  | .terms field values least _ =>
    let found := values.countP fun term => (Document.values document field).any (·.hasTerm term)
    -- none is too few, also where the least number is zero
    0 < found && least.getD 1 ≤ found
  | .phrase field text _ =>
    let needle := Text.lower text.toList
    (Document.values document field).any fun value =>
      occursIn needle (Text.lower value.scalarText.toList)
  | .range field bounds _ => (Document.values document field).any bounds.contains
  | .regexp field pattern _ =>
    match Text.Expression.whole? pattern with
    | some expression => (Document.values document field).any (·.anyTerm expression.isMatch)
    | none => false
  | .wildcard field pattern _ =>
    let expression := Text.wildcard pattern
    (Document.values document field).any (·.anyTerm expression.isMatch)
  | .leading field text _ =>
    let start := Text.lower text.toList
    (Document.values document field).any (·.anyTerm fun term => start.isPrefixOf term)
  | .missing field => (Document.values document field).isEmpty
  | .present field => !(Document.values document field).isEmpty
  | .bool must should mustNot least _ =>
    holdsAll document must && !holdsAny document mustNot
      && (should.isEmpty || leastClauses (!must.isEmpty) least ≤ holdsCount document should)
  | .nested path query _ => (nestedDocuments path document).any fun view => holds view query
  | .hasChild _ query _ | .hasParent _ query _ => holds document query
  | .constantScore filter _ => holds document filter
  | .fuzzy .. | .similar .. | .script _ | .span _ => false

/-- Whether all of some fragments hold. -/
def holdsAll (document : Json) : List Fragment → Bool
  | [] => true
  | fragment :: rest => holds document fragment && holdsAll document rest

/-- Whether any of some fragments holds. -/
def holdsAny (document : Json) : List Fragment → Bool
  | [] => false
  | fragment :: rest => holds document fragment || holdsAny document rest

/-- How many of some fragments hold. -/
def holdsCount (document : Json) : List Fragment → Nat
  | [] => 0
  | fragment :: rest => (if holds document fragment then 1 else 0) + holdsCount document rest

end

@[simp] theorem holdsAll_eq_all (document : Json) (fragments : List Fragment) :
    holdsAll document fragments = fragments.all (holds document) := by
  induction fragments with
  | nil => simp [holdsAll]
  | cons fragment rest ih => simp [holdsAll, ih]

@[simp] theorem holdsAny_eq_any (document : Json) (fragments : List Fragment) :
    holdsAny document fragments = fragments.any (holds document) := by
  induction fragments with
  | nil => simp [holdsAny]
  | cons fragment rest ih => simp [holdsAny, ih]

@[simp] theorem holdsCount_eq_countP (document : Json) (fragments : List Fragment) :
    holdsCount document fragments = fragments.countP (holds document) := by
  induction fragments with
  | nil => simp [holdsCount]
  | cons fragment rest ih =>
    rw [holdsCount, ih, List.countP_cons, Nat.add_comm]

end Fragment

end LinkedSearch
