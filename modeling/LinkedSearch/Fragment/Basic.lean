import LinkedSearch.Json.Basic

/-!
# Query fragments

A fragment is a compiled query: a condition on the documents of a single index, without references
to other indexes. Spans are the conditions on word positions inside a text; a span may wrap a
fragment that stands for several words.

Most kinds of fragment carry a boost, which weights a match without changing what matches.

* `Fragment`, `Span`: the kinds.
* `Fragment.boosted`: the fragment with its boost multiplied.
* `Fragment.isBoostable`: whether the kind carries a boost at all.
-/

namespace LinkedSearch

open Number (Binary Format)

/-- An optional weight, a 32-bit binary number. -/
abbrev Boost := Option Binary

namespace Boost

/-- A boost multiplied by a factor; no boost counts as one. -/
def times (factor : Binary) (boost : Boost) : Boost :=
  some (Binary.mul .single (boost.getD .one) factor)

end Boost

/-- The bounds of a range; each side may be open or closed. -/
structure Bounds where
  above : Option Json := none
  atLeast : Option Json := none
  below : Option Json := none
  atMost : Option Json := none
  deriving DecidableEq, Inhabited

namespace Bounds

/-- The closed interval. -/
def between (lower upper : Json) : Bounds := { atLeast := some lower, atMost := some upper }

end Bounds

/-- What a similarity fragment compares, and how closely it looks. -/
structure Similarity where
  fields : List String
  text : String
  maxQueryTerms : Nat
  minWordLength : Nat
  minTermFrequency : Nat
  stopWords : List String
  deriving DecidableEq, Inhabited, Repr

mutual

/-- A condition on a document. -/
inductive Fragment where
  | matchAll (boost : Boost)
  /-- The field has the value. -/
  | term (field : String) (value : Json) (boost : Boost)
  /-- The field has at least `least` of the values. -/
  | terms (field : String) (values : List Json) (least : Option Nat) (boost : Boost)
  /-- The text occurs in the field. -/
  | phrase (field text : String) (boost : Boost)
  | range (field : String) (bounds : Bounds) (boost : Boost)
  | regexp (field pattern : String) (boost : Boost)
  | wildcard (field pattern : String) (boost : Boost)
  /-- A term of the field starts with the text. -/
  | leading (field text : String) (boost : Boost)
  /-- A term of the field is close to the text, of which the first `exact` characters are kept. -/
  | fuzzy (field text : String) (exact : Nat) (boost : Boost)
  /-- The field has no value. -/
  | missing (field : String)
  /-- The field has a value. -/
  | present (field : String)
  | similar (similarity : Similarity) (boost : Boost)
  | script (source : String)
  /-- All of `must`, none of `mustNot`, and at least `least` of `should`. -/
  | bool (must should mustNot : List Fragment) (least : Option Nat) (boost : Boost)
  /-- One of the objects under the path satisfies the query. -/
  | nested (path : String) (query : Fragment) (boost : Boost)
  | hasChild (typeName : String) (query : Fragment) (boost : Boost)
  | hasParent (typeName : String) (query : Fragment) (boost : Boost)
  | constantScore (filter : Fragment) (boost : Boost)
  | span (condition : Span)

/-- A condition on word positions. -/
inductive Span where
  | term (field text : String) (boost : Boost)
  /-- Any of the words that a fragment stands for. -/
  | multiTerm (query : Fragment)
  /-- The clauses follow each other with at most `slop` words between them. -/
  | near (clauses : List Span) (slop : Nat) (ordered : Bool) (boost : Boost)

end

instance : Inhabited Fragment := ⟨.matchAll none⟩
instance : Inhabited Span := ⟨.term "" "" none⟩

namespace Span

/-- The name of a span in rendered queries. -/
def kind : Span → String
  | term .. => "span_term"
  | multiTerm _ => "span_multi"
  | near .. => "span_near"

/-- Whether a span carries a boost. -/
def isBoostable : Span → Bool
  | multiTerm _ => false
  | _ => true

/-- The span with its boost multiplied; a span that carries none stays as it is. -/
def boosted (factor : Binary) : Span → Span
  | term field text boost => term field text (boost.times factor)
  | multiTerm query => multiTerm query
  | near clauses slop ordered boost => near clauses slop ordered (boost.times factor)

end Span

namespace Fragment

/-! ## Builders -/

/-- All of the fragments. -/
def all (fragments : List Fragment) : Fragment := bool fragments [] [] none none

/-- At least one of the fragments. -/
def any (fragments : List Fragment) : Fragment := bool [] fragments [] none none

/-- Not the fragment. -/
def not (fragment : Fragment) : Fragment := bool [] [] [fragment] none none

/-- The name of a fragment in rendered queries. -/
def kind : Fragment → String
  | matchAll _ => "match_all"
  | term .. => "term"
  | terms .. => "terms"
  | phrase .. => "match_phrase"
  | range .. => "range"
  | regexp .. => "regexp"
  | wildcard .. => "wildcard"
  | leading .. => "prefix"
  | fuzzy .. => "fuzzy"
  | missing _ => "missing"
  | present _ => "exists"
  | similar .. => "more_like_this"
  | script _ => "script"
  | bool .. => "bool"
  | nested .. => "nested"
  | hasChild .. => "has_child"
  | hasParent .. => "has_parent"
  | constantScore .. => "constant_score"
  | span condition => condition.kind

/-! ## Boosts -/

/-- Whether a fragment carries a boost. -/
def isBoostable : Fragment → Bool
  | missing _ | present _ | script _ => false
  | span condition => condition.isBoostable
  | _ => true

/-- **Boosting**: the fragment with its boost multiplied by a factor. A fragment that carries no
boost stays as it is. -/
def boosted (factor : Binary) : Fragment → Fragment
  | matchAll boost => matchAll (boost.times factor)
  | term field value boost => term field value (boost.times factor)
  | terms field values least boost => terms field values least (boost.times factor)
  | phrase field text boost => phrase field text (boost.times factor)
  | range field bounds boost => range field bounds (boost.times factor)
  | regexp field pattern boost => regexp field pattern (boost.times factor)
  | wildcard field pattern boost => wildcard field pattern (boost.times factor)
  | leading field text boost => leading field text (boost.times factor)
  | fuzzy field text exact boost => fuzzy field text exact (boost.times factor)
  | missing field => missing field
  | present field => present field
  | similar similarity boost => similar similarity (boost.times factor)
  | script source => script source
  | bool must should mustNot least boost => bool must should mustNot least (boost.times factor)
  | nested path query boost => nested path query (boost.times factor)
  | hasChild typeName query boost => hasChild typeName query (boost.times factor)
  | hasParent typeName query boost => hasParent typeName query (boost.times factor)
  | constantScore filter boost => constantScore filter (boost.times factor)
  | span condition => span (condition.boosted factor)

/-- The fragment multiplied by a boost, if there is one. -/
def weighted (boost : Boost) (fragment : Fragment) : Fragment :=
  match boost with
  | none => fragment
  | some factor => fragment.boosted factor

@[simp] theorem weighted_none (fragment : Fragment) : fragment.weighted none = fragment := rfl

/-- A boost does not change the kind. -/
@[simp] theorem kind_boosted (factor : Binary) (fragment : Fragment) :
    (fragment.boosted factor).kind = fragment.kind := by
  cases fragment with
  | span condition => cases condition <;> rfl
  | _ => rfl

/-- Only fragments that carry a boost are changed by one. -/
theorem boosted_of_not_isBoostable {fragment : Fragment} (plain : fragment.isBoostable = false)
    (factor : Binary) : fragment.boosted factor = fragment := by
  cases fragment with
  | span condition => cases condition <;> simp_all [isBoostable, Span.isBoostable, boosted, Span.boosted]
  | _ => simp_all [isBoostable, boosted]

/-- Whether a fragment is a conjunction without clauses. -/
def isEmptyBool : Fragment → Bool
  | bool must should mustNot _ _ => must.isEmpty && should.isEmpty && mustNot.isEmpty
  | _ => false

end Fragment

end LinkedSearch
