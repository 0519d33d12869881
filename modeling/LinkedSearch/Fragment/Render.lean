import LinkedSearch.Fragment.Basic

/-!
# Rendered fragments

A fragment is sent as a JSON object whose only member is its kind. Conditions on a field have the
field as the member inside it; a condition that is a single value is written without an object
around it until a boost has to stand beside it.

* `Fragment.toJson`, `Span.toJson`: the rendered forms.
-/

namespace LinkedSearch

open Number (Binary)

/-- A boost as a member. -/
def Boost.toJson (boost : Boost) : Option Json := boost.map Json.ofBinary

/-- A condition on one field: the value alone, or the value under a key beside the boost. -/
def fieldCondition (kind field key : String) (value : Json) (boost : Boost) : Json :=
  .single kind (.single field
    (match boost.toJson with
      | none => value
      | some weight => .ofMembers [(key, value), ("boost", weight)]))

/-- The bounds of a range, those that are given, beside the boost. -/
def Bounds.toJson (bounds : Bounds) (boost : Boost) : Json :=
  .ofPresent [("gt", bounds.above), ("gte", bounds.atLeast), ("lt", bounds.below),
    ("lte", bounds.atMost), ("boost", boost.toJson)]

/-- A list of clauses, left out when there is none. -/
def clauseList (clauses : List Json) : Option Json :=
  if clauses.isEmpty then none else some (.arr clauses)

mutual

/-- **Rendered form** of a fragment. -/
def Fragment.toJson : Fragment → Json
  | .matchAll boost => .single "match_all" (.ofPresent [("boost", boost.toJson)])
  | .term field value boost => fieldCondition "term" field "value" value boost
  | .terms field values least boost =>
    .single "terms" (.ofPresent [(field, some (.arr values)),
      ("minimum_should_match", least.map fun least => .str (toString least)),
      ("boost", boost.toJson)])
  | .phrase field text boost => fieldCondition "match_phrase" field "query" (.str text) boost
  | .range field bounds boost => .single "range" (.single field (bounds.toJson boost))
  | .regexp field pattern boost => fieldCondition "regexp" field "value" (.str pattern) boost
  | .wildcard field pattern boost => fieldCondition "wildcard" field "value" (.str pattern) boost
  | .leading field text boost => fieldCondition "prefix" field "value" (.str text) boost
  | .fuzzy field text exact boost =>
    .single "fuzzy" (.single field (.ofPresent [("value", some (.str text)),
      ("prefix_length", some (.ofNat exact)), ("boost", boost.toJson)]))
  | .missing field => .single "missing" (.single "field" (.str field))
  | .present field => .single "exists" (.single "field" (.str field))
  | .similar similarity boost =>
    .single "more_like_this" (.ofPresent [("fields", some (.ofStrings similarity.fields)),
      ("like_text", some (.str similarity.text)),
      ("max_query_terms", some (.ofNat similarity.maxQueryTerms)),
      ("min_word_length", some (.ofNat similarity.minWordLength)),
      ("min_term_freq", some (.ofNat similarity.minTermFrequency)),
      ("stop_words", some (.ofStrings similarity.stopWords)), ("boost", boost.toJson)])
  | .script source => .single "script" (.single "script" (.str source))
  | .bool must should mustNot least boost =>
    .single "bool" (.ofPresent [("must", clauseList (Fragment.listToJson must)),
      ("should", clauseList (Fragment.listToJson should)),
      ("must_not", clauseList (Fragment.listToJson mustNot)),
      ("minimum_should_match", least.map Json.ofNat), ("boost", boost.toJson)])
  | .nested path query boost =>
    .single "nested" (.ofPresent [("path", some (.str path)), ("query", some query.toJson),
      ("boost", boost.toJson)])
  | .hasChild typeName query boost =>
    .single "has_child" (.ofPresent [("type", some (.str typeName)), ("query", some query.toJson),
      ("boost", boost.toJson)])
  | .hasParent typeName query boost =>
    .single "has_parent" (.ofPresent [("parent_type", some (.str typeName)),
      ("query", some query.toJson), ("boost", boost.toJson)])
  | .constantScore filter boost =>
    .single "constant_score" (.ofPresent [("filter", some filter.toJson), ("boost", boost.toJson)])
  | .span condition => condition.toJson

/-- The rendered clauses of a conjunction, in order. -/
def Fragment.listToJson : List Fragment → List Json
  | [] => []
  | fragment :: rest => fragment.toJson :: Fragment.listToJson rest

/-- **Rendered form** of a span. -/
def Span.toJson : Span → Json
  | .term field text boost => fieldCondition "span_term" field "value" (.str text) boost
  | .multiTerm query => .single "span_multi" (.single "match" query.toJson)
  | .near clauses slop ordered boost =>
    .single "span_near" (.ofPresent [("clauses", some (.arr (Span.listToJson clauses))),
      ("slop", some (.ofNat slop)), ("in_order", some (.bool ordered)), ("boost", boost.toJson)])

/-- The rendered clauses of a span, in order. -/
def Span.listToJson : List Span → List Json
  | [] => []
  | span :: rest => span.toJson :: Span.listToJson rest

end

@[simp] theorem Fragment.listToJson_eq_map (fragments : List Fragment) :
    Fragment.listToJson fragments = fragments.map Fragment.toJson := by
  induction fragments with
  | nil => simp [Fragment.listToJson]
  | cons fragment rest ih => simp [Fragment.listToJson, ih]

@[simp] theorem Span.listToJson_eq_map (spans : List Span) :
    Span.listToJson spans = spans.map Span.toJson := by
  induction spans with
  | nil => simp [Span.listToJson]
  | cons span rest ih => simp [Span.listToJson, ih]

end LinkedSearch
