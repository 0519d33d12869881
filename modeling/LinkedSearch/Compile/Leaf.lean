import LinkedSearch.Compile.Basic
import LinkedSearch.Query.ArrayData
import LinkedSearch.Query.PhraseToken
import LinkedSearch.Text.Character

/-!
# Compiling predicates

A predicate becomes a condition on its field. Its operator decides which one: the condition that
belongs to its kind, the negation of that, a bound, a regular expression, or a similarity. A
predicate on a field of a nested object is then put into the scope of that object, unless an
enclosing scope has done so already.

Phrases are analyzed first. A phrase with a wildcard, or with a distance between its words, becomes
a condition on word positions; any other phrase becomes a term or a run of text.

* `standard`: the condition for an operator.
* `nest`: a condition in its nested scope.
* `plainLeaf`, `phrase`: the compiled predicates that are no phrases, and those that are.
* `spanOfLeaf?`: the condition on word positions for a predicate below a proximity.
-/

namespace LinkedSearch.Compile

open Query (Kind Label NodeId Operator)

/-! ## Conditions on a field -/

/-- Most kinds only know equality. -/
def validateOperator (label : Label) : Compile Unit :=
  match label.operator with
  | .equal | .notEqual | .contains => return ()
  | operator => throw (.unsupportedOperator operator label.kind.name)

variable (env : Environment)

/-- The nested path of a predicate: its own, or the one its field lives in. -/
def nestedPathOf (label : Label) : Compile (Option String) := do
  match label.nestedPath, label.field with
  | some path, _ => return some path
  | none, none => return none
  | none, some field => return (← mappingOf env field).nestedPath? field

/-- **Nesting**: a condition in the scope of the nested object it is about. Inside a scope the path
of the scope must be the same. The filter of an aggregate only says something about nested
objects. -/
def nest (label : Label) (fragment : Fragment) : Compile Fragment := do
  match ← nestedPathOf env label with
  | none => return if (← get).aggregating then .matchAll none else fragment
  | some path =>
    let progress ← get
    if progress.scopeDepth = 0 then return .nested path fragment none
    else
      match progress.scopePath with
      | some active =>
        if active = path then return fragment else throw (.nestedPathConflict path active)
      -- nothing below the scope had a path when it was entered
      | none => return fragment

/-- How often a term has to occur to count for similarity. -/
def minTermFrequency (analyzer : Option String) : Nat :=
  match analyzer with
  | some name => if name.map Char.toLower = Schema.FieldType.fulltextAnalyzer then 2 else 1
  | none => 1

/-- The similarity of a field to the text of a predicate. -/
def similarity (label : Label) : Compile Fragment := do
  let field := label.fieldName
  let mapping ← mappingOf env field
  let settings := env.settings.concept
  return .similar {
    fields := [field], text := label.text
    maxQueryTerms := settings.maxQueryTerms, minWordLength := settings.minWordLength
    minTermFrequency := minTermFrequency (mapping.analyzer? field)
    stopWords := settings.stopWords } none

/-- **Condition for an operator**, where `base` is the condition for equality. -/
def standard (label : Label) (base : Fragment) : Compile Fragment := do
  let field := label.fieldName
  let fragment ← match label.operator with
    | .equal | .contains => pure base
    | .notEqual => pure base.not
    | .less => pure (.range field { below := some label.value } none)
    | .greater => pure (.range field { above := some label.value } none)
    | .atMost => pure (.range field { atMost := some label.value } none)
    | .atLeast => pure (.range field { atLeast := some label.value } none)
    | .regex => pure (.regexp field label.sourceText none)
    | .concept => similarity env label
    | .fuzzyConcept => throw (.unsupportedOperator .fuzzyConcept label.kind.name)
  nest env label fragment

/-- How many characters a fuzzy term keeps, from its fuzziness. -/
def exactLength (fuzziness : Nat) : Nat := if fuzziness = 0 then 3 else fuzziness

/-- How many values of an array have to match: all of them if the array is conjunctive, or, when it
is negated, if it is not. -/
def requiredValues (values : Query.Values) (conjunctive : Bool) (operator : Operator) :
    Option Nat :=
  if conjunctive != (operator == .notEqual) then some values.count else none

/-- The block of values with a key. -/
def arrayData (key : String) : Compile (List String) := do
  match Keyed.find? key (← get).draft.arrayData with
  | some block => return Query.ArrayData.values block
  | none => throw (.missingArrayData key)

/-- The compiled predicate, if it is no phrase. -/
def plainLeaf (label : Label) : Compile Fragment := do
  let field := label.fieldName
  match label.kind with
  -- only these two are compared with any operator
  | .word value | .number value => standard env label (.term field value none)
  | .boolean value =>
    validateOperator label
    standard env label (.term field (.bool value) none)
  | .range lower upper =>
    validateOperator label
    standard env label (.range field (.between lower upper) none)
  | .wildcard pattern =>
    validateOperator label
    standard env label (.wildcard field pattern none)
  | .fuzzy text fuzziness =>
    validateOperator label
    standard env label (.fuzzy field text (exactLength fuzziness) none)
  | .leading text =>
    validateOperator label
    standard env label (.leading field text none)
  | .null =>
    validateOperator label
    standard env label (.missing field)
  | .notNull =>
    -- every document has its primary key
    if (← mappingOf env field).primaryKey.map Char.toLower = field.map Char.toLower then
      return .matchAll none
    else
      validateOperator label
      standard env label (.present field)
  | .array values conjunctive =>
    validateOperator label
    standard env label
      (.terms field values.list (requiredValues values conjunctive label.operator) none)
  | .arrayData key =>
    validateOperator label
    let values ← arrayData key
    -- no number of values is required of a block: one that is found will do
    standard env label (.terms field (values.map .str) none none)
  -- a script is about no field, so no operator applies to it and it is not nested
  | .script source => return .script (Text.trim source)
  | kind => throw (.unexpectedNode kind.name)

/-! ## Word positions -/

/-- The condition on word positions for a predicate below a proximity on `field`, for those kinds
that stand for single words. -/
def spanOfLeaf? (outer : Operator) (field : String) (label : Label) : Option Span :=
  match label.kind with
  | .word _ =>
    -- a regular expression is about the field of the predicate, and not about that of the proximity
    if outer = .regex then some (.multiTerm (.regexp label.fieldName label.sourceText none))
    else some (.term field label.text none)
  | .number _ | .boolean _ | .null => some (.term field label.text none)
  | .fuzzy text fuzziness => some (.multiTerm (.fuzzy field text (exactLength fuzziness) none))
  | .leading text => some (.multiTerm (.leading field text none))
  | .wildcard pattern => some (.multiTerm (.wildcard field pattern none))
  | .notNull => some (.multiTerm (.wildcard field "*" none))
  | _ => none

/-- The condition on word positions for a predicate that stands for single words. -/
def spanOfLeaf (outer : Operator) (field : String) (label : Label) : Compile Span :=
  match spanOfLeaf? outer field label with
  | some span => return span
  | none => throw (.notASpan label.kind.name)

/-! ## Phrases -/

/-- **Tokens of a phrase** as its field would index them, with wildcards and escapes kept. -/
def phraseTokens (label : Label) : Compile (List (List Char)) := do
  let field := label.fieldName
  let mapping ← mappingOf env field
  let marked := String.ofList (Query.Phrase.mark label.sourceText.toList)
  let tokens ← ofExcept (env.analyzer field (mapping.type? field) marked)
  -- a backslash alone is an escape of which the character was lost
  return (tokens.map fun token => Query.Phrase.unmark token.toList).filter (· ≠ ['\\'])

/-- The distance of a phrase, and whether its words are ordered. -/
def phraseDistance (kind : Kind) : Nat × Bool :=
  match kind with
  | .phrase _ _ distance ordered => (distance, ordered)
  | _ => (0, true)

/-- The tokens of a phrase as one text. -/
def joinTokens (tokens : List (List Char)) : String :=
  " ".intercalate (tokens.map fun token => String.ofList (Text.unescape token))

/-- **Compiled phrase**: a condition on word positions if one is needed, or else a term or a run of
text. -/
def phrase (label : Label) : Compile Fragment := do
  let field := label.fieldName
  let term : Fragment := .term field (.str label.text) none
  if label.operator = .regex then standard env label term
  else
    let (distance, ordered) := phraseDistance label.kind
    let tokens ← phraseTokens env label
    let positional := 0 < distance || !ordered || tokens.any Query.Phrase.isMultiTerm
    match tokens with
    -- the analyzer left nothing, so that the text is taken as it is
    | [] => standard env label term
    | [token] =>
      if positional then plainLeaf env (Query.Phrase.tokenLabel label token)
      else standard env label term
    | _ =>
      if positional then
        let clauses ← tokens.mapM fun token =>
          spanOfLeaf label.operator field (Query.Phrase.tokenLabel label token)
        -- the positions are those of one text, and no scope is put around them
        return .span (.near clauses distance ordered none)
      else standard env label (.phrase field (joinTokens tokens) none)

/-- **Compiled predicate**, without its boost. -/
def leaf (label : Label) : Compile Fragment :=
  match label.kind with
  | .phrase .. => phrase env label
  | _ => plainLeaf env label

end LinkedSearch.Compile
