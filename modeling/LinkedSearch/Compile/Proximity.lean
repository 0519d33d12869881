import LinkedSearch.Compile.Leaf

/-!
# Compiling proximities

A proximity asks for its children near each other in one text: every child becomes a clause about
word positions. The clauses are about the field of the proximity itself, and a proximity inside
another one becomes a clause with clauses of its own.

* `spanOfPhrase`: the clause for a phrase.
* `proximity`: the compiled proximity.
-/

namespace LinkedSearch.Compile

open Query (Kind Label NodeId)

variable (env : Environment)

/-- The clause for a phrase: its tokens right after each other, or the only one. -/
def spanOfPhrase (outer phrase : Label) : Compile Span := do
  if outer.operator = .regex then
    return .multiTerm (.regexp phrase.fieldName phrase.sourceText none)
  else
    let clauses ← (← phraseTokens env phrase).mapM fun token =>
      spanOfLeaf outer.operator outer.fieldName (Query.Phrase.tokenLabel phrase token)
    match clauses with
    | [clause] => return clause
    | _ => return .near clauses 0 true none

/-- The distance of a proximity, and whether its clauses are ordered. -/
def proximityDistance (kind : Kind) : Nat × Bool :=
  match kind with
  | .proximity distance ordered => (distance, ordered)
  | _ => (0, true)

/-- The clause for a child of a proximity, where `near` compiles a proximity inside it. -/
def spanOfChild (near : Label → NodeId → Compile Span) (outer : Label) (id : NodeId) :
    Compile Span := do
  let label ← labelOf id
  let span ← match label.kind with
    | .phrase .. => spanOfPhrase env outer label
    | .proximity .. => near label id
    | _ => spanOfLeaf outer.operator outer.fieldName label
  return label.boost.elim span span.boosted

/-- The clauses of a proximity, at most `fuel` proximities deep. -/
def nearWithin : Nat → Label → NodeId → Compile Span
  | 0, _, _ => throw .boundReached
  | fuel + 1, label, id => do
    let clauses ← (← childrenOf id).mapM (spanOfChild env (nearWithin fuel) label)
    let (distance, ordered) := proximityDistance label.kind
    return .near clauses distance ordered none

/-- **Compiled proximity**, without its boost. -/
def proximity (label : Label) (id : NodeId) : Compile Fragment := do
  let span ← nearWithin env (← arena).size label id
  return .span span

end LinkedSearch.Compile
