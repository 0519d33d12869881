import LinkedSearch.Fragment.Matching

/-! # Fragments without their boosts

Boosts weight a match without changing what matches. A fragment without its boosts, all the way down,
matches the same documents, and what a boost was put on has been forgotten.

* `Span.unweighted`, `Fragment.unweighted`: the boosts left out.
* `Fragment.IsUnweighted`: there were none.
* `Fragment.holds_unweighted`: the documents stay the same. -/

namespace LinkedSearch

mutual

/-- A condition on a document without its boosts. -/
def Fragment.unweighted : Fragment → Fragment
  | .matchAll _ => .matchAll none
  | .term field value _ => .term field value none
  | .terms field values least _ => .terms field values least none
  | .phrase field text _ => .phrase field text none
  | .range field bounds _ => .range field bounds none
  | .regexp field pattern _ => .regexp field pattern none
  | .wildcard field pattern _ => .wildcard field pattern none
  | .leading field text _ => .leading field text none
  | .fuzzy field text exact _ => .fuzzy field text exact none
  | .missing field => .missing field
  | .present field => .present field
  | .similar similarity _ => .similar similarity none
  | .script source => .script source
  | .bool must should mustNot least _ =>
    .bool (Fragment.unweightedAll must) (Fragment.unweightedAll should)
      (Fragment.unweightedAll mustNot) least none
  | .nested path query _ => .nested path query.unweighted none
  | .hasChild typeName query _ => .hasChild typeName query.unweighted none
  | .hasParent typeName query _ => .hasParent typeName query.unweighted none
  | .constantScore filter _ => .constantScore filter.unweighted none
  | .span condition => .span condition.unweighted

/-- Some conditions on a document without their boosts. -/
def Fragment.unweightedAll : List Fragment → List Fragment
  | [] => []
  | fragment :: rest => fragment.unweighted :: Fragment.unweightedAll rest

/-- A condition on word positions without its boosts. -/
def Span.unweighted : Span → Span
  | .term field text _ => .term field text none
  | .multiTerm query => .multiTerm query.unweighted
  | .near clauses slop ordered _ => .near (Span.unweightedAll clauses) slop ordered none

/-- Some conditions on word positions without their boosts. -/
def Span.unweightedAll : List Span → List Span
  | [] => []
  | clause :: rest => clause.unweighted :: Span.unweightedAll rest

end

namespace Span

@[simp] theorem unweightedAll_eq_map (clauses : List Span) :
    unweightedAll clauses = clauses.map unweighted := by
  induction clauses with
  | nil => simp [unweightedAll]
  | cons clause rest ih => simp [unweightedAll, ih]

/-- No trace is left of a boost. -/
@[simp] theorem unweighted_boosted (factor : Number.Binary) (condition : Span) :
    (condition.boosted factor).unweighted = condition.unweighted := by
  cases condition <;> simp [boosted, unweighted]

end Span

namespace Fragment

@[simp] theorem unweightedAll_eq_map (fragments : List Fragment) :
    unweightedAll fragments = fragments.map unweighted := by
  induction fragments with
  | nil => simp [unweightedAll]
  | cons fragment rest ih => simp [unweightedAll, ih]

/-- No trace is left of a boost. -/
@[simp] theorem unweighted_weighted (boost : Boost) (fragment : Fragment) :
    (fragment.weighted boost).unweighted = fragment.unweighted := by
  cases boost with
  | none => rfl
  | some factor => cases fragment <;> simp [weighted, boosted, unweighted]

/-! The fragments that nodes are compiled to have no boosts of their own. -/

theorem unweighted_all (fragments : List Fragment) :
    (all fragments).unweighted = all (fragments.map unweighted) := by
  simp [all, unweighted]

theorem unweighted_any (fragments : List Fragment) :
    (any fragments).unweighted = any (fragments.map unweighted) := by
  simp [any, unweighted]

theorem unweighted_excluding (fragments : List Fragment) :
    (bool [] [] fragments none none).unweighted =
      bool [] [] (fragments.map unweighted) none none := by
  simp [unweighted]

/-- **Without boosts**: there are none to be left out. -/
def IsUnweighted (fragment : Fragment) : Prop := fragment.unweighted = fragment

/-- The negation of a fragment without boosts. -/
theorem IsUnweighted.not {fragment : Fragment} (h : fragment.IsUnweighted) :
    fragment.not.IsUnweighted := by
  unfold IsUnweighted at h
  simp [IsUnweighted, Fragment.not, unweighted, h]

mutual

/-- **Boosts do not change what matches**, and neither do those on the parts of a fragment. -/
@[simp] theorem holds_unweighted : ∀ (fragment : Fragment) (document : Json),
    fragment.unweighted.holds document = fragment.holds document
  | .bool must should mustNot least _, document => by
    obtain ⟨hall, -, -⟩ := clauses_unweighted must document
    obtain ⟨-, hany, -⟩ := clauses_unweighted mustNot document
    obtain ⟨-, -, hcount⟩ := clauses_unweighted should document
    rw [unweighted, holds, holds, hall, hany, hcount]
    simp
  | .nested _ query _, document => by simp only [unweighted, holds, holds_unweighted query]
  | .hasChild _ query _, document | .hasParent _ query _, document
  | .constantScore query _, document => by simp only [unweighted, holds, holds_unweighted query document]
  | .matchAll .., _ | .term .., _ | .terms .., _ | .phrase .., _ | .range .., _ | .regexp .., _
  | .wildcard .., _ | .leading .., _ | .fuzzy .., _ | .missing .., _ | .present .., _ | .similar .., _
  | .script .., _ | .span .., _ => by simp only [unweighted, holds]

/-- As many clauses hold without boosts. -/
theorem clauses_unweighted : ∀ (fragments : List Fragment) (document : Json),
    holdsAll document (unweightedAll fragments) = holdsAll document fragments ∧
      holdsAny document (unweightedAll fragments) = holdsAny document fragments ∧
      holdsCount document (unweightedAll fragments) = holdsCount document fragments
  | [], _ => ⟨rfl, rfl, rfl⟩
  | fragment :: rest, document => by
    obtain ⟨hall, hany, hcount⟩ := clauses_unweighted rest document
    have hfirst := holds_unweighted fragment document
    rw [unweightedAll, holdsAll, holdsAny, holdsCount, holdsAll, holdsAny, holdsCount, hfirst, hall,
      hany, hcount]
    exact ⟨rfl, rfl, rfl⟩

end

end Fragment

end LinkedSearch
