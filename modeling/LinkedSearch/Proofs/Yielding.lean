import LinkedSearch.Proofs.Following

/-! # One level of a compilation

What a node that is no expansion is compiled to, exactly and for each kind of node. It can be read in
both directions: from a successful compilation to what its parts are compiled to, and back.

* `Kind.connective?`, `Kind.join?`: what becomes of the fragments of the parts.
* `Entered`: the state in which the parts of a scope are compiled.
* `Yields`, `yields_iff`: a compiled node. -/

namespace LinkedSearch

open Query (Arena Kind Label NodeId)

namespace Query

/-- The condition that a connective makes of its clauses. -/
def Kind.connective? : Kind → Option (List Fragment → Fragment)
  | .conjunction => some .all
  | .disjunction => some .any
  | .negation => some fun clauses => .bool [] [] clauses none none
  | _ => none

/-- The join of a parent or child scope. -/
def Kind.join? : Kind → Option (Fragment → Fragment)
  | .child typeName => some (.hasChild typeName · none)
  | .parent typeName => some (.hasParent typeName · none)
  | _ => none

/-- Whether the filter of an aggregate leaves a kind out. -/
def Kind.isAdmitted : Kind → Bool
  | .negation | .parent _ => true
  | _ => false

/-- **Sorts** of kinds: connectives, parent and child scopes, scopes, expansions, and predicates. -/
theorem Kind.sorts (kind : Kind) : (∃ wrap, kind.connective? = some wrap) ∨
    (∃ join, kind.join? = some join) ∨ kind = .scope ∨
    (∃ link generated, kind = .expansion link generated) ∨
    kind.isLeaf = true ∨ kind.isProximity = true := by
  cases kind <;> simp [connective?, join?, isLeaf, isProximity]

/-- A connective is no expansion. -/
theorem Kind.isExpansion_of_connective {kind : Kind} {wrap : List Fragment → Fragment}
    (h : kind.connective? = some wrap) : kind.isExpansion = false := by
  cases kind <;> first | rfl | exact absurd h (by simp [connective?])

/-- A parent or child scope is no expansion. -/
theorem Kind.isExpansion_of_join {kind : Kind} {join : Fragment → Fragment}
    (h : kind.join? = some join) : kind.isExpansion = false := by
  cases kind <;> first | rfl | exact absurd h (by simp [join?])

end Query

namespace Compile

variable {env : Environment} {recur : NodeId → Compile Fragment} {p q : Progress} {n : Nat}
  {F : Fragment}

/-- A compiled proximity with its boost. -/
def weightedProximity (env : Environment) (label : Label) (n : NodeId) : Compile Fragment := do
  return (← proximity env label n).weighted label.boost

/-- **Entering a scope**: the outermost one looks for the path that its leaves share. -/
inductive Entered (env : Environment) (n : NodeId) (p : Progress) : Progress → Prop where
  | outermost (path : Option String) (s : Progress) (hdepth : p.scopeDepth = 0)
      (hpath : exec (sharedPath env n) p = (.ok path, s)) : Entered env n p { s with scopePath := path }
  | inner (hdepth : p.scopeDepth ≠ 0) : Entered env n p p

/-- **What a node yields**, if it is no expansion. -/
inductive Yields (env : Environment) (recur : NodeId → Compile Fragment) (n : NodeId)
    (p : Progress) : Fragment → Progress → Prop where
  | connective (wrap : List Fragment → Fragment) (clauses : List Fragment) (q : Progress)
      (hwrap : (p.draft.arena.label n).kind.connective? = some wrap)
      (hopen : p.aggregating = true → (p.draft.arena.label n).kind.isAdmitted = false)
      (hall : exec ((p.draft.arena.children n).mapM recur) p = (.ok clauses, q)) :
      Yields env recur n p (wrap clauses) q
  | scope (s u : Progress) (clauses : List Fragment) (F : Fragment) (q : Progress)
      (hkind : (p.draft.arena.label n).kind = .scope) (hentered : Entered env n p s)
      (hall : exec ((p.draft.arena.children n).mapM recur) { s with scopeDepth := s.scopeDepth + 1 } =
        (.ok clauses, u))
      (hclose : (F, q) = closeScope clauses { u with scopeDepth := u.scopeDepth - 1 }) :
      Yields env recur n p F q
  | joined (join : Fragment → Fragment) (child : NodeId) (rest : List NodeId) (inner : Fragment)
      (q : Progress) (hjoin : (p.draft.arena.label n).kind.join? = some join)
      (hopen : p.aggregating = true → (p.draft.arena.label n).kind.isAdmitted = false)
      (hchildren : p.draft.arena.children n = child :: rest)
      (hexec : exec (recur child) p = (.ok inner, q)) :
      Yields env recur n p (if env.settings.useParentChild then join inner else inner) q
  | childless (join : Fragment → Fragment) (hjoin : (p.draft.arena.label n).kind.join? = some join)
      (hopen : p.aggregating = true → (p.draft.arena.label n).kind.isAdmitted = false)
      (hchildren : p.draft.arena.children n = []) : Yields env recur n p (.matchAll none) p
  | admitted (hkind : (p.draft.arena.label n).kind.isAdmitted = true)
      (hfilter : p.aggregating = true) : Yields env recur n p (.matchAll none) p
  | proximity (F : Fragment) (q : Progress)
      (hkind : (p.draft.arena.label n).kind.isProximity = true)
      (hexec : exec (weightedProximity env (p.draft.arena.label n) n) p = (.ok F, q)) :
      Yields env recur n p F q
  | predicate (F : Fragment) (q : Progress) (hkind : (p.draft.arena.label n).kind.isLeaf = true)
      (hexec : exec (predicate env (p.draft.arena.label n)) p = (.ok F, q)) :
      Yields env recur n p F q

/-- The first child of a parent or child scope. -/
theorem exec_joined_ok {join : Fragment → Fragment} :
    exec (joined env recur join n) p = (.ok F, q) ↔
      (∃ child rest inner, p.draft.arena.children n = child :: rest ∧
        exec (recur child) p = (.ok inner, q) ∧
        F = if env.settings.useParentChild then join inner else inner) ∨
      p.draft.arena.children n = [] ∧ F = .matchAll none ∧ q = p := by
  rw [joined, exec_childrenOf_bind]
  cases hchildren : p.draft.arena.children n with
  | nil =>
    constructor
    · intro h
      obtain ⟨hF, rfl⟩ := Prod.mk.inj h
      exact .inr ⟨rfl, (Except.ok.inj hF).symm, rfl⟩
    · rintro (⟨child, rest, inner, hcons, -⟩ | ⟨-, rfl, rfl⟩)
      · exact absurd hcons (by simp)
      · rfl
  | cons child rest =>
    refine exec_return_ok.trans ?_
    constructor
    · rintro ⟨inner, hexec, hF⟩
      exact .inl ⟨child, rest, inner, rfl, hexec, hF.symm⟩
    · rintro (⟨child', rest', inner, hcons, hexec, rfl⟩ | ⟨hnil, -⟩)
      · obtain ⟨rfl, rfl⟩ := List.cons.inj hcons
        exact ⟨inner, hexec, rfl⟩
      · exact absurd hnil (by simp)

/-- A scope is entered, and closed after its children. -/
theorem exec_scope_ok : exec (scope env recur n) p = (.ok F, q) ↔
    ∃ s u clauses, Entered env n p s ∧
      exec ((p.draft.arena.children n).mapM recur) { s with scopeDepth := s.scopeDepth + 1 } =
        (.ok clauses, u) ∧
      (F, q) = closeScope clauses { u with scopeDepth := u.scopeDepth - 1 } := by
  rw [exec_scope]
  split
  · next hdepth =>
    rcases hpath : exec (sharedPath env n) p with ⟨error | path, s⟩
    · constructor
      · exact fun h => absurd (congrArg Prod.fst h) (by simp)
      · rintro ⟨s', u, clauses, hentered, -⟩
        cases hentered with
        | outermost path s' _ hpath' =>
          rw [hpath] at hpath'
          exact absurd (congrArg Prod.fst hpath') (by simp)
        | inner hinner => exact absurd hdepth hinner
    · simp only [exec_scopeClauses_ok]
      constructor
      · rintro ⟨clauses, u, hall, hclose⟩
        exact ⟨_, u, clauses, .outermost path s hdepth hpath, hall, hclose⟩
      · rintro ⟨s', u, clauses, hentered, hall, hclose⟩
        cases hentered with
        | outermost path' t _ hpath' =>
          rw [hpath] at hpath'
          obtain ⟨hok, rfl⟩ := Prod.mk.inj hpath'
          obtain rfl := Except.ok.inj hok
          exact ⟨clauses, u, hall, hclose⟩
        | inner hinner => exact absurd hdepth hinner
  · next hdepth =>
    rw [exec_scopeClauses_ok]
    constructor
    · rintro ⟨clauses, u, hall, hclose⟩
      exact ⟨p, u, clauses, .inner hdepth, hall, hclose⟩
    · rintro ⟨s, u, clauses, hentered, hall, hclose⟩
      cases hentered with
      | outermost _ _ hzero _ => exact absurd hzero hdepth
      | inner _ => exact ⟨clauses, u, hall, hclose⟩

/-- A node is compiled as its kind says. -/
theorem exec_node : exec (node env recur n) p = exec (match (p.draft.arena.label n).kind with
    | .conjunction => do return .all (← (← childrenOf n).mapM recur)
    | .disjunction => do return .any (← (← childrenOf n).mapM recur)
    | .negation => do
      if (← get).aggregating then return .matchAll none
      else return .bool [] [] (← (← childrenOf n).mapM recur) none none
    | .scope => scope env recur n
    | .child typeName => joined env recur (.hasChild typeName · none) n
    | .parent typeName => do
      if (← get).aggregating then return .matchAll none
      else joined env recur (.hasParent typeName · none) n
    | .expansion _ generated => expansion env recur n generated
    | .proximity .. => weightedProximity env (p.draft.arena.label n) n
    | _ => predicate env (p.draft.arena.label n)) p := by
  rw [node, exec_labelOf_bind]
  rfl

/-- The filter of an aggregate admits everything here. -/
theorem exec_node_admitted (h : (p.aggregating && (p.draft.arena.label n).kind.isAdmitted) = true) :
    exec (node env recur n) p = (.ok (.matchAll none), p) := by
  rw [Bool.and_eq_true] at h
  rw [exec_node]
  cases hkind : (p.draft.arena.label n).kind with
  | negation | parent typeName =>
    rw [exec_get_bind, h.1]
    rfl
  | _ =>
    rw [hkind] at h
    exact absurd h.2 (by simp [Kind.isAdmitted])

/-- A connective is made of its clauses. -/
theorem exec_node_connective {wrap : List Fragment → Fragment}
    (hwrap : (p.draft.arena.label n).kind.connective? = some wrap)
    (hopen : (p.aggregating && (p.draft.arena.label n).kind.isAdmitted) = false) :
    exec (node env recur n) p =
      exec ((p.draft.arena.children n).mapM recur >>= fun clauses => pure (wrap clauses)) p := by
  rw [exec_node]
  cases hkind : (p.draft.arena.label n).kind with
  | conjunction | disjunction =>
    rw [hkind] at hwrap
    obtain rfl := Option.some.inj hwrap
    rfl
  | negation =>
    rw [hkind] at hwrap hopen
    obtain rfl := Option.some.inj hwrap
    have hfilter : p.aggregating = false := by simpa [Kind.isAdmitted] using hopen
    rw [exec_get_bind, hfilter]
    rfl
  | _ =>
    rw [hkind] at hwrap
    exact absurd hwrap (by simp [Kind.connective?])

/-- A parent or child scope is joined. -/
theorem exec_node_joined {join : Fragment → Fragment}
    (hjoin : (p.draft.arena.label n).kind.join? = some join)
    (hopen : (p.aggregating && (p.draft.arena.label n).kind.isAdmitted) = false) :
    exec (node env recur n) p = exec (joined env recur join n) p := by
  rw [exec_node]
  cases hkind : (p.draft.arena.label n).kind with
  | child typeName =>
    rw [hkind] at hjoin
    obtain rfl := Option.some.inj hjoin
    rfl
  | parent typeName =>
    rw [hkind] at hjoin hopen
    obtain rfl := Option.some.inj hjoin
    have hfilter : p.aggregating = false := by simpa [Kind.isAdmitted] using hopen
    rw [exec_get_bind, hfilter]
    rfl
  | _ =>
    rw [hkind] at hjoin
    exact absurd hjoin (by simp [Kind.join?])

/-- A predicate is compiled with its boost. -/
theorem exec_node_predicate (hleaf : (p.draft.arena.label n).kind.isLeaf = true) :
    exec (node env recur n) p = exec (predicate env (p.draft.arena.label n)) p := by
  rw [exec_node]
  cases hkind : (p.draft.arena.label n).kind <;>
    first | rfl | (rw [hkind] at hleaf; exact absurd hleaf (by simp [Kind.isLeaf]))

/-- So is a proximity. -/
theorem exec_node_proximity (hnear : (p.draft.arena.label n).kind.isProximity = true) :
    exec (node env recur n) p = exec (weightedProximity env (p.draft.arena.label n) n) p := by
  rw [exec_node]
  cases hkind : (p.draft.arena.label n).kind <;>
    first | rfl | (rw [hkind] at hnear; exact absurd hnear (by simp [Kind.isProximity]))

/-- What a node yields is what it is compiled to. -/
theorem Yields.exec_eq (h : Yields env recur n p F q) : exec (node env recur n) p = (.ok F, q) := by
  have hfilter : ∀ {kind : Kind}, (p.aggregating = true → kind.isAdmitted = false) →
      (p.aggregating && kind.isAdmitted) = false := by
    intro kind hopen
    rw [Bool.and_eq_false_imp]
    exact hopen
  cases h with
  | connective wrap clauses _ hwrap hopen hall =>
    rw [exec_node_connective hwrap (hfilter hopen), exec_bind, hall]
    rfl
  | scope s u clauses _ _ hkind hentered hall hclose =>
    rw [exec_node, hkind]
    exact exec_scope_ok.mpr ⟨s, u, clauses, hentered, hall, hclose⟩
  | joined join child rest inner _ hjoin hopen hchildren hexec =>
    rw [exec_node_joined hjoin (hfilter hopen)]
    exact exec_joined_ok.mpr (.inl ⟨child, rest, inner, hchildren, hexec, rfl⟩)
  | childless join hjoin hopen hchildren =>
    rw [exec_node_joined hjoin (hfilter hopen)]
    exact exec_joined_ok.mpr (.inr ⟨hchildren, rfl, rfl⟩)
  | admitted hkind haggregating => exact exec_node_admitted (by rw [hkind, haggregating]; rfl)
  | proximity _ _ hkind hexec => rwa [exec_node_proximity hkind]
  | predicate _ _ hkind hexec => rwa [exec_node_predicate hkind]

/-- **What a node yields** is what it is compiled to, one level deep. -/
theorem yields_iff (hkind : (p.draft.arena.label n).kind.isExpansion = false) :
    exec (node env recur n) p = (.ok F, q) ↔ Yields env recur n p F q := by
  refine ⟨fun h => ?_, Yields.exec_eq⟩
  -- what a request admits unseen goes before the kind of the node, so that the cases are split on it
  -- first
  cases hfilter : p.aggregating && (p.draft.arena.label n).kind.isAdmitted with
  | true =>
    rw [exec_node_admitted hfilter] at h
    obtain ⟨haggregating, hadmitted⟩ := (Bool.and_eq_true _ _).mp hfilter
    cases h
    exact .admitted hadmitted haggregating
  | false =>
    have hopen := Bool.and_eq_false_imp.mp hfilter
    rcases (p.draft.arena.label n).kind.sorts with
      ⟨wrap, hwrap⟩ | ⟨join, hjoin⟩ | hscope | ⟨link, generated, hexpansion⟩ | hleaf | hnear
    · rw [exec_node_connective hwrap hfilter] at h
      obtain ⟨clauses, hall, rfl⟩ := exec_return_ok.mp h
      exact .connective wrap clauses q hwrap hopen hall
    · rw [exec_node_joined hjoin hfilter] at h
      rcases exec_joined_ok.mp h with ⟨child, rest, inner, hchildren, hexec, rfl⟩ | ⟨hnil, rfl, rfl⟩
      · exact .joined join child rest inner q hjoin hopen hchildren hexec
      · exact .childless join hjoin hopen hnil
    · rw [exec_node, hscope] at h
      obtain ⟨s, u, clauses, hentered, hall, hclose⟩ := exec_scope_ok.mp h
      exact .scope s u clauses F q hscope hentered hall hclose
    · rw [hexpansion] at hkind
      exact absurd hkind (by simp [Kind.isExpansion])
    · exact .predicate F q hleaf (by rwa [← exec_node_predicate hleaf])
    · exact .proximity F q hnear (by rwa [← exec_node_proximity hnear])

end Compile

end LinkedSearch
