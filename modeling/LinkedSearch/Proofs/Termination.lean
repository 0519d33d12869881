import LinkedSearch.Proofs.Crossings
import LinkedSearch.Proofs.Reentry

/-! # Compilations end

The compiler of nodes is bounded by a number of calls inside each other, which is computed from the size of
the arena. The bound is never reached, and neither is an expansion ever entered while it is being resolved:
a guarded compiler, which does something arbitrary instead, gives the same results, in the same states, with
a bound that grows with the number of nodes, or any larger one.

* `guardedQuery`: the guarded query of a draft.
* `aggregateBy`: the aggregate of a draft, given how its query is compiled.
* `Compiler.run_guarded`: queries and aggregates of compilers, after any uses. -/

namespace LinkedSearch

open Query (Aggregate AggregateLevel NodeId Tree)

namespace Compile

variable {env : Environment} {detour : Detour} {extra : Nat} {p q : Progress}

/-! ## Queries -/

/-- **Guarded query** of the draft, which goes at most four calls deep for every node, and then some. -/
def guardedQuery (env : Environment) (detour : Detour) (extra : Nat) : Compile Fragment := do
  let draft := (← get).draft
  match draft.root with
  | some root => guardedWithin env detour (4 * (draft.arena.size + 1) + extra) [] root
  | none => return .matchAll none

/-- There is room for the whole query at its root, where nothing is being resolved. -/
theorem place_root (hp : Sound env p) {n room : Nat} (hn : n < p.draft.arena.size)
    (hroom : 4 * (p.draft.arena.size + 1) ≤ room) :
    Place env p.draft.arena.size [] room p n where
  sound := hp
  lt_size := hn
  bottomed := fun i hi =>
    ⟨by rw [Query.Arena.label_of_size_le hi]; rfl, Query.Arena.children_of_size_le hi⟩
  outOfSight := fun _ h => absurd h List.not_mem_nil
  enough := by
    refine .inr ⟨fun _ h => absurd h List.not_mem_nil, ?_⟩
    unfold callDepth
    split <;> omega

/-- **The guarded query** coincides with the query. -/
theorem guardedQuery_coincides (hp : Rooted env p) :
    Coincides (guardedQuery env detour extra) (rootQuery env) p := by
  have hguarded : exec (guardedQuery env detour extra) p = exec (match p.draft.root with
    | some root => guardedWithin env detour (4 * (p.draft.arena.size + 1) + extra) [] root
    | none => return .matchAll none) p := rfl
  unfold Coincides
  rw [hguarded]
  cases hroot : p.draft.root with
  | none => exact (exec_rootQuery_none hroot).symm
  | some root =>
    have hbound : 4 * (p.draft.arena.size + 1) ≤ depthBound p.draft.arena.size := by
      unfold depthBound
      exact Nat.mul_le_mul (by omega) (by omega)
    rw [exec_rootQuery hroot]
    exact guardedWithin_coincides detour _ (4 * (p.draft.arena.size + 1)) _ _ [] root p
      (Nat.le_add_right _ _) hbound (place_root hp.1 (hp.2 root hroot) (Nat.le_refl _))

/-! ## Aggregates -/

/-- A level in the scope of nested objects that a query admits. -/
def inScopeBy (query : Compile Fragment) (level : AggregateLevel) (tree : AggregationTree) :
    Compile AggregationTree :=
  match level.nestedPath with
  | none => return tree
  | some path => do
    let filter ← query
    let missing := AggregationTree.leaf "missing" (.missing level.field)
    return .node "nested" (.nested path) [.node "filter" (.filter filter) [tree, missing]]

/-- A chain of aggregates over nested objects that a query admits. -/
def levelsBy (env : Environment) (query : Compile Fragment) :
    AggregateLevel → List AggregateLevel → Compile AggregationTree
  | outer, [] => do
    let compiled ← aggregation env outer
    inScopeBy query outer (.leaf outer.field compiled)
  | outer, next :: rest => do
    let compiled ← aggregation env outer
    checkInner env outer compiled next
    let inner ← levelsBy env query next rest
    inScopeBy query outer (.node outer.field compiled [inner])

/-- **Compiled aggregate** of the draft, given how its query is compiled. -/
def aggregateBy (env : Environment) (query : Compile Fragment) : Compile (Option AggregationTree) := do
  match (← get).draft.aggregate with
  | none => return none
  | some aggregate =>
    within (fun progress => { progress with aggregating := true })
      (fun progress => { progress with aggregating := false })
      (return some (← levelsBy env query aggregate.outer aggregate.inner))

/-- A level, with two ways to compile the query. -/
theorem inScopeBy_coincides {query : Compile Fragment} (h : Coincides query (rootQuery env) p)
    (level : AggregateLevel) (tree : AggregationTree) :
    Coincides (inScopeBy query level tree) (inScope env level tree) p := by
  unfold inScopeBy inScope
  cases level.nestedPath with
  | none => rfl
  | some path => exact h.bind_left _

/-- A chain of aggregates, with two ways to compile the query. -/
theorem levelsBy_coincides {query : Compile Fragment}
    (h : ∀ p, Rooted env p → Coincides query (rootQuery env) p) (inner : List AggregateLevel) :
    ∀ {outer : AggregateLevel} {p : Progress}, Rooted env p →
      Coincides (levelsBy env query outer inner) (levels env outer inner) p := by
  have hlooked : ∀ {p q}, Rooted env p → Looked env p q → Rooted env q := fun hp hlooked =>
    (advancing_discipline env).keep _ _ hp ⟨hlooked.evolves hp.1, hlooked.advance⟩
  induction inner with
  | nil =>
    intro outer p hp
    rw [levelsBy, levels]
    exact .looks_bind (aggregation_looks hp.1 outer) fun compiled q hq =>
      inScopeBy_coincides (h q (hlooked hp hq)) outer _
  | cons next rest ih =>
    intro outer p hp
    rw [levelsBy, levels]
    refine .looks_bind (aggregation_looks hp.1 outer) fun compiled q hpq => ?_
    have hq := hlooked hp hpq
    refine .looks_bind (checkInner_looks hq.1 outer next compiled) fun _ s hqs => ?_
    have hs := hlooked hq hqs
    refine (ih hs).bind fun inner t ht => inScopeBy_coincides (h t ?_) outer _
    exact (advancing_discipline env).keep s t hs
      ((wp_of_ok ht).mp (levels_obeys (advancing_discipline env) rootQuery_obeys_advancing next rest s hs))

/-- **Aggregates**, with two ways to compile the query. -/
theorem aggregateBy_coincides {query : Compile Fragment}
    (h : ∀ p, Rooted env p → Coincides query (rootQuery env) p) (hp : Rooted env p) :
    Coincides (aggregateBy env query) (aggregate env) p := by
  unfold aggregateBy aggregate
  refine .bind_known rfl ?_
  cases p.draft.aggregate with
  | none => rfl
  | some aggregate =>
    refine .within (Coincides.bind_left _ ?_)
    exact levelsBy_coincides h _ ⟨⟨hp.1.ascending, hp.1.faithful⟩, hp.2⟩

end Compile

namespace Compiler

open Compile

variable {setup : Setup} {compiler : Compiler}

/-- **Compilations end, and enter no expansion again.** Whatever a compiler was used for, in whatever order
and with whatever outcomes: the guarded compiler, which stops instead of entering an expansion that is being
resolved, and instead of going deeper than a bound that is linear in the number of nodes, gives the same
query and the same aggregate, or the same error, and leaves the same state behind. As this does not depend
on what it does when it stops, it never stops. -/
theorem run_guarded (hstart : setup.start = .ok compiler) (uses : List Use) (detour : Detour) (extra : Nat) :
    (compiler.used uses).run (guardedQuery · detour extra) = (compiler.used uses).run rootQuery ∧
      (compiler.used uses).run (fun env => aggregateBy env (guardedQuery env detour extra)) =
        (compiler.used uses).run aggregate := by
  have hidle := (idle_of_started (Setup.started_of_ok hstart)).used uses
  have hrun : ∀ {α : Type} {x y : Environment → Compile α},
      Coincides (x (compiler.used uses).environment) (y (compiler.used uses).environment)
        (compiler.used uses).progress → (compiler.used uses).run x = (compiler.used uses).run y :=
    fun h => congrArg (fun result : Except Error _ × Progress =>
      (result.1, { compiler.used uses with progress := result.2 })) h
  exact ⟨hrun (guardedQuery_coincides hidle.rootedState),
    hrun (aggregateBy_coincides (fun p => guardedQuery_coincides) hidle.rootedState)⟩

/-- An expansion around a parent scope with an expansion in it, and beside it another one, whose scan asks for
that scope: the query that is compiled in the end does not depend on what a guarded compiler would do
instead. -/
theorem run_guarded_authorSearch : ∃ compiler F,
    (authorSearch fun x y => .conjunction [y, .parent "t" [x]]).start = .ok compiler ∧
    compiler.query.1 = .ok F ∧
    ∀ detour extra, (compiler.run (guardedQuery · detour extra)).1 = .ok F := by
  have hrun : ((authorSearch fun x y => .conjunction [y, .parent "t" [x]]).start.toOption.any
      fun compiler => compiler.query.1.isOk) = true := by
    decide +kernel
  simp only [Option.any_eq_true, toOption_eq_some] at hrun
  obtain ⟨compiler, hstart, hok⟩ := hrun
  obtain ⟨F, hF⟩ : ∃ F, compiler.query.1 = .ok F := by
    rcases hquery : compiler.query.1 with error | F
    · rw [hquery] at hok
      exact absurd hok (by simp [Except.isOk, Except.toBool])
    · exact ⟨F, rfl⟩
  refine ⟨compiler, F, hstart, hF, fun detour extra => ?_⟩
  obtain ⟨hguarded, -⟩ := run_guarded hstart [] detour extra
  exact (congrArg Prod.fst hguarded).trans hF

end Compiler

end LinkedSearch
