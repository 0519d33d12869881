import LinkedSearch.Proofs.Nesting
import LinkedSearch.Proofs.Weightless

/-! # Boosts never change what is matched

Two compilers, one of a request and one of the same request without its boosts, are used in the same way.
They start alike, every call on them ends alike, they ask for the same scans up to boosts, and what they
compile matches the same documents.

* `Setup.unweighted`, `Compiler.unweighted`: a setup and a compiler without boosts.
* `run_unweighted`, `used_unweighted`: single computations, and sequences of uses.
* `Compiler.weightless`: everything that can be asked of the two compilers. -/

namespace LinkedSearch

open Query (Request Tree)
open Schema (Mapping)

/-- The same setup for the request without its boosts. -/
def Setup.unweighted (setup : Setup) : Setup := { setup with request := setup.request.unweighted }

/-- The same compiler in a state without boosts. -/
def Compiler.unweighted (compiler : Compiler) : Compiler :=
  { compiler with progress := compiler.progress.unweighted }

/-- **Start**: without boosts a compiler starts in the same state up to boosts, or fails with the same
error. -/
theorem Setup.start_unweighted (setup : Setup) :
    setup.unweighted.start = setup.start.map Compiler.unweighted := by
  have hfields : setup.request.unweighted.draft.fieldNames = setup.request.draft.fieldNames := by
    rw [Request.draft_unweighted, Query.Draft.fieldNames_unweighted]
  refine (setup.start_withQuery _ hfields).trans ?_
  cases hstart : setup.start with
  | error e => rfl
  | ok compiler =>
    obtain ⟨resolver, executor, md, md', -, -, -, -, rfl⟩ := start_eq_ok.mp hstart
    show Except.ok _ = Except.ok _
    rw [show ({ setup.request with query := setup.request.query.map Tree.unweighted } : Request) =
      setup.request.unweighted from rfl, Request.draft_unweighted]
    rfl

namespace AggregationTree

mutual

/-- The filters of a tree without their boosts. -/
theorem filters_unweighted : ∀ tree : AggregationTree,
    tree.unweighted.filters = tree.filters.map Fragment.unweighted
  | node name aggregation inner => by
    have hfilter : aggregation.unweighted.filter?.toList =
        aggregation.filter?.toList.map Fragment.unweighted := by
      cases aggregation <;> rfl
    rw [unweighted, filters, filters, List.map_append, hfilter, filtersOf_unweighted inner]

/-- The filters of some trees without their boosts. -/
theorem filtersOf_unweighted : ∀ trees : List AggregationTree,
    filtersOf (unweightedAll trees) = (filtersOf trees).map Fragment.unweighted
  | [] => by rw [unweightedAll, filtersOf, List.map_nil]
  | tree :: rest => by
    rw [unweightedAll, filtersOf, filtersOf, List.map_append, filters_unweighted tree,
      filtersOf_unweighted rest]

end

end AggregationTree

namespace Compiler

open Compile

variable {setup : Setup} {compiler : Compiler}

/-! ## Single computations -/

/-- A computation that is the same without boosts, run on a compiler without boosts. -/
theorem run_unweighted {α β : Type} {f : α → β} {action : Environment → Compile α}
    {action' : Environment → Compile β}
    (h : Unweighs (fun a b => b = f a) (action compiler.environment) (action' compiler.environment)
      compiler.progress) :
    compiler.unweighted.run action' = ((compiler.run action).1.map f, (compiler.run action).2.unweighted) := by
  show ((exec (action' compiler.environment) compiler.progress.unweighted).1,
      { compiler.unweighted with
        progress := (exec (action' compiler.environment) compiler.progress.unweighted).2 }) =
    ((exec (action compiler.environment) compiler.progress).1.map f,
      Compiler.unweighted { compiler with
        progress := (exec (action compiler.environment) compiler.progress).2 })
  rcases hexec : exec (action compiler.environment) compiler.progress with ⟨error | a, q⟩
  · rw [(wp_of_error hexec).mp h]
    rfl
  · obtain ⟨b, hb, rfl⟩ := (wp_of_ok hexec).mp h
    rw [hb]
    rfl

/-- A computation with a result that has no boosts. -/
theorem run_unweighted_same {α : Type} {action : Environment → Compile α}
    (h : Unweighs Eq (action compiler.environment) (action compiler.environment) compiler.progress) :
    compiler.unweighted.run action = ((compiler.run action).1, (compiler.run action).2.unweighted) := by
  rw [run_unweighted (f := id) (h.mono fun _ _ hsame => hsame.symm)]
  cases (compiler.run action).1 <;> rfl

/-- Where the aggregate is sent has nothing to do with boosts. -/
theorem aggregateIndex_unweighted : compiler.unweighted.aggregateIndex =
    (compiler.aggregateIndex.1, compiler.aggregateIndex.2.unweighted) := by
  refine run_unweighted_same (.getSame rfl ?_)
  simp only
  split
  · exact (look_carries spares_unweighted _ _).bind fun owner _ q hsame => .pure (by rw [hsame])
  · exact .throw _

/-- Nor has what its field is called there. -/
theorem aggregateField_unweighted : compiler.unweighted.aggregateField =
    (compiler.aggregateField.1, compiler.aggregateField.2.unweighted) := by
  refine run_unweighted_same (.getSame rfl ?_)
  split
  · exact .throw _
  · simp only
    split
    · exact .pure rfl
    · refine (look_carries spares_unweighted _ _).bind fun owner _ q hsame => ?_
      subst hsame
      split <;> exact .pure rfl

section Uses

variable (hexecutor : compiler.environment.executor.Weightless)

include hexecutor

theorem query_unweighted : compiler.unweighted.query =
    (compiler.query.1.map Fragment.unweighted, compiler.query.2.unweighted) := by
  unfold query
  rw [run_unweighted (rootQuery_unweighs hexecutor _)]
  rfl

theorem aggregation_unweighted : compiler.unweighted.aggregation =
    (compiler.aggregation.1.map (·.map AggregationTree.unweighted), compiler.aggregation.2.unweighted) :=
  run_unweighted (aggregate_unweighs hexecutor _)

/-! ## Sequences of uses -/

/-- **One use.** -/
theorem use_unweighted (use : Use) : compiler.unweighted.use use = (compiler.use use).unweighted := by
  cases use with
  | call call =>
    cases call with
    | query => exact congrArg Prod.snd (query_unweighted hexecutor)
    | aggregation => exact congrArg Prod.snd (aggregation_unweighted hexecutor)
    | suggestion => rfl
  | aggregateIndex => exact congrArg Prod.snd aggregateIndex_unweighted
  | aggregateField => exact congrArg Prod.snd aggregateField_unweighted
  | searchIndex | aggregateNested | dump => rfl

/-- **Uses** of a compiler without boosts leave it as they leave the other one, up to boosts. -/
theorem used_unweighted (uses : List Use) :
    compiler.unweighted.used uses = (compiler.used uses).unweighted := by
  induction uses generalizing compiler with
  | nil => rfl
  | cons use rest ih =>
    have hnext : (compiler.use use).environment.executor.Weightless := by
      rw [use_environment]
      exact hexecutor
    show (compiler.unweighted.use use).used rest = ((compiler.use use).used rest).unweighted
    rw [use_unweighted hexecutor, ih hnext]

end Uses

/-- **Boosts never change what is matched.** Take a request to a cluster, with any settings, resolver and
analyzer, and the same request without its boosts. The two start alike, or fail to with the same error. After
any uses of the two compilers, whatever their outcomes, each further one has the same outcome up to boosts:
the compiled query and the compiled aggregate are the same without their boosts, or fail with the same error,
and everything else is the same. The scans that were requested are the same up to boosts. And the queries,
and the filters of the aggregates, hold of the same documents. -/
theorem weightless {cluster : Cluster} (hexecutor : setup.executor = some cluster.executor) :
    setup.unweighted.start = setup.start.map unweighted ∧
    ∀ compiler, setup.start = .ok compiler → ∀ uses : List Use,
      ((compiler.unweighted.used uses).query.1 = (compiler.used uses).query.1.map Fragment.unweighted ∧
        (compiler.unweighted.used uses).aggregation.1 =
          (compiler.used uses).aggregation.1.map (·.map AggregationTree.unweighted) ∧
        (compiler.unweighted.used uses).suggestion = (compiler.used uses).suggestion ∧
        (compiler.unweighted.used uses).searchIndex = (compiler.used uses).searchIndex ∧
        (compiler.unweighted.used uses).aggregateIndex.1 = (compiler.used uses).aggregateIndex.1 ∧
        (compiler.unweighted.used uses).aggregateField.1 = (compiler.used uses).aggregateField.1 ∧
        (compiler.unweighted.used uses).isAggregateNested = (compiler.used uses).isAggregateNested) ∧
      (compiler.unweighted.used uses).scans = (compiler.used uses).scans.map ScanRequest.unweighted ∧
      (∀ F G, (compiler.used uses).query.1 = .ok F → (compiler.unweighted.used uses).query.1 = .ok G →
        ∀ document, G.holds document = F.holds document) ∧
      ∀ T U, (compiler.used uses).aggregation.1 = .ok (some T) →
        (compiler.unweighted.used uses).aggregation.1 = .ok (some U) →
        U.filters = T.filters.map Fragment.unweighted ∧
          List.Forall₂ (fun F G => ∀ document, G.holds document = F.holds document) T.filters U.filters := by
  refine ⟨Setup.start_unweighted setup, fun compiler hstart uses => ?_⟩
  have hcluster : compiler.environment.executor.Weightless := by
    rw [← Option.some.inj (hexecutor.symm.trans (Setup.started_of_ok hstart).executor_eq)]
    exact cluster.executor_weightless
  have hweightless : (compiler.used uses).environment.executor.Weightless := by
    rw [used_environment]
    exact hcluster
  rw [used_unweighted hcluster, query_unweighted hweightless, aggregation_unweighted hweightless,
    aggregateIndex_unweighted, aggregateField_unweighted]
  refine ⟨⟨rfl, rfl, rfl, rfl, rfl, rfl, rfl⟩, rfl, fun F G hF hG document => ?_, fun T U hT hU => ?_⟩
  · rw [hF] at hG
    obtain rfl := Except.ok.inj hG
    exact F.holds_unweighted document
  · rw [hT] at hU
    obtain rfl := Option.some.inj (Except.ok.inj hU)
    rw [AggregationTree.filters_unweighted]
    refine ⟨rfl, List.forall₂_map_right_iff.mpr (List.forall₂_same.mpr fun F _ document => ?_)⟩
    exact F.holds_unweighted document

/-- Two indexes, and one author. -/
def austen : Cluster where
  mappings := [("authors", .keyed "authors" "id"), ("books", .keyed "books" "id")]
  documents := [("authors", [.obj [("id", .int 7), ("name", .str "Austen")]])]

/-- Books with a title and by an author with a name, all of it weighted. -/
def weightedSearch : Setup where
  index := "books"
  request := { query := some (.conjunction [
    (Tree.word "title" (.str "Emma")).withBoost (.ofInt .single 2),
    (Tree.expansion (.unnamed "author" "authors" "id")
      ((Tree.word "name" (.str "Austen")).withBoost (.ofInt .single 2))).withBoost (.ofInt .single 2)]) }
  resolver := some austen.resolver
  executor := some austen.executor

/-- After one scan, which is the same up to boosts, the two compilers give different fragments that hold of
the same documents. -/
theorem weightless_weightedSearch : ∃ compiler F G, weightedSearch.start = .ok compiler ∧
    weightedSearch.unweighted.start = .ok compiler.unweighted ∧
    (compiler.used [.call .query]).query.1 = .ok F ∧
    (compiler.unweighted.used [.call .query]).query.1 = .ok G ∧
    (compiler.used [.call .query]).scans.length = 1 ∧
    (compiler.unweighted.used [.call .query]).scans =
      (compiler.used [.call .query]).scans.map ScanRequest.unweighted ∧
    F.toJson ≠ G.toJson ∧ ∀ document, G.holds document = F.holds document := by
  have hrun : (weightedSearch.start.toOption.any fun compiler =>
      (compiler.used [.call .query]).query.1.toOption.any fun F =>
        (compiler.unweighted.used [.call .query]).query.1.toOption.any fun G =>
          decide ((compiler.used [.call .query]).scans.length = 1) && decide (F.toJson ≠ G.toJson)) =
      true := by
    decide +kernel
  simp only [Option.any_eq_true, toOption_eq_some, Bool.and_eq_true, decide_eq_true_eq] at hrun
  obtain ⟨compiler, hstart, F, hF, G, hG, hlength, hne⟩ := hrun
  have hexecutor : weightedSearch.executor = some austen.executor := rfl
  obtain ⟨hstart', hall⟩ := weightless hexecutor
  obtain ⟨-, hscans, hholds, -⟩ := hall compiler hstart [.call .query]
  refine ⟨compiler, F, G, hstart, ?_, hF, hG, hlength, hscans, hne, hholds F G hF hG⟩
  rw [hstart', hstart]
  rfl

end Compiler

end LinkedSearch
