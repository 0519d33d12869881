import LinkedSearch.Proofs.Boosting
import LinkedSearch.Proofs.Explicit

/-! # A synthesized link is as good as an explicit one

Two compilers, one of a query on the index of a synthesized link and one of the same query with the link
written by the user, are used in the same way. If nothing but the primary index owns the field of the link,
they start alike, every call on them ends alike, and they ask for the same scans in the same order.

* `Compile.aggregate_inStep`: aggregates stay in step.
* `Compiler.Explicated`, `Explicated.used`: two compilers, and sequences of uses.
* `Compiler.synthesized_eq_explicit`: everything that can be asked of the two compilers. -/

namespace LinkedSearch

open Query (AggregateLevel Kind Label NodeId Request Tree)
open Schema (Mapping)

/-! ## Aggregates -/

namespace Compile

variable {env : Environment} {md : Metadata} {p q : Progress}

/-- The aggregation of a level. -/
theorem aggregation_inStep (h : Explicated env md p q) (level : AggregateLevel) :
    InStep (Explicated env md) (aggregation env level) (aggregation env level) p q := by
  unfold aggregation
  split
  · unfold tally
    refine (h.mappingOf _).bind fun mapping p q h => ?_
    split
    · split
      · exact .pure h _
      · exact .throw h _
    · exact .pure h _
  · unfold ranges
    refine (h.mappingOf _).bind fun mapping p q h => ?_
    split <;> exact (InStep.ofExcept h _).bind fun ranges p q h => .pure h _
  · unfold significant Metadata.primaryMapping
    have hprimary : ∀ md', md.Same env.resolver md' → ∃ md₁,
        exec (do Metadata.mapping env.resolver (← get).primary.index) md' =
          (env.resolver.mapping md.primary.index, md₁) ∧ md'.Grows env.resolver md₁ := by
      intro md' hsame
      rw [← hsame.primary_eq]
      exact Metadata.exec_mapping hsame.faithful md'.primary.index
    exact (h.look hprimary).bind fun mapping p q h => .pure h _
  · exact .pure h _

/-- The check of an inner level. -/
theorem checkInner_inStep (h : Explicated env md p q) (outer inner : AggregateLevel)
    (compiled : Aggregation) :
    InStep (Explicated env md) (checkInner env outer compiled inner) (checkInner env outer compiled inner)
      p q := by
  have howner : ∀ {p q}, Explicated env md p q → InStep (Explicated env md) (do
        let owner ← ownerOf env inner.field
        if owner.index ≠ (← get).metadata.primary.index then throw Error.foreignSubAggregate : Compile Unit)
      (do
        let owner ← ownerOf env inner.field
        if owner.index ≠ (← get).metadata.primary.index then throw Error.foreignSubAggregate) p q := by
    intro p q h
    refine (h.ownerOf inner.field).bind fun owner p q h => .get ?_
    rw [h.left.primary_eq, h.right.primary_eq]
    split
    · exact .throw h _
    · exact .pure h _
  unfold checkInner
  simp only
  split
  · exact (InStep.throw h _).bind fun _ p q h => howner h
  · exact howner h

section Levels

variable (henv : Straight env)

include henv

/-- A tree of aggregations in the scope of a level. -/
theorem inScope_inStep (h : Explicated env md p q) (level : AggregateLevel) (tree : AggregationTree) :
    InStep (Explicated env md) (inScope env level tree) (inScope env level tree) p q := by
  unfold inScope
  split
  · exact .pure h _
  · unfold overNested
    exact (rootQuery_inStep henv h).bind fun filter p q h => .pure h _

/-- **Chains of aggregates.** -/
theorem levels_inStep (h : Explicated env md p q) (outer : AggregateLevel) (inner : List AggregateLevel) :
    InStep (Explicated env md) (levels env outer inner) (levels env outer inner) p q := by
  induction inner generalizing outer p q with
  | nil =>
    rw [levels]
    exact (aggregation_inStep h outer).bind fun compiled p q h => inScope_inStep henv h outer _
  | cons next rest ih =>
    rw [levels]
    refine (aggregation_inStep h outer).bind fun compiled p q h => ?_
    refine (checkInner_inStep h outer next compiled).bind fun _ p q h => ?_
    exact (ih h next).bind fun tree p q h => inScope_inStep henv h outer _

/-- **Aggregates** stay in step. -/
theorem aggregate_inStep (h : Explicated env md p q) :
    InStep (Explicated env md) (aggregate env) (aggregate env) p q := by
  unfold aggregate
  refine .get ?_
  rw [show p.draft.aggregate = q.draft.aggregate by rw [h.draft_eq]; rfl]
  split
  · exact .pure h _
  · next aggregate _ =>
    have hentered : Explicated env md { p with aggregating := true } { q with aggregating := true } :=
      { h with aggregating_eq := rfl }
    exact InStep.within (fun s t hst => { hst with aggregating_eq := rfl })
      ((levels_inStep henv hentered aggregate.outer aggregate.inner).bind fun tree p q h => .pure h _)

end Levels

end Compile

/-! ## Compilers -/

namespace Compiler

open Compile

variable {md : Metadata} {explicit compiler : Compiler}

/-- **A compiler of explicit links**, and another one of the links that there are. -/
structure Explicated (md : Metadata) (explicit compiler : Compiler) : Prop where
  environment_eq : explicit.environment = compiler.environment
  queried_eq : explicit.queried = compiler.queried
  progress : Compile.Explicated compiler.environment md explicit.progress compiler.progress

namespace Explicated

/-- A computation that stays in step, run on two compilers. -/
theorem run {α : Type} {action : Environment → Compile α} (h : Explicated md explicit compiler)
    (hstep : InStep (Compile.Explicated compiler.environment md) (action compiler.environment)
      (action compiler.environment) explicit.progress compiler.progress) :
    (explicit.run action).1 = (compiler.run action).1 ∧
      Explicated md (explicit.run action).2 (compiler.run action).2 := by
  have hrun : ∀ c : Compiler, c.run action = ((exec (action c.environment) c.progress).1,
      { c with progress := (exec (action c.environment) c.progress).2 }) := fun _ => rfl
  rw [hrun, hrun, h.environment_eq]
  exact ⟨hstep.1, rfl, h.queried_eq, hstep.2⟩

/-- Where the aggregate is sent. -/
theorem aggregateIndex (h : Explicated md explicit compiler) :
    explicit.aggregateIndex.1 = compiler.aggregateIndex.1 ∧
      Explicated md explicit.aggregateIndex.2 compiler.aggregateIndex.2 := by
  refine h.run (.get ?_)
  simp only
  rw [show explicit.progress.draft.aggregate = compiler.progress.draft.aggregate by
      rw [h.progress.draft_eq]; rfl,
    show explicit.progress.draft.suggestion = compiler.progress.draft.suggestion by
      rw [h.progress.draft_eq]; rfl]
  split
  · exact (h.progress.ownerOf _).bind fun owner p q h => .pure h _
  · exact .throw h.progress _

/-- What the aggregated field is called there. -/
theorem aggregateField (h : Explicated md explicit compiler) :
    explicit.aggregateField.1 = compiler.aggregateField.1 ∧
      Explicated md explicit.aggregateField.2 compiler.aggregateField.2 := by
  refine h.run (.get ?_)
  rw [show explicit.progress.draft.aggregate = compiler.progress.draft.aggregate by
    rw [h.progress.draft_eq]; rfl]
  split
  · exact .throw h.progress _
  · simp only
    split
    · exact .pure h.progress _
    · refine (h.progress.ownerOf _).bind fun owner p q h => ?_
      split <;> exact .pure h _

section Uses

variable (h : Explicated md explicit compiler) (henv : Straight compiler.environment)

include h henv

/-- **The query.** -/
theorem query : explicit.query.1 = compiler.query.1 ∧ Explicated md explicit.query.2 compiler.query.2 := by
  obtain ⟨houtcome, hafter⟩ := h.run (rootQuery_inStep henv h.progress)
  exact ⟨houtcome, hafter.environment_eq, rfl, hafter.progress⟩

/-- **The aggregation.** -/
theorem aggregation : explicit.aggregation.1 = compiler.aggregation.1 ∧
    Explicated md explicit.aggregation.2 compiler.aggregation.2 :=
  h.run (aggregate_inStep henv h.progress)

/-- **One use** of two compilers. -/
theorem use (use : Use) : Explicated md (explicit.use use) (compiler.use use) := by
  cases use with
  | call call =>
    cases call with
    | query => exact (h.query henv).2
    | aggregation => exact (h.aggregation henv).2
    | suggestion => exact h
  | aggregateIndex => exact h.aggregateIndex.2
  | aggregateField => exact h.aggregateField.2
  | searchIndex | aggregateNested | dump => exact h

/-- **Uses** of two compilers. -/
theorem used (uses : List Use) : Explicated md (explicit.used uses) (compiler.used uses) := by
  induction uses generalizing explicit compiler with
  | nil => exact h
  | cons use rest ih => exact ih (h.use henv use) (by rwa [use_environment])

end Uses

/-- The query is sent to the primary index by both of them. -/
theorem searchIndex (h : Explicated md explicit compiler) (henv : Straight compiler.environment) :
    explicit.searchIndex = compiler.searchIndex := by
  have hprimary : ∀ c : Compiler, c.environment.settings.allowSingleIndex = false →
      c.searchIndex = if !c.queried then .error .notCompiled else .ok c.progress.metadata.primary.index := by
    intro c hsingle
    unfold Compiler.searchIndex
    rw [hsingle]
    cases c.queried with
    | false => rfl
    | true =>
      simp only
      rcases c.progress.metadata.used with _ | ⟨link, _ | ⟨other, rest⟩⟩ <;> rfl
  rw [hprimary _ (by rw [h.environment_eq, henv.allowSingleIndex_eq]), hprimary _ henv.allowSingleIndex_eq,
    h.queried_eq, h.progress.left.primary_eq, h.progress.right.primary_eq]

end Explicated

end Compiler

/-- The same request with another query. -/
def Setup.asking (setup : Setup) (query : Tree) : Setup :=
  { setup with request := { setup.request with query := some query } }

/-- The compiler of explicit links starts beside the other one. -/
theorem Setup.start_explicit (setup : Setup) (tree : Tree) :
    (setup.asking (tree.relabel Label.explicit)).start =
      (setup.asking tree).start.map fun compiler => { compiler with
        progress := { compiler.progress with
          draft := compiler.progress.draft.relabel Label.explicit } } := by
  have hdraft : (setup.asking (tree.relabel Label.explicit)).request.draft =
      (setup.asking tree).request.draft.relabel Label.explicit :=
    (setup.asking tree).request.draft_relabel
  have hfields := Query.Draft.fieldNames_relabel Label.mild_explicit (setup.asking tree).request.draft
  refine ((setup.asking tree).start_withQuery (some (tree.relabel Label.explicit))
    (hdraft ▸ hfields)).trans ?_
  cases hstart : (setup.asking tree).start with
  | error e => rfl
  | ok compiler =>
    obtain ⟨resolver, executor, md, md', -, -, -, -, rfl⟩ := Setup.start_eq_ok.mp hstart
    show Except.ok _ = Except.ok _
    rw [show ({ (setup.asking tree).request with query := some (tree.relabel Label.explicit) } : Request) =
      (setup.asking (tree.relabel Label.explicit)).request from rfl, hdraft]

namespace Compiler

open Compile

/-- A query whose links are all written by the user but for the one around it. -/
theorem relabel_explicit_generated {inner : Tree} (label : Label) (link : Link)
    (h : ∀ label ∈ inner.preorder, label.kind.isGenerated = false) :
    (Query.Tree.node { label with kind := .expansion link true } [inner]).relabel Label.explicit =
      .node { label with kind := .expansion link false } [inner] := by
  rw [Tree.relabel_node, List.map_singleton,
    Tree.relabel_of_forall fun label hlabel => Label.explicit_of_isGenerated (h label hlabel)]
  rfl

/-- The labels of a draft that holds a query are those of the query, and the default one. -/
theorem label_of_started {setup : Setup} {compiler : Compiler} {tree : Tree}
    (h : (setup.asking tree).Started compiler) (n : NodeId) :
    compiler.progress.draft.arena.label n ∈ tree.preorder ∨
      compiler.progress.draft.arena.label n = default := by
  obtain ⟨md, hprogress⟩ := h.progress_eq
  obtain ⟨root, -, -, hlabels⟩ := (setup.asking tree).request.draft_fresh.rooted tree rfl
  rw [hprogress, ← hlabels]
  exact Query.Arena.label_mem_labels_or _ n

/-- **A synthesized link is as good as an explicit one.** Over a cluster without join paths of its own, with
settings that keep to the primary index, take a request whose query is on the index of a link, once synthesized
and without a field of its own, and once written by the user. The two start alike, or fail to with the same
error.

Let the link lead from the primary link to another one, and the links inside, which are written by the user, as
well, let their indexes exist, and let the primary link own the right field. After any uses of the two
compilers, whatever their outcomes, each further one has the same outcome, an error included, and the same scans
were asked for in the same order. -/
theorem synthesized_eq_explicit {cluster : Cluster} {setup : Setup} {label : Label} {link : Link} {inner : Tree}
    (hover : setup.Over cluster) (hfield : label.field = none)
    (hinner : ∀ label ∈ inner.preorder, label.kind.isGenerated = false) :
    (∀ e, (setup.asking (.node { label with kind := .expansion link true } [inner])).start = .error e ↔
      (setup.asking (.node { label with kind := .expansion link false } [inner])).start = .error e) ∧
    ∀ compiler, (setup.asking (.node { label with kind := .expansion link true } [inner])).start =
        .ok compiler →
      (∀ other, other = link ∨ (∃ l ∈ inner.preorder, l.kind.link? = some other) →
        other ≠ compiler.progress.metadata.primary ∧ ∃ mapping, cluster.mapping other.index = .ok mapping) →
      (exec (ownerOf compiler.environment link.rightField) compiler.progress).1 =
        .ok compiler.progress.metadata.primary →
      ∃ explicit,
        (setup.asking (.node { label with kind := .expansion link false } [inner])).start = .ok explicit ∧
        ∀ uses : List Use,
          (explicit.used uses).query.1 = (compiler.used uses).query.1 ∧
          (explicit.used uses).query.2.scans = (compiler.used uses).query.2.scans ∧
          (explicit.used uses).aggregation.1 = (compiler.used uses).aggregation.1 ∧
          (explicit.used uses).aggregation.2.scans = (compiler.used uses).aggregation.2.scans ∧
          (explicit.used uses).searchIndex = (compiler.used uses).searchIndex ∧
          (explicit.used uses).aggregateIndex.1 = (compiler.used uses).aggregateIndex.1 ∧
          (explicit.used uses).aggregateField.1 = (compiler.used uses).aggregateField.1 := by
  have hstarts := setup.start_explicit (.node { label with kind := .expansion link true } [inner])
  rw [relabel_explicit_generated label link hinner] at hstarts
  refine ⟨fun e => ?_, fun compiler hstart hlinks howner => ?_⟩
  · rw [hstarts]
    cases (setup.asking (.node { label with kind := .expansion link true } [inner])).start <;>
      simp [Except.map]
  rw [hstart] at hstarts
  refine ⟨_, hstarts, fun uses => ?_⟩
  have hstarted := Setup.started_of_ok hstart
  have hsame : compiler.progress.metadata.Same compiler.environment.resolver compiler.progress.metadata :=
    ⟨rfl, rfl, rfl, hstarted.sound.faithful⟩
  have henv : compiler.environment.resolver = cluster.resolver :=
    (Option.some.inj (hover.resolver_eq.symm.trans hstarted.resolver_eq)).symm
  have hstraight : Straight compiler.environment := by
    refine ⟨fun source target => ?_, fun index mapping h => ?_, ?_⟩
    · rw [henv]
      simp only [Cluster.resolver, Cluster.joinPath, hover.joinPaths_eq, List.find?_nil]
    · rw [henv] at h
      exact hover.names index mapping h
    · rw [hstarted.settings_eq]
      exact hover.allowSingleIndex_eq
  have hright : compiler.progress.metadata.owner compiler.environment.resolver link.rightField =
      .ok compiler.progress.metadata.primary := by
    obtain ⟨md, hfind, -⟩ := Metadata.exec_find hstarted.sound.faithful link.rightField
    rw [← howner, Compile.ownerOf, exec_look, hfind]
  have hexplicable : ∀ n, Explicable compiler.environment compiler.progress.metadata
      (compiler.progress.draft.arena.label n) := by
    intro n other hother
    rcases label_of_started hstarted n with hmem | hdefault
    · rw [Tree.preorder_node, Tree.preorders_cons, Tree.preorders_nil, List.append_nil, List.mem_cons] at hmem
      rcases hmem with hroot | hmem
      · rw [hroot] at hother ⊢
        obtain rfl : link = other := Option.some.inj hother
        obtain ⟨hforeign, hmapped⟩ := hlinks link (.inl rfl)
        exact ⟨hforeign, henv ▸ hmapped, fun _ => ⟨hfield, hright⟩⟩
      · obtain ⟨hforeign, hmapped⟩ := hlinks other (.inr ⟨_, hmem, hother⟩)
        refine ⟨hforeign, henv ▸ hmapped, fun hgenerated => ?_⟩
        rw [hinner _ hmem] at hgenerated
        exact absurd hgenerated (by simp)
    · rw [hdefault] at hother
      exact absurd hother (by simp [show (default : Label).kind.link? = none from rfl])
  have htwins : ∀ draft, draft = compiler.progress.draft.relabel Label.explicit →
      Explicated compiler.progress.metadata
        { compiler with progress := { compiler.progress with draft } } compiler := by
    rintro draft rfl
    exact ⟨rfl, rfl, ⟨rfl, rfl, rfl, rfl, rfl, hsame, hsame,
      hstarted.mapped _ List.mem_cons_self, hexplicable⟩⟩
  have hafter := (htwins _ rfl).used hstraight uses
  have hstraight' : Straight (compiler.used uses).environment := by rwa [used_environment]
  obtain ⟨hquery, hscans⟩ := hafter.query hstraight'
  obtain ⟨haggregation, hscans'⟩ := hafter.aggregation hstraight'
  exact ⟨hquery, hscans.progress.scans_eq, haggregation, hscans'.progress.scans_eq,
    hafter.searchIndex hstraight', hafter.aggregateIndex.1, hafter.aggregateField.1⟩

/-- The authors that live in a town with a name. -/
def townsfolk : Tree := .expansion (.unnamed "town" "towns" "id") (.word "name" (.str "Bath"))

/-- Books by authors from a town, over a synthesized link and over an explicit one: the same two scans, one for
the other, and the same query. -/
theorem synthesized_eq_explicit_townsfolk : ∃ compiler explicit F,
    (townSearch.asking (.generatedExpansion (.unnamed "author" "authors" "id") townsfolk)).start =
      .ok compiler ∧
    (townSearch.asking (.expansion (.unnamed "author" "authors" "id") townsfolk)).start = .ok explicit ∧
    compiler.query.1 = .ok F ∧ explicit.query.1 = .ok F ∧ compiler.query.2.scans.length = 2 ∧
    explicit.query.2.scans = compiler.query.2.scans := by
  have hrun : ((townSearch.asking (.generatedExpansion (.unnamed "author" "authors" "id")
      townsfolk)).start.toOption.any fun compiler =>
        compiler.query.1.toOption.isSome && decide (compiler.query.2.scans.length = 2) &&
        decide (compiler.progress.metadata.primary = .unnamed "id" "books" "id") &&
        decide ((exec (ownerOf compiler.environment "id") compiler.progress).1.toOption =
          some compiler.progress.metadata.primary)) = true := by
    decide +kernel
  simp only [Option.any_eq_true, toOption_eq_some, Bool.and_eq_true, decide_eq_true_eq,
    Option.isSome_iff_exists] at hrun
  obtain ⟨compiler, hstart, ⟨⟨⟨F, hF⟩, hscans⟩, hprimary⟩, howner⟩ := hrun
  have hlinks : ∀ other, other = .unnamed "author" "authors" "id" ∨
      (∃ l ∈ townsfolk.preorder, l.kind.link? = some other) →
      other ≠ compiler.progress.metadata.primary ∧ ∃ mapping, library.mapping other.index = .ok mapping := by
    rw [hprimary]
    rintro other (rfl | ⟨l, hl, hlink⟩)
    · exact ⟨by decide, _, rfl⟩
    · simp only [townsfolk, Tree.expansion, Tree.word, Tree.branch, Tree.leaf, Tree.preorder_node,
        Tree.preorders_cons, Tree.preorders_nil, List.append_nil, List.mem_cons, List.not_mem_nil,
        or_false] at hl
      rcases hl with rfl | rfl
      · obtain rfl := Option.some.inj hlink
        exact ⟨by decide, _, rfl⟩
      · exact absurd hlink (by simp [Kind.link?])
  obtain ⟨-, hsame⟩ := @synthesized_eq_explicit library townSearch { kind := .conjunction }
    (.unnamed "author" "authors" "id") townsfolk townSearch_over rfl (by decide +kernel)
  obtain ⟨explicit, hexplicit, hall⟩ := hsame compiler hstart hlinks howner
  obtain ⟨hquery, hscans', -⟩ := hall []
  exact ⟨compiler, explicit, F, hstart, hexplicit, hF, hquery.trans hF, hscans, hscans'⟩

end Compiler

end LinkedSearch
