import LinkedSearch.Cluster
import LinkedSearch.Proofs.Calling
import LinkedSearch.Proofs.Pending

/-! # Every expansion is replaced once

The expansions in an expansion are listed before the first of them is resolved. A compiler whose query
has no crossing never finds one of them gone:

* `Environment.Detached`: surroundings that report nothing about nodes of the query.
* `aggregate_reports`: what aggregates report.
* `never_misplaced`: no call on a compiler of an uncrossed query reports a missing expansion. -/

namespace LinkedSearch

open Query (Aggregate AggregateLevel Arena Kind Label NodeId RangeEntry Tree)
open Schema (Mapping)

/-! ## Surroundings -/

/-- **Detached** surroundings know nothing about the nodes of a query, so that none of their errors is
about one that should be an expansion. -/
structure Environment.Detached (env : Environment) : Prop where
  mapping : ∀ index kind, env.resolver.mapping index ≠ .error (.notAnExpansion kind)
  joinPath : ∀ target link kind, env.resolver.joinPath target link ≠ .error (.notAnExpansion kind)
  analyzer : ∀ field type text kind, env.analyzer field type text ≠ .error (.notAnExpansion kind)
  executor : ∀ earlier request kind, env.executor earlier request ≠ .error (.notAnExpansion kind)
  page : ∀ earlier request scan, env.executor earlier request = .ok scan →
    ∀ number kind, scan.page number ≠ .error (.notAnExpansion kind)

/-- Errors that are not about a node that should be an expansion. -/
def Error.isPlaced : Error → Prop
  | .notAnExpansion _ => False
  | _ => True

theorem Error.isPlaced_iff {error : Error} :
    error.isPlaced ↔ ∀ kind, error ≠ .notAnExpansion kind := by
  cases error <;> simp [isPlaced]

/-- Reading the pages of a scan reports an error of a page, or that the scan has failed. -/
theorem OpenScan.readFrom_isPlaced {index : String} {scan : OpenScan}
    (hpage : ∀ number error, scan.page number = .error error → error.isPlaced) (next seen : Nat)
    (collected : Collected) (error : Error)
    (h : (scan.readFrom index next seen collected).outcome = .error error) : error.isPlaced := by
  induction next, seen, collected using OpenScan.readFrom.induct scan with
  | case1 next seen collected hlt error' hpage' =>
    rw [readFrom, if_pos hlt, hpage'] at h
    cases h
    exact hpage next _ hpage'
  | case2 next seen collected hlt page hpage' hfailures =>
    rw [readFrom, if_pos hlt, hpage'] at h
    simp only [if_pos hfailures] at h
    cases h
    trivial
  | case3 next seen collected hlt page hpage' hfailures hhits =>
    rw [readFrom, if_pos hlt, hpage'] at h
    simp only [if_neg hfailures, if_pos hhits] at h
    cases h
    trivial
  | case4 next seen collected hlt page hpage' hfailures hhits ih =>
    rw [readFrom, if_pos hlt, hpage'] at h
    simp only [if_neg hfailures, if_neg hhits] at h
    exact ih h
  | case5 next seen collected hlt =>
    rw [readFrom, if_neg hlt] at h
    exact absurd h (by simp)

/-- No scan reports on a node of the query. -/
theorem Environment.Detached.run_isPlaced {env : Environment} (h : env.Detached)
    (earlier : List ScanRequest) (request : ScanRequest) (error : Error)
    (hrun : (env.executor.run earlier request).outcome = .error error) : error.isPlaced := by
  unfold Executor.run at hrun
  cases hscan : env.executor earlier request with
  | error error' =>
    rw [hscan] at hrun
    cases hrun
    exact Error.isPlaced_iff.mpr fun kind heq => h.executor earlier request kind (heq ▸ hscan)
  | ok scan =>
    rw [hscan] at hrun
    have hrun : (scan.collect request.index).outcome = .error error := hrun
    unfold OpenScan.collect at hrun
    split at hrun
    · cases hrun
      trivial
    · refine OpenScan.readFrom_isPlaced (fun number error' hpage => ?_) _ _ _ error hrun
      exact Error.isPlaced_iff.mpr fun kind heq =>
        h.page earlier request scan hscan number kind (heq ▸ hpage)

/-- Detached surroundings report nothing but placed errors. -/
theorem Environment.Detached.reports {env : Environment} (h : env.Detached) :
    env.Reports Error.isPlaced where
  ordinary := by
    intro error hordinary
    cases error with
    | notAnExpansion kind => exact absurd hordinary (by simp [Error.isOrdinary])
    | _ => trivial
  mapping := fun index _ heq => Error.isPlaced_iff.mpr fun kind hkind =>
    h.mapping index kind (hkind ▸ heq)
  joinPath := fun target link _ heq => Error.isPlaced_iff.mpr fun kind hkind =>
    h.joinPath target link kind (hkind ▸ heq)
  analyzer := fun field type text _ heq => Error.isPlaced_iff.mpr fun kind hkind =>
    h.analyzer field type text kind (hkind ▸ heq)

/-- Compilers of a cluster are detached. -/
theorem Cluster.detached (cluster : Cluster) (settings : Settings) (tokenizer : TokenizerSettings) :
    Environment.Detached ⟨settings, cluster.resolver, cluster.executor, tokenizer.analyzer⟩ where
  mapping := by
    intro index kind h
    have h : cluster.mapping index = _ := h
    unfold Cluster.mapping at h
    split at h <;> cases h
  joinPath _ _ _ h := by cases h
  analyzer _ _ _ _ h := by cases h
  executor := by
    intro earlier request kind h
    have h : cluster.openScan request = _ := h
    unfold Cluster.openScan Cluster.hits Cluster.search at h
    split at h <;> cases h
  page := by
    intro earlier request scan h number kind hpage
    have h : cluster.openScan request = _ := h
    unfold Cluster.openScan at h
    cases hhits : cluster.hits request with
    | error error => rw [hhits] at h; cases h
    | ok hits =>
      rw [hhits] at h
      cases h
      cases hpage

namespace Compile

variable {α β : Type} {env : Environment} {p q : Progress} {P : Error → Prop}

/-! ## Aggregates -/

section Aggregates

variable (hP : env.Reports P)

include hP

/-- The buckets of a range aggregate. -/
theorem parseAll_blames {γ : Type} (bound : Json → Option γ) (text : String) :
    Blames env P (ofExcept (RangeEntry.parseAll bound text)) := by
  refine .ofExcept fun error h => hP.ordinary error ?_
  unfold RangeEntry.parseAll at h
  split at h
  · cases h
    rfl
  · split at h <;> cases h
    rfl

/-- The aggregation of a level. -/
theorem aggregation_blames (level : AggregateLevel) : Blames env P (aggregation env level) := by
  unfold aggregation
  split
  · refine (mappingOf_blames hP _).bind fun mapping => ?_
    split
    · split
      · exact .pure _
      · exact .throw (hP.ordinary _ rfl)
    · exact .pure _
  · refine (mappingOf_blames hP _).bind fun mapping => ?_
    split
    · exact (parseAll_blames hP _ _).bind fun _ => .pure _
    · exact (parseAll_blames hP _ _).bind fun _ => .pure _
  · refine Blames.bind (.look fun md => ?_) fun _ => .pure _
    unfold Metadata.primaryMapping
    rw [wp_bind, wp_get]
    exact Metadata.mapping_fails hP.mapping _
  · exact .pure _

/-- The check of an inner level. -/
theorem checkInner_blames (outer inner : AggregateLevel) (compiled : Aggregation) :
    Blames env P (checkInner env outer compiled inner) := by
  have howner : Blames env P (do
      let owner ← ownerOf env inner.field
      if owner.index ≠ (← MonadState.get).metadata.primary.index then
        throw Error.foreignSubAggregate : Compile Unit) := by
    refine (ownerOf_blames hP _).bind fun owner => .get fun q => ?_
    split
    · exact .throw (hP.ordinary _ rfl)
    · exact .pure _
  unfold checkInner
  simp only
  split
  · exact (Blames.throw (hP.ordinary _ rfl)).bind fun _ => howner
  · exact howner

end Aggregates

/-- **Reporting**: a computation that keeps a condition on states, and reports errors with some property
when it fails. -/
def ReportsIn (I : Progress → Prop) (P : Error → Prop) (x : Compile α) : Prop :=
  ∀ p, I p → wp x (fun _ q => I q) (fun error _ => P error) p

namespace ReportsIn

variable {I : Progress → Prop}

theorem bind {x : Compile β} {f : β → Compile α} (hx : ReportsIn I P x)
    (hf : ∀ b, ReportsIn I P (f b)) : ReportsIn I P (x >>= f) := by
  intro p hp
  rw [wp_bind]
  exact wp_mono (hx p hp) (fun b q hq => hf b q hq) fun _ _ h => h

theorem pure (a : α) : ReportsIn I P (pure a) := fun _ hp => hp

/-- Lookups report what they are to be blamed for. -/
theorem of_looks {x : Compile α} (hI : ∀ p q, I p → Looked env p q → I q)
    (h : ∀ p, I p → Looks env x p) (hblames : Blames env P x) : ReportsIn I P x := by
  intro p hp
  have hbreaks : Breaks P p.draft.arena x p := .of_looks (.refl _) (h p hp) hblames
  obtain ⟨outcome, q, hexec, hlooked⟩ := h p hp
  cases outcome with
  | error error => exact (wp_of_error hexec).mpr ((wp_of_error hexec).mp hbreaks).2
  | ok a => exact (wp_of_ok hexec).mpr (hI p q hp hlooked)

end ReportsIn

section Reporting

variable {I : Progress → Prop} (hsound : ∀ p, I p → Sound env p)
  (hI : ∀ p q, I p → Looked env p q → I q) (hP : env.Reports P)
  (hroot : ReportsIn I P (rootQuery env))

include hsound hI hP hroot

omit hsound hI hP in
theorem inScope_reports (level : AggregateLevel) (tree : AggregationTree) :
    ReportsIn I P (inScope env level tree) := by
  unfold inScope
  split
  · exact .pure _
  · exact hroot.bind fun _ => .pure _

/-- **Chains of aggregates** report what the query reports, and what their fields give rise to. -/
theorem levels_reports (outer : AggregateLevel) (inner : List AggregateLevel) :
    ReportsIn I P (levels env outer inner) := by
  have haggregation : ReportsIn I P (aggregation env outer) :=
    .of_looks hI (fun p hp => aggregation_looks (hsound p hp) outer) (aggregation_blames hP outer)
  induction inner generalizing outer with
  | nil =>
    rw [levels]
    exact haggregation.bind fun _ => inScope_reports hroot outer _
  | cons next rest ih =>
    rw [levels]
    refine haggregation.bind fun compiled => ?_
    refine (ReportsIn.of_looks hI (fun p hp => checkInner_looks (hsound p hp) outer next compiled)
      (checkInner_blames hP outer next compiled)).bind fun _ => ?_
    refine (ih next ?_).bind fun _ => inScope_reports hroot outer _
    exact .of_looks hI (fun p hp => aggregation_looks (hsound p hp) next) (aggregation_blames hP next)

/-- The compiled aggregate of a draft. -/
theorem aggregate_reports (hp : I { p with aggregating := true }) :
    wp (aggregate env) (fun _ _ => True) (fun error _ => P error) p := by
  unfold aggregate
  rw [wp_bind, wp_get]
  split
  · trivial
  · next aggregate _ =>
    rw [wp_within]
    refine wp_mono (Q := fun _ q => I q) ?_ (fun _ _ _ => trivial) fun _ _ h => h
    exact (levels_reports hsound hI hP hroot aggregate.outer aggregate.inner).bind
      (fun tree => .pure (some tree)) _ hp

end Reporting

/-! ## Compilations of the draft -/

/-- A state of an uncrossed draft. -/
def RootUncrossed (env : Environment) (p : Progress) : Prop :=
  Rooted env p ∧ p.draft.arena.Uncrossed

/-- **Rewriting** is a discipline of uncrossed drafts. -/
theorem rewriting_discipline (env : Environment) :
    Discipline env (RootUncrossed env)
      (fun p q => Evolves env p q ∧ p.draft.arena.Rewrites q.draft.arena)
      (fun p q => Evolves env p q ∧ p.draft.arena.Rewrites q.draft.arena) where
  sound := fun _ h => h.1.1
  keep := by
    rintro p q ⟨⟨hp, hroot⟩, huncrossed⟩ ⟨hpq, hrewrites⟩
    refine ⟨⟨hpq.sound, fun root h => ?_⟩, hrewrites.uncrossed hp.ascending huncrossed⟩
    exact Nat.lt_of_lt_of_le (hroot root (hpq.root_eq ▸ h)) hpq.size_le
  looked := by
    intro p q h hl
    have hsame : Evolves env p q ∧ p.draft.arena.Rewrites q.draft.arena :=
      ⟨hl.evolves h.1.1, by rw [hl.arena_eq]⟩
    exact ⟨hsame, hsame⟩
  trans := fun _ _ _ h h' => ⟨h.1.trans h'.1, h.2.trans h'.2⟩
  fail := fun _ _ _ h h' => ⟨h.1.trans h'.1, h.2.trans h'.2⟩

section Detached

variable (henv : env.Detached)

include henv

/-- The query of an uncrossed draft rewrites the arena, and reports placed errors. -/
theorem rootQuery_rewrites (hp : RootUncrossed env p) :
    wp (rootQuery env) (fun _ q => Evolves env p q ∧ p.draft.arena.Rewrites q.draft.arena)
      (fun error q => (Evolves env p q ∧ p.draft.arena.Rewrites q.draft.arena) ∧ error.isPlaced)
      p := by
  obtain ⟨⟨hsound, hroot⟩, huncrossed⟩ := hp
  unfold rootQuery
  rw [wp_bind, wp_get]
  split
  · next root hroot' =>
    unfold query
    rw [wp_bind, wp_arena]
    have hlt := hroot root hroot'
    refine wp_mono (wp_and (wp_and (nodeWithin_steps _ root p hsound) (nodeWithin_firm henv.reports
      henv.run_isPlaced _ root p hsound hlt huncrossed)) (wp_exec _ _)) ?_ ?_
    · rintro fragment q ⟨⟨⟨hpq, -⟩, -⟩, hexec⟩
      exact ⟨hpq, nodeWithin_rewrites _ root p q fragment hsound hlt hexec⟩
    · rintro error q ⟨⟨hpq, hrewrites, hplaced⟩, -⟩
      exact ⟨⟨hpq, hrewrites⟩, hplaced⟩
  · exact ⟨.refl hsound, .refl _⟩

theorem rootQuery_obeys_rewriting : Obeys (RootUncrossed env)
    (fun p q => Evolves env p q ∧ p.draft.arena.Rewrites q.draft.arena)
    (fun p q => Evolves env p q ∧ p.draft.arena.Rewrites q.draft.arena) (rootQuery env) :=
  fun _ hp => wp_mono (rootQuery_rewrites henv hp) (fun _ _ h => h) fun _ _ h => h.1

theorem rootQuery_reports : ReportsIn (RootUncrossed env) Error.isPlaced (rootQuery env) :=
  fun p hp => wp_mono (rootQuery_rewrites henv hp)
    (fun _ q h => (rewriting_discipline env).keep p q hp h) fun _ _ h => h.2

end Detached

end Compile

/-! ## Calls -/

namespace Compiler

open Compile

variable {compiler : Compiler}

/-- **One call** on an idle compiler of an uncrossed draft leaves an uncrossed draft. -/
theorem perform_uncrossed (henv : compiler.environment.Detached) (h : compiler.Idle)
    (huncrossed : compiler.progress.draft.arena.Uncrossed) (call : Call) :
    (compiler.perform call).2.progress.draft.arena.Uncrossed := by
  have hfilter : RootUncrossed compiler.environment { compiler.progress with aggregating := true } :=
    ⟨h.rootedFilter, huncrossed⟩
  have hkept : ∀ q, Performs (fun p q => Evolves compiler.environment p q ∧
      p.draft.arena.Rewrites q.draft.arena) compiler.progress q → q.draft.arena.Uncrossed := by
    intro q hdone
    cases hdone with
    | nothing => exact huncrossed
    | query h' => exact h'.2.uncrossed h.sound.ascending huncrossed
    | filter h' => exact h'.2.uncrossed h.sound.ascending huncrossed
  rcases perform_obeys (rewriting_discipline _) (rootQuery_obeys_rewriting henv)
    ⟨h.rootedState, huncrossed⟩ hfilter call with ⟨-, hdone⟩ | ⟨-, hdone⟩
  · exact hkept _ hdone
  · exact hkept _ hdone

/-- Calls leave an uncrossed draft uncrossed, whatever their outcomes. -/
theorem after_uncrossed (henv : compiler.environment.Detached) (h : compiler.Idle)
    (huncrossed : compiler.progress.draft.arena.Uncrossed) (calls : List Call) :
    (compiler.after calls).progress.draft.arena.Uncrossed := by
  induction calls generalizing compiler with
  | nil => exact huncrossed
  | cons call rest ih =>
    exact ih ((perform_environment compiler call).symm ▸ henv) (h.perform call)
      (perform_uncrossed henv h huncrossed call)

/-- **Every expansion is there when it is its turn.** After any calls on a compiler of a query without
crossings, whatever the outcomes of these calls, neither the query nor the aggregate of it finds
anything else than an expansion where one is to be resolved. Anywhere but in an expansion parent scopes
and expansions may stand as they like, and in an expansion only those parent scopes matter that have
expansions in them and further ones after them. -/
theorem never_misplaced {setup : Setup} (hstart : setup.start = .ok compiler)
    (henv : compiler.environment.Detached)
    (huncrossed : compiler.progress.draft.arena.Uncrossed) (calls : List Call) (kind : String) :
    (compiler.after calls).query.1 ≠ .error (.notAnExpansion kind) ∧
      (compiler.after calls).aggregation.1 ≠ .error (.notAnExpansion kind) := by
  have hidle := idle_of_started (Setup.started_of_ok hstart)
  have hafter := hidle.after calls
  have huncrossed' := after_uncrossed henv hidle huncrossed calls
  rw [← after_environment compiler calls] at henv
  have hplaced : ∀ {α : Type} {outcome : Except Error α}, outcome = .error (.notAnExpansion kind) →
      (∃ a, outcome = .ok a ∧ True) ∨ (∃ error, outcome = .error error ∧ error.isPlaced) → False := by
    rintro α outcome rfl (⟨a, h, -⟩ | ⟨error, h, hplaced⟩)
    · cases h
    · cases h
      exact hplaced
  constructor
  · intro h
    refine hplaced h ?_
    rcases run_spec (rootQuery_rewrites henv ⟨hafter.rootedState, huncrossed'⟩) with
      ⟨fragment, hok, -⟩ | ⟨error, herror, -, hplaced⟩
    · exact .inl ⟨fragment, hok, trivial⟩
    · exact .inr ⟨error, herror, hplaced⟩
  · intro h
    refine hplaced h ?_
    have hstart : RootUncrossed (compiler.after calls).environment
        { (compiler.after calls).progress with aggregating := true } :=
      ⟨⟨⟨hafter.sound.ascending, hafter.sound.faithful⟩, hafter.rooted⟩, huncrossed'⟩
    rcases run_spec (aggregate_reports (fun _ h => h.1.1)
      (fun p q hp hl => (rewriting_discipline _).keep p q hp
        ((rewriting_discipline _).looked p q hp hl).1) henv.reports (rootQuery_reports henv)
      hstart) with ⟨tree, hok, -⟩ | ⟨error, herror, hplaced⟩
    · exact .inl ⟨tree, hok, trivial⟩
    · exact .inr ⟨error, herror, hplaced⟩

/-- Compilers of a cluster that were started with the tokenizer of the settings are detached. -/
theorem detached_of_cluster {setup : Setup} (h : setup.Started compiler) {cluster : Cluster}
    (hresolver : setup.resolver = some cluster.resolver)
    (hexecutor : setup.executor = some cluster.executor) (hanalyzer : setup.analyzer = none) :
    compiler.environment.Detached := by
  have hanalyzer' : compiler.environment.analyzer = setup.settings.tokenizer.analyzer := by
    rw [h.analyzer_eq, hanalyzer]
    rfl
  have henv : compiler.environment = ⟨compiler.environment.settings, cluster.resolver,
      cluster.executor, setup.settings.tokenizer.analyzer⟩ := by
    rw [Option.some.inj (hresolver.symm.trans h.resolver_eq),
      Option.some.inj (hexecutor.symm.trans h.executor_eq), ← hanalyzer']
  rw [henv]
  exact cluster.detached _ _

/-- A cluster of books and their authors. -/
def booksAndAuthors : Cluster where
  mappings := [
    ("authors", (Mapping.keyed "authors" "id").withField "name" { type := .keyword none }),
    ("books", (Mapping.keyed "books" "id").withField "author" { type := .long })]
  documents := [("authors", []), ("books", [])]

/-- Books by authors, which are found by a condition on other books by authors. -/
def authorSearch (inner : Tree → Tree → Tree) : Setup where
  index := "books"
  request :=
    let byAuthor := Tree.expansion (.unnamed "author" "authors" "id")
    { links := [.unnamed "author" "authors" "id"]
      query := some (byAuthor (inner (byAuthor (.word "name" (.str "x")))
        (byAuthor (.word "name" (.str "y"))))) }
  resolver := some booksAndAuthors.resolver
  executor := some booksAndAuthors.executor

/-- A parent scope with an expansion in it may stand after another expansion. -/
theorem never_misplaced_authorSearch : ∃ compiler,
    (authorSearch fun x y => .conjunction [y, .parent "t" [x]]).start = .ok compiler ∧
      compiler.environment.Detached ∧ compiler.progress.draft.arena.Uncrossed ∧
      ∀ calls kind, (compiler.after calls).query.1 ≠ .error (.notAnExpansion kind) ∧
        (compiler.after calls).aggregation.1 ≠ .error (.notAnExpansion kind) := by
  have hrun : ((authorSearch fun x y => .conjunction [y, .parent "t" [x]]).start.toOption.any
      fun compiler => compiler.progress.draft.arena.crossingFree) = true := by
    decide +kernel
  simp only [Option.any_eq_true, toOption_eq_some] at hrun
  obtain ⟨compiler, hstart, hfree⟩ := hrun
  have hstarted := Setup.started_of_ok hstart
  have henv : compiler.environment.Detached :=
    @detached_of_cluster _ _ hstarted booksAndAuthors rfl rfl rfl
  have huncrossed := hstarted.sound.ascending.uncrossed_iff.mpr hfree
  exact ⟨compiler, hstart, henv, huncrossed, never_misplaced hstart henv huncrossed⟩

/-- **Before another expansion**, a parent scope with an expansion in it is compiled as the visibility
of that other one, so that its own expansion is gone when it is its turn. -/
theorem misplaced_authorSearch : ∃ compiler,
    (authorSearch fun x y => .conjunction [.parent "t" [x], y]).start = .ok compiler ∧
      compiler.query.1 = .error (.notAnExpansion "array") := by
  have hrun : ((authorSearch fun x y => .conjunction [.parent "t" [x], y]).start.toOption.any
      fun compiler => match compiler.query.1 with
        | .error error => decide (error = .notAnExpansion "array")
        | .ok _ => false) = true := by
    decide +kernel
  simp only [Option.any_eq_true, toOption_eq_some] at hrun
  obtain ⟨compiler, hstart, hquery⟩ := hrun
  refine ⟨compiler, hstart, ?_⟩
  split at hquery
  · next error heq => rw [heq, of_decide_eq_true hquery]
  · exact absurd hquery (by simp)

end Compiler

end LinkedSearch
