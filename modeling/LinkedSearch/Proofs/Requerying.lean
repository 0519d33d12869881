import LinkedSearch.Cluster
import LinkedSearch.Proofs.Calling
import LinkedSearch.Proofs.SharedPaths

/-! # Compiling a query again

A query that was compiled has no expansions any more where its compilation goes, so that compiling it
again scans nothing. It gives the same fragment as long as the outermost scopes keep their nested
paths, but the leaves below a scope are not the same once its expansions are resolved.

* `Compiler.KeepsPaths`: a fragment with the nested paths that the scopes of a query have now.
* `Compiler.FreeScopes`: no expansion stands in a scope, unless the scope stands in an expansion too.
* `query_again_iff`: when compiling a query again gives the same fragment. -/

namespace LinkedSearch

open Query (Arena Kind Label NodeId Tree)
open Schema (Mapping)

namespace Compiler

variable {compiler : Compiler} {setup : Setup} {F G : Fragment}

open Compile

/-- **Kept paths**: the fragment keeps the outermost scopes of the query under the nested paths that
their leaves share in the present state. -/
def KeepsPaths (compiler : Compiler) (F : Fragment) : Prop :=
  ∀ root, compiler.progress.draft.root = some root →
    UnderPaths compiler.environment compiler.progress root F

/-- **Free scopes**: of the scopes that are not within expansions, none has an expansion below it. -/
def FreeScopes (compiler : Compiler) : Prop :=
  ∀ root, compiler.progress.draft.root = some root → compiler.progress.draft.arena.ScopesBare root

/-! ## Compilers between two queries -/

/-- The root of a query comes before every other node. -/
theorem root_eq_zero (h : setup.Started compiler) (calls : List Call) {root : NodeId}
    (hroot : (compiler.after calls).progress.draft.root = some root) : root = 0 := by
  rw [(after_evolves (idle_of_started h) calls).root_eq] at hroot
  exact h.root_eq_zero hroot

/-- What a successful query is a run of. -/
theorem exec_query (hquery : compiler.query.1 = .ok F) :
    exec (rootQuery compiler.environment) compiler.progress =
      (.ok F, compiler.query.2.progress) := Prod.ext hquery rfl

/-- A compiled query lets the compiler evolve, and settles its root. -/
theorem query_settles (h : compiler.Idle) (hquery : compiler.query.1 = .ok F) :
    Evolves compiler.environment compiler.progress compiler.query.2.progress ∧
      RootSettled compiler.environment compiler.query.2.progress := by
  obtain ⟨⟨hevolves, -⟩, hsettled⟩ :=
    (wp_of_ok (exec_query hquery)).mp (rootQuery_advances h.rootedState)
  exact ⟨hevolves, hsettled h.aggregating_eq⟩

/-- Calls on a settled query let the state drift. -/
theorem after_drifted (h : compiler.Idle)
    (hsettled : RootSettled compiler.environment compiler.progress) (calls : List Call) :
    Drifted compiler.environment compiler.progress (compiler.after calls).progress :=
  drifted_of_evolves (after_evolves h calls) (after_rest hsettled calls).draft_eq

/-! ## The same query again -/

/-- **A query repeats itself** in a state that has drifted since, if its fragment is under its paths. -/
theorem query_repeats (h : compiler.Idle)
    (hfirst : ∀ root, compiler.progress.draft.root = some root → root = 0)
    (hquery : compiler.query.1 = .ok F) {base : Progress} (hbase : Sound compiler.environment base)
    {later : Compiler} (henv : later.environment = compiler.environment)
    (hlater : Drifted compiler.environment compiler.query.2.progress later.progress)
    (hdrift : Drifted compiler.environment base later.progress)
    (hunder : ∀ root, base.draft.root = some root →
      Compile.UnderPaths compiler.environment base root F) : later.query.1 = .ok F := by
  obtain ⟨hevolves, -⟩ := query_settles h hquery
  have hexec := exec_query hquery
  have hroot : later.progress.draft.root = compiler.progress.draft.root := by
    rw [hlater.draft_eq, hevolves.root_eq]
  show (exec (rootQuery later.environment) later.progress).1 = .ok F
  rw [henv]
  cases hsome : compiler.progress.draft.root with
  | none =>
    rw [exec_rootQuery_none hsome] at hexec
    rw [exec_rootQuery_none (hroot.trans hsome)]
    exact (Prod.mk.inj hexec).1
  | some root =>
    rw [exec_rootQuery hsome] at hexec
    rw [exec_rootQuery (hroot.trans hsome)]
    -- the arena has not become smaller, so that the second compilation may go as deep
    have hbound : depthBound compiler.progress.draft.arena.size ≤
        depthBound later.progress.draft.arena.size := by
      have hsize := hevolves.size_le
      rw [← hlater.draft_eq] at hsize
      exact Nat.mul_le_mul (Nat.add_le_add_right hsize 4) (Nat.add_le_add_right hsize 4)
    have hrepeats := (Repeats.of_evolves h.sound hevolves).next (.refl h.sound) hlater
    have hpaths : Compile.UnderPaths compiler.environment base root F :=
      hunder root (by rw [← hdrift.draft_eq, hroot, hsome])
    obtain ⟨_, hagain, -⟩ := nodeWithin_again _ hbound root compiler.progress _ later.progress base F
      hbase h.sound (h.rooted root hsome) (hfirst root hsome ▸ h.sound.ascending.exposed_zero)
      h.aggregating_eq hexec hrepeats
      (by rw [hlater.draft_eq]) fun _ => ⟨hdrift, hpaths⟩
    rw [hagain]

/-- What a settled query is compiled to has the nested paths that its scopes have. -/
theorem keepsPaths_of_query (h : compiler.Idle) (hzero : compiler.progress.scopeDepth = 0)
    (hsettled : RootSettled compiler.environment compiler.progress) (calls : List Call)
    (hquery : (compiler.after calls).query.1 = .ok F) : compiler.KeepsPaths F := by
  intro root hroot
  have hdrift := after_drifted h hsettled calls
  have hexec := exec_query hquery
  rw [exec_rootQuery (by rw [hdrift.draft_eq]; exact hroot), after_environment] at hexec
  exact underPaths_of_exec _ h.sound hdrift (hsettled.2 root hroot) hzero h.aggregating_eq hexec

/-- **Compiling again is a matter of paths.** After a successful query, whatever calls come in between,
the query is compiled to the same fragment again if and only if this fragment has the nested paths that
the scopes have by then; it has them if no expansion stood in a scope. And a query that was compiled
again never changes from then on. -/
theorem query_again_iff (hstart : setup.start = .ok compiler) (calls : List Call)
    (hquery : (compiler.after calls).query.1 = .ok F) :
    (∀ later, ((compiler.after calls).query.2.after later).query.1 = .ok F ↔
      (compiler.after calls).query.2.KeepsPaths F) ∧
    ((compiler.after calls).FreeScopes → (compiler.after calls).query.2.KeepsPaths F) ∧
    ∀ later G, ((compiler.after calls).query.2.after later).query.1 = .ok G →
      ∀ more, (((compiler.after calls).query.2.after later).query.2.after more).query.1 = .ok G := by
  have hstarted := Setup.started_of_ok hstart
  have hidle := (idle_of_started hstarted).after calls
  have hfirst : ∀ root, (compiler.after calls).progress.draft.root = some root → root = 0 :=
    fun _ => root_eq_zero hstarted calls
  have hzero : (compiler.after calls).progress.scopeDepth = 0 := by
    obtain ⟨md, hprogress⟩ := hstarted.progress_eq
    rw [(after_evolves (idle_of_started hstarted) calls).scopeDepth_eq, hprogress]
  generalize compiler.after calls = first at *
  obtain ⟨hevolves, hsettled⟩ := query_settles hidle hquery
  have hcompiled : first.query.2.Idle := hidle.perform .query
  have hzero' : first.query.2.progress.scopeDepth = 0 := hevolves.scopeDepth_eq.trans hzero
  have hdrifts := after_drifted hcompiled hsettled
  refine ⟨fun later => ⟨keepsPaths_of_query hcompiled hzero' hsettled later, fun hpaths => ?_⟩, ?_, ?_⟩
  · exact query_repeats hidle hfirst hquery hcompiled.sound (after_environment _ later)
      (hdrifts later) (hdrifts later) hpaths
  · intro hscopes root hroot
    rw [hevolves.root_eq] at hroot
    have hexec := exec_query hquery
    rw [exec_rootQuery hroot] at hexec
    exact nodeWithin_underPaths _ root first.progress _ F hidle.sound (hidle.rooted root hroot)
      (hfirst root hroot ▸ hidle.sound.ascending.exposed_zero) (hscopes root hroot) hzero
      hidle.aggregating_eq hexec (.of_evolves hidle.sound hevolves) (.refl _)
  · intro later G hlater more
    have hpaths := keepsPaths_of_query hcompiled hzero' hsettled later hlater
    have hmiddle := hcompiled.after later
    have henv := after_environment first.query.2 later
    have hfirst' : ∀ root, (first.query.2.after later).progress.draft.root = some root → root = 0 := by
      rw [(hdrifts later).draft_eq, hevolves.root_eq]
      exact hfirst
    have hdrift := hdrifts (later ++ .query :: more)
    rw [after_append] at hdrift
    unfold KeepsPaths at hpaths
    have hsound := hcompiled.sound
    rw [← henv] at hdrift hpaths hsound
    exact query_repeats hmiddle hfirst' hlater hsound (after_environment _ more)
      (after_drifted (hmiddle.perform .query) (query_settles hmiddle hlater).2 more) hdrift hpaths

/-- Scopes are free if that is what one sees below each of them. -/
theorem freeScopes_of_all (h : compiler.Idle)
    (hall : (compiler.progress.draft.nodes.all fun x =>
      decide ((compiler.progress.draft.arena.label x).kind ≠ .scope) ||
        (compiler.progress.draft.arena.descendants x).all fun y =>
          !(compiler.progress.draft.arena.label y).kind.isExpansion) = true) :
    compiler.FreeScopes := by
  intro root hroot x hx _ hkind y hy
  have hasc := h.sound.ascending
  rw [Query.Draft.nodes, hroot] at hall
  have hscope := List.all_eq_true.mp hall x (hasc.mem_descendants.mpr hx)
  rw [hkind] at hscope
  simp only [ne_eq, not_true_eq_false, decide_false, Bool.false_or] at hscope
  have hnot := List.all_eq_true.mp hscope y (hasc.mem_descendants.mpr hy)
  simpa using hnot

/-- Books by the authors with a nested tag. -/
def nestedSearch (around : Tree → Tree) : Setup where
  index := "books"
  request := {
    links := [.unnamed "author" "authors" "id"]
    query := some (around (.expansion (.unnamed "author" "authors" "id") (.word "tag" (.str "x")))) }
  resolver := some (Cluster.resolver { mappings := [
    ("authors", (Mapping.keyed "authors" "id").withField "tag"
      { type := .keyword none, nestedPath := some "items" }),
    ("books", (Mapping.keyed "books" "id").withField "author" { type := .long })] })
  executor := some (Cluster.executor { documents := [("authors", [])] })

/-- Outside of scopes, the query stays the same over an aggregation in between. -/
theorem query_again_nestedSearch : ∃ compiler F,
    (nestedSearch fun expansion => .conjunction [expansion, .scope [.word "tag" (.str "y")]]).start =
      .ok compiler ∧ compiler.query.1 = .ok F ∧ F.kind = "bool" ∧
      (compiler.query.2.after [.aggregation]).query.1 = .ok F := by
  have hrun : ((nestedSearch fun expansion =>
      .conjunction [expansion, .scope [.word "tag" (.str "y")]]).start.toOption.any fun compiler =>
      (compiler.query.1.toOption.any fun F => decide (F.kind = "bool")) &&
      compiler.progress.draft.nodes.all fun x =>
        decide ((compiler.progress.draft.arena.label x).kind ≠ .scope) ||
          (compiler.progress.draft.arena.descendants x).all fun y =>
            !(compiler.progress.draft.arena.label y).kind.isExpansion) = true := by
    decide +kernel
  simp only [Option.any_eq_true, toOption_eq_some, Bool.and_eq_true, decide_eq_true_eq] at hrun
  obtain ⟨compiler, hstart, ⟨F, hquery, hkind⟩, hall⟩ := hrun
  obtain ⟨hagain, hfree, -⟩ := query_again_iff hstart [] hquery
  exact ⟨compiler, F, hstart, hquery, hkind, (hagain [.aggregation]).mpr
    (hfree (freeScopes_of_all (idle_of_started (Setup.started_of_ok hstart)) hall))⟩

/-- **In a scope**, an expansion leaves with the values that take its place, and the nested path of its
own query goes with it: the same query is compiled to another fragment. -/
theorem query_again_ne_nestedSearch : ∃ compiler F G,
    (nestedSearch fun expansion => .scope [expansion]).start = .ok compiler ∧
      compiler.query.1 = .ok F ∧ compiler.query.2.query.1 = .ok G ∧ F ≠ G := by
  have hrun : ((nestedSearch fun expansion => .scope [expansion]).start.toOption.any fun compiler =>
      compiler.query.1.toOption.any fun F => compiler.query.2.query.1.toOption.any fun G =>
        decide (F.kind ≠ G.kind)) = true := by
    decide +kernel
  simp only [Option.any_eq_true, toOption_eq_some, decide_eq_true_eq] at hrun
  obtain ⟨compiler, hstart, F, hF, G, hG, hne⟩ := hrun
  exact ⟨compiler, F, G, hstart, hF, hG, fun heq => hne (heq ▸ rfl)⟩

end Compiler

end LinkedSearch
