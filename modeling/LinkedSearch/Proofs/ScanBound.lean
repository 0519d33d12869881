import LinkedSearch.Cluster
import LinkedSearch.Proofs.Calling

/-! # No expansion is scanned twice

What the expansions of a query may cost bounds the scans of a compiler, however often it is used.

* `Tree.explicitExpansions`, `Tree.generatedExpansions`: the expansions of a query by their sort.
* `scans_bounded`: as long as every call succeeds, there are at most as many scans as the expansions
  of the original query allow for; and once the query was compiled, no later call scans anything or
  changes the draft, whether it succeeds or fails. -/

namespace LinkedSearch

open Query (Arena Draft Kind Label NodeId Request Tree)

/-! ## Expansions of a query -/

namespace Query

/-- The number of expansions over links that were written by the user. -/
def Tree.explicitExpansions (tree : Tree) : Nat :=
  tree.preorder.countP fun label => label.kind.isExpansion && !label.kind.isGenerated

/-- The number of expansions over synthesized links. -/
def Tree.generatedExpansions (tree : Tree) : Nat :=
  tree.preorder.countP fun label => label.kind.isGenerated

/-- The scans that some labels allow for, counted by the two sorts of expansions. -/
theorem sum_scanWeight (labels : List Label) :
    (labels.map (·.kind.scanWeight)).sum =
      labels.countP (fun label => label.kind.isExpansion && !label.kind.isGenerated) +
        2 * labels.countP fun label => label.kind.isGenerated := by
  induction labels with
  | nil => rfl
  | cons label rest ih =>
    have hweight : label.kind.scanWeight =
        (if (label.kind.isExpansion && !label.kind.isGenerated) = true then 1 else 0) +
          2 * (if label.kind.isGenerated = true then 1 else 0) := by
      cases label.kind with
      | expansion link generated => cases generated <;> rfl
      | _ => rfl
    rw [List.map_cons, List.sum_cons, ih, List.countP_cons, List.countP_cons, hweight]
    omega

end Query

namespace Compiler

variable {compiler : Compiler}

open Compile

/-- Nothing but the expansions of its query is pending for a started compiler. -/
theorem expense_of_started {setup : Setup} (h : setup.Started compiler) :
    compiler.progress.expense = match setup.request.query with
      | some tree => tree.explicitExpansions + 2 * tree.generatedExpansions
      | none => 0 := by
  obtain ⟨md, hprogress⟩ := h.progress_eq
  have hfresh := setup.request.draft_fresh
  have hdraft : compiler.progress.draft = setup.request.draft := by rw [hprogress]
  have hscans : compiler.progress.scans = [] := by rw [hprogress]
  rw [Progress.expense, hdraft, hscans, List.length_nil, Nat.zero_add, Arena.pending]
  split
  · next tree hquery =>
    obtain ⟨root, -, -, hlabels⟩ := hfresh.rooted tree hquery
    rw [hlabels, Query.sum_scanWeight]
    rfl
  · next hquery =>
    rw [(hfresh.rootless hquery).2]
    rfl

/-- **No expansion is scanned twice.** As long as every call succeeds, the scans are at most as many
as the explicit expansions of the query and twice the generated ones; and after a compilation of the
query that succeeds, no call scans anything or changes the draft, whether it succeeds or fails. -/
theorem scans_bounded (setup : Setup) (compiler : Compiler) (hstart : setup.start = .ok compiler) :
    (∀ calls, compiler.succeeds calls = true → (compiler.after calls).scans.length ≤
      match setup.request.query with
      | some tree => tree.explicitExpansions + 2 * tree.generatedExpansions
      | none => 0) ∧
    ∀ earlier later fragment, (compiler.after earlier).query.1 = .ok fragment →
      let compiled := (compiler.after earlier).query.2
      (compiled.after later).scans = compiled.scans ∧
        (compiled.after later).progress.draft = compiled.progress.draft := by
  have hstarted := Setup.started_of_ok hstart
  have hidle := idle_of_started hstarted
  have hexpense := expense_of_started hstarted
  constructor
  · intro calls hcalls
    have hle := (after_advance hidle calls hcalls).expense_le
    rw [hexpense] at hle
    exact Nat.le_trans (Nat.le_add_right _ _) hle
  · intro earlier later fragment hquery
    have hearlier := hidle.after earlier
    have hsettled : RootSettled (compiler.after earlier).query.2.environment
        (compiler.after earlier).query.2.progress := by
      rcases run_spec (rootQuery_advances hearlier.rootedState) with
        ⟨_, -, -, hsettled⟩ | ⟨error, herror, -⟩
      · exact hsettled hearlier.aggregating_eq
      · have hquery : ((compiler.after earlier).run rootQuery).1 = .ok fragment := hquery
        rw [herror] at hquery
        exact absurd hquery (by simp)
    have hrested := after_rest hsettled later
    exact ⟨hrested.scans_eq, hrested.draft_eq⟩

/-- Books whose authors are looked for by name. -/
def bookSearch : Setup where
  index := "books"
  request := { query := some (.conjunction [
    .word "title" (.str "Emma"),
    .expansion (.unnamed "author" "authors" "id") (.word "name" (.str "Austen"))]) }
  resolver := some (Cluster.resolver
    { mappings := [("authors", .keyed "authors" "id"), ("books", .keyed "books" "id")] })
  executor := some (Cluster.executor
    { documents := [("authors", [.obj [("id", .int 7), ("name", .str "Austen")]])] })

/-- Compiling a query with one expansion three times takes one scan at most. -/
theorem scans_bounded_bookSearch : ∃ compiler, bookSearch.start = .ok compiler ∧
    compiler.succeeds [.query, .aggregation, .query] = true ∧
    (compiler.after [.query, .aggregation, .query]).scans.length ≤ 1 := by
  have hrun : (bookSearch.start.toOption.any fun compiler =>
      compiler.succeeds [.query, .aggregation, .query]) = true := by decide +kernel
  simp only [Option.any_eq_true, toOption_eq_some] at hrun
  obtain ⟨compiler, hstart, hsucceeds⟩ := hrun
  exact ⟨compiler, hstart, hsucceeds, (scans_bounded bookSearch compiler hstart).1 _ hsucceeds⟩

end Compiler

end LinkedSearch
