import LinkedSearch.Proofs.Crossings
import LinkedSearch.Proofs.Using

/-! # The query stays a tree

Resolved expansions are overwritten in place, which leaves slots behind that nobody refers to and that
still know a parent. What is reached from the root is a tree all the same, whatever was asked of the
compiler and wherever it has failed.

* `Arena.TreeFrom`: what is reached from a node is a tree.
* `Ascending.getLast?_ancestorsWithin`: the way up.
* `Compiler.used_treeFrom`: the query is a tree after any uses. -/

namespace LinkedSearch

namespace Query.Arena

variable {arena : Arena} {n x : Nat}

/-- **Tree** below a node: every node that is reached is listed once among the descendants, every child
exists and knows its parent, and the way up ends at the node, which has no parent. -/
structure TreeFrom (arena : Arena) (root : NodeId) : Prop where
  exists_of_mem : ∀ x ∈ arena.descendants root, x < arena.size
  mem_iff : ∀ x, x ∈ arena.descendants root ↔ arena.Below root x
  nodup : (arena.descendants root).Nodup
  parent_of_child : ∀ x ∈ arena.descendants root, ∀ c ∈ arena.children x,
    c ∈ arena.descendants root ∧ arena.parent? c = some x
  parent_root : arena.parent? root = none
  getLast?_ancestors : ∀ x ∈ arena.descendants root, (x :: arena.ancestors x).getLast? = some root

namespace Ascending

variable (h : arena.Ascending)

include h

/-- **The way up** from a node ends at a node above it that has no parent. -/
theorem getLast?_ancestorsWithin (hroot : arena.parent? n = none) (hbelow : arena.Below n x)
    (fuel : Nat) (hfuel : x ≤ fuel) : (x :: arena.ancestorsWithin fuel x).getLast? = some n := by
  induction hbelow generalizing fuel with
  | refl =>
    cases fuel with
    | zero => rfl
    | succ fuel => rw [ancestorsWithin, hroot]; rfl
  | @tail y x _ hstep ih =>
    have hlt := h.lt_child y x hstep
    obtain ⟨fuel, rfl⟩ : ∃ k, fuel = k + 1 := ⟨fuel - 1, by omega⟩
    rw [ancestorsWithin, h.parent_of_child y x hstep]
    simp only [List.getLast?_cons_cons]
    exact ih fuel (by omega)

/-- **An ascending arena is a tree** from its first node on. -/
theorem treeFrom_zero (hsize : 0 < arena.size) : arena.TreeFrom 0 := by
  have hparent := h.parent?_zero
  have hexists : ∀ x ∈ arena.descendants 0, x < arena.size := fun x hx =>
    h.below_lt_size (h.mem_descendants.mp hx) hsize
  refine ⟨hexists, fun x => h.mem_descendants, h.nodup_descendants 0, ?_, hparent, ?_⟩
  · intro x hx c hc
    exact ⟨h.mem_descendants.mpr ((h.mem_descendants.mp hx).tail hc), h.parent_of_child x c hc⟩
  · intro x hx
    exact h.getLast?_ancestorsWithin hparent (h.mem_descendants.mp hx) arena.size
      (Nat.le_of_lt (hexists x hx))

end Ascending

end Query.Arena

namespace Compiler

open Query (NodeId)

variable {setup : Setup} {compiler : Compiler}

/-- **The query stays a tree.** After any uses of a compiler, whatever their outcomes, the nodes that
are reached from the root form a tree: each of them is a descendant exactly once, their children know
them, and from each of them the way up ends at the root. -/
theorem used_treeFrom (hstart : setup.start = .ok compiler) (uses : List Use) {root : NodeId}
    (hroot : (compiler.used uses).progress.draft.root = some root) :
    (compiler.used uses).progress.draft.arena.TreeFrom root := by
  have hstarted := Setup.started_of_ok hstart
  have hidle := (idle_of_started hstarted).used uses
  have hevolves := used_evolves (idle_of_started hstarted) uses
  have hlt := hidle.rooted root hroot
  obtain rfl : root = 0 := hstarted.root_eq_zero (hevolves.root_eq ▸ hroot)
  exact hidle.sound.ascending.treeFrom_zero hlt

/-- A query that fails after some of its expansions were resolved. -/
theorem used_treeFrom_authorSearch : ∃ compiler,
    (authorSearch fun x y => .conjunction [.parent "t" [x], y]).start = .ok compiler ∧
      (compiler.used [.call .query]).scans.length = 2 ∧ compiler.query.1.isOk = false ∧
      (compiler.used [.call .query, .call .aggregation]).progress.draft.root = some 0 ∧
      (compiler.used [.call .query, .call .aggregation]).progress.draft.arena.TreeFrom 0 := by
  have hrun : ((authorSearch fun x y => .conjunction [.parent "t" [x], y]).start.toOption.any
      fun compiler => decide ((compiler.used [.call .query]).scans.length = 2 ∧
        compiler.query.1.isOk = false ∧
        (compiler.used [.call .query, .call .aggregation]).progress.draft.root = some 0)) = true := by
    decide +kernel
  simp only [Option.any_eq_true, toOption_eq_some, decide_eq_true_eq] at hrun
  obtain ⟨compiler, hstart, hscans, hfailed, hroot⟩ := hrun
  exact ⟨compiler, hstart, hscans, hfailed, hroot, used_treeFrom hstart _ hroot⟩

end Compiler

end LinkedSearch
