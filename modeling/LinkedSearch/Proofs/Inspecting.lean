import LinkedSearch.Proofs.Calling
import LinkedSearch.Proofs.Coincidence
import LinkedSearch.Proofs.Turns
import LinkedSearch.Proofs.Yielding

/-! # Inspected compilations

Whatever holds of every fragment that a node is compiled to can be said with an inspected compiler. It looks
at each fragment before anything is made of it, and does something arbitrary with one that does not pass. If
all of them pass, it is the compiler of nodes:

* `inspectedWithin`, `inspectedQuery`: inspected compilers of nodes and of the query of a draft.
* `Sieve`: what is known about the arena when a fragment is inspected.
* `inspectedWithin_coincides`, `inspectedQuery_coincides`: both coincide with what they inspect. -/

namespace LinkedSearch.Compile

open Query (Arena NodeId)

variable {env : Environment} {p q : Progress} {n : Nat}

/-! ## Inspected compilers -/

section Inspected

variable (env : Environment) (passes : NodeId → Arena → Fragment → Bool)
  (stop : NodeId → Compile Fragment)

/-- **Inspected compiler** of nodes: it stops where the fragment of a node does not pass. -/
def inspectedWithin : Nat → NodeId → Compile Fragment
  | 0, _ => throw .boundReached
  | fuel + 1, id => do
    let fragment ← node env (inspectedWithin fuel) id
    if passes id (← arena) fragment then return fragment else stop id

/-- **Inspected query** of the draft. -/
def inspectedQuery : Compile Fragment := do
  match (← get).draft.root with
  | some root => inspectedWithin env passes stop (depthBound (← arena).size) root
  | none => return .matchAll none

end Inspected

/-- **A sieve**: fragments pass as long as something holds of the arena, which is kept with the boosts and
the kinds of its nodes. -/
structure Sieve (env : Environment) (passes : NodeId → Arena → Fragment → Bool)
    (holds : Arena → Prop) : Prop where
  keep : ∀ {arena other : Arena}, holds arena → arena.size ≤ other.size → arena.Keeps other → holds other
  pass : ∀ {fuel n : Nat} {p q : Progress} {F : Fragment}, Sound env p → holds p.draft.arena →
    n < p.draft.arena.size → exec (nodeWithin env fuel n) p = (.ok F, q) →
    passes n q.draft.arena F = true

namespace Sieve

variable {passes : NodeId → Arena → Fragment → Bool} {stop : NodeId → Compile Fragment}
  {holds : Arena → Prop}

/-- What holds of an arena is kept. -/
theorem evolve (h : Sieve env passes holds) (hp : holds p.draft.arena) (hpq : Evolves env p q) :
    holds q.draft.arena :=
  h.keep hp hpq.size_le hpq.keeps

end Sieve

/-! ## Expansions -/

section Nodes

variable {passes : NodeId → Arena → Fragment → Bool} {stop : NodeId → Compile Fragment}
  {holds : Arena → Prop} {fuel : Nat}

/-- The inspected compiler and the compiler of nodes coincide, a number of calls deep. -/
def Passes (env : Environment) (passes : NodeId → Arena → Fragment → Bool)
    (stop : NodeId → Compile Fragment) (holds : Arena → Prop) (fuel : Nat) : Prop :=
  ∀ (n : Nat) (p : Progress), Sound env p → holds p.draft.arena → n < p.draft.arena.size →
    Coincides (inspectedWithin env passes stop fuel n) (nodeWithin env fuel n) p

variable (hsieve : Sieve env passes holds) (ih : Passes env passes stop holds fuel)

include hsieve ih

/-- **The stack of an expansion**, and then what stands in its place. -/
theorem stack_inspected {arena : Arena} (hasc : arena.Ascending) (hn : n < arena.size)
    {primary target : Link} (hp : Sound env p) (hholds : holds p.draft.arena)
    (hprimary : primary = p.metadata.primary) (hadvanced : arena.Advanced p.draft.arena)
    (hsize : arena.size ≤ p.draft.arena.size) :
    Coincides
      ((arena.expansions n).reverse.forM (resolve env (inspectedWithin env passes stop fuel) primary target)
        >>= fun _ => inspectedWithin env passes stop fuel n)
      ((arena.expansions n).reverse.forM (resolve env (nodeWithin env fuel) primary target)
        >>= fun _ => nodeWithin env fuel n) p := by
  refine Coincides.bind (.forM _ fun before e after hsplit q hq => ?_) fun _ q hq => ?_
  · have hturn := stack_turns hasc _ n hn (by omega) p hp hprimary hadvanced before e after hsplit q hq
    refine resolve_coincides hturn.evolves.sound hturn.query (fun s hstage => ?_) _ target
    intro t c ht hdraft hasked
    have hq := hsieve.evolve hholds hturn.evolves
    have hs := hsieve.keep hq hstage.size_le hstage.keeps
    refine ih c t ht (by rwa [hdraft]) ?_
    rw [hdraft]
    rcases hasked with hchild | ⟨hscope, -⟩
    · exact hstage.sound.ascending.child_lt e c (List.mem_of_getElem? hchild)
    · obtain ⟨root, -, hfirst⟩ := (find?_eq_some_iff hstage.sound.ascending).mp hscope
      exact Query.Arena.lt_size_of_isParent hfirst.condition_eq
  · obtain ⟨hpq, -, -⟩ := stack_advance (nodeWithin_advance fuel) hasc _ n hn (by omega) p q hp hprimary
      hadvanced hq
    exact ih n q hpq.sound (hsieve.evolve hholds hpq)
      (Nat.lt_of_lt_of_le hn (Nat.le_trans hsize hpq.size_le))

/-- A compiled expansion. -/
theorem expand_inspected (hp : Sound env p) (hholds : holds p.draft.arena)
    (hkind : (p.draft.arena.label n).kind.isExpansion = true) :
    Coincides (expand env (inspectedWithin env passes stop fuel) n) (expand env (nodeWithin env fuel) n)
      p := by
  obtain ⟨link, generated, hexpansion⟩ := Query.Kind.exists_of_isExpansion hkind
  have hlink : (p.draft.arena.label n).kind.link? = some link := by rw [hexpansion]; rfl
  have hn := Query.Arena.lt_size_of_isExpansion hkind
  unfold expand
  refine .bind_known (exec_linkOf hlink)
    (.bind_known rfl (.bind_known rfl (.bind_known rfl ?_)))
  cases hname : link.name with
  | none =>
    exact stack_inspected hsieve ih hp.ascending hn hp hholds rfl (.refl _) (Nat.le_refl _)
  | some name =>
    -- stripping the name of the link changes fields only
    obtain ⟨hsize, hkinds, hchildren, -⟩ := p.draft.arena.stripName_spec n name
    have hevolves : Evolves env p { p with draft :=
        { p.draft with arena := p.draft.arena.stripName n name } } :=
      evolves_stripped hp n { link with name := some name }
    refine .bind_known rfl ?_
    exact stack_inspected hsieve ih hp.ascending hn hevolves.sound (hsieve.evolve hholds hevolves) rfl
      (.of_same hsize hkinds hchildren) hevolves.size_le

/-- A compiled expansion, on record if its link is synthesized. -/
theorem expansion_inspected (hp : Sound env p) (hholds : holds p.draft.arena)
    (hkind : (p.draft.arena.label n).kind.isExpansion = true) (generated : Bool) :
    Coincides (expansion env (inspectedWithin env passes stop fuel) n generated)
      (expansion env (nodeWithin env fuel) n generated) p := by
  unfold expansion
  split
  · exact .within (expand_inspected hsieve ih ⟨hp.ascending, hp.faithful⟩ hholds hkind)
  · exact expand_inspected hsieve ih hp hholds hkind

/-- A compiled node, one level of the recursion. -/
theorem node_inspected (hp : Sound env p) (hholds : holds p.draft.arena) :
    Coincides (node env (inspectedWithin env passes stop fuel) n) (node env (nodeWithin env fuel) n) p := by
  cases hkind : (p.draft.arena.label n).kind.isExpansion with
  | false =>
    refine node_coincides hp hkind fun s hs hdraft before c after hchildren fragments q hq => ?_
    have hsq : Evolves env s q :=
      ((wp_of_ok hq).mp (Steps.mapM (fun a _ => nodeWithin_steps fuel a) s hs)).1
    refine ih c q hsq.sound (hsieve.evolve (by rwa [hdraft]) hsq) (Nat.lt_of_lt_of_le ?_ hsq.size_le)
    rw [hdraft]
    exact hp.ascending.child_lt n c (by simp [hchildren])
  | true =>
    obtain ⟨link, generated, hexpansion⟩ := Query.Kind.exists_of_isExpansion hkind
    have hnode : ∀ recur, exec (node env recur n) p = exec (expansion env recur n generated) p := by
      intro recur
      rw [exec_node, hexpansion]
    unfold Coincides
    rw [hnode, hnode]
    exact expansion_inspected hsieve ih hp hholds hkind generated

end Nodes

/-! ## Nodes and queries -/

section Queries

variable {passes : NodeId → Arena → Fragment → Bool} {holds : Arena → Prop}

/-- **An inspected compiler coincides with the compiler of nodes** if all fragments pass. -/
theorem inspectedWithin_coincides (hsieve : Sieve env passes holds) (stop : NodeId → Compile Fragment)
    (fuel : Nat) : Passes env passes stop holds fuel := by
  induction fuel with
  | zero => exact fun n p _ _ _ => rfl
  | succ fuel ih =>
    intro n p hp hholds hn
    have hnode := node_inspected hsieve ih (n := n) hp hholds
    unfold Coincides at hnode ⊢
    unfold inspectedWithin
    rw [exec_bind, hnode]
    rcases hexec : exec (node env (nodeWithin env fuel) n) p with ⟨error | F, q⟩
    · exact hexec.symm
    · have hwithin : exec (nodeWithin env (fuel + 1) n) p = (.ok F, q) := hexec
      have hpass : passes n q.draft.arena F = true := hsieve.pass hp hholds hn hwithin
      simp only
      rw [exec_arena_bind, hpass]
      exact hexec.symm

/-- **The inspected query** coincides with the query. -/
theorem inspectedQuery_coincides (hsieve : Sieve env passes holds) (stop : NodeId → Compile Fragment)
    (hp : Rooted env p) (hholds : holds p.draft.arena) :
    Coincides (inspectedQuery env passes stop) (rootQuery env) p := by
  unfold Coincides inspectedQuery
  rw [exec_get_bind]
  cases hroot : p.draft.root with
  | none => exact (exec_rootQuery_none hroot).symm
  | some root =>
    simp only
    rw [exec_arena_bind, exec_rootQuery hroot]
    exact inspectedWithin_coincides hsieve stop _ root p hp.1 hholds (hp.2 root hroot)

end Queries

end LinkedSearch.Compile
