import Mathlib.Data.List.Induction
import LinkedSearch.Proofs.Framing
import LinkedSearch.Proofs.Rewriting

/-! # The turns of a stack

A stack of expansions is read before the first of them is resolved. By the time that one of them has its turn,
the arena was rewritten, maybe far away from the stack. What holds at every turn:

* `Turns`: a property of every item of a loop, in the state in which it has its turn.
* `stack_turns`: an expansion that is still there has no expansions left in its query.
* `stack_calm`: in a calm place, every turn is calm. -/

namespace LinkedSearch.Compile

open Query (Arena Kind NodeId)

variable {env : Environment} {p q s : Progress} {fuel : Nat} {primary target : Link}

/-- **Turns**: what holds of every item of a loop when the items before it were dealt with. -/
def Turns (f : NodeId → Compile PUnit) (T : Progress → NodeId → Prop) (l : List NodeId)
    (p : Progress) : Prop :=
  ∀ before e after, l = before ++ e :: after → ∀ q, exec (before.forM f) p = (.ok ⟨⟩, q) → T q e

namespace Turns

variable {f : NodeId → Compile PUnit} {T T' : Progress → NodeId → Prop} {l l' : List NodeId}

theorem nil : Turns f T [] p := fun before _ _ h => absurd h (by simp)

theorem singleton {e : NodeId} (h : T p e) : Turns f T [e] p := by
  intro before e' after hl q hq
  obtain ⟨rfl, hl⟩ | ⟨_, rfl, hl⟩ := List.cons_eq_append_iff.mp hl
  · obtain ⟨rfl, -⟩ := List.cons.inj hl
    obtain ⟨-, rfl⟩ := Prod.mk.inj hq
    exact h
  · exact absurd hl (by simp)

theorem append (h : Turns f T l p)
    (h' : ∀ q, exec (l.forM f) p = (.ok ⟨⟩, q) → Turns f T l' q) : Turns f T (l ++ l') p := by
  intro before e after hl q hq
  rcases List.append_eq_append_iff.mp hl with ⟨between, rfl, hl'⟩ | ⟨between, rfl, hl'⟩
  · obtain ⟨s, hs, hbetween⟩ := exec_forM_append_ok.mp hq
    exact h' s hs between e after hl' q hbetween
  · rcases List.cons_eq_append_iff.mp hl' with ⟨rfl, rfl⟩ | ⟨rest, rfl, -⟩
    · rw [List.append_nil] at h'
      exact h' q hq [] e after rfl q rfl
    · exact h before e rest rfl q hq

theorem mono (h : Turns f T l p) (hT : ∀ q e, T q e → T' q e) : Turns f T' l p :=
  fun before e after hl q hq => hT q e (h before e after hl q hq)

/-- What holds at the start and is kept by every turn holds between any two of them. -/
theorem invariant {I : Progress → Prop} (h : Turns f T l p) (hI : I p)
    (hstep : ∀ e ∈ l, ∀ q s, T q e → I q → exec (f e) q = (.ok ⟨⟩, s) → I s) (before : List NodeId) :
    ∀ after, l = before ++ after → ∀ q, exec (before.forM f) p = (.ok ⟨⟩, q) → I q := by
  induction before using List.reverseRecOn with
  | nil =>
    rintro after - q hq
    obtain ⟨-, rfl⟩ := Prod.mk.inj hq
    exact hI
  | append_singleton before e ih =>
    intro after hl q hq
    obtain ⟨s, hs, hlast⟩ := exec_forM_append_ok.mp hq
    have hl' : l = before ++ e :: after := by rw [hl, List.append_assoc]; rfl
    obtain ⟨⟨⟩, t, he, ht⟩ := exec_bind_ok.mp hlast
    obtain ⟨-, rfl⟩ := Prod.mk.inj ht
    exact hstep e (hl' ▸ by simp) s t (h before e after hl' s hs) (ih (e :: after) hl' s hs) he

end Turns

/-! ## Expansions that are still there -/

/-- What holds of an expansion when its turn has come. -/
structure Turn (env : Environment) (p q : Progress) (e : NodeId) : Prop where
  evolves : Evolves env p q
  rewrites : p.draft.arena.Rewrites q.draft.arena
  query : (q.draft.arena.label e).kind.isExpansion = true → ∀ c,
    q.draft.arena.child? e 0 = some c → q.draft.arena.Settled c ∧ q.draft.arena.Bare c

theorem Turn.after {e : NodeId} (hps : Evolves env p s) (hrewrites : p.draft.arena.Rewrites s.draft.arena)
    (h : Turn env s q e) : Turn env p q e :=
  ⟨hps.trans h.evolves, hrewrites.trans h.rewrites, h.query⟩

variable {arena : Arena} (harena : arena.Ascending)

include harena

/-- The stacks below some nodes, the last one first. -/
theorem stacks_turns {depth : Nat} (ids : List NodeId)
    (hids : ∀ c ∈ ids, (c : Nat) < arena.size ∧ arena.size ≤ depth + c)
    (ih : ∀ c ∈ ids, ∀ p, Sound env p → primary = p.metadata.primary →
      arena.Advanced p.draft.arena → Turns (resolve env (nodeWithin env fuel) primary target)
        (Turn env p) (arena.expansionsWithin depth c).reverse p)
    (hp : Sound env p) (hprimary : primary = p.metadata.primary)
    (hadvanced : arena.Advanced p.draft.arena) :
    Turns (resolve env (nodeWithin env fuel) primary target) (Turn env p)
      (ids.flatMap (arena.expansionsWithin depth)).reverse p := by
  induction ids with
  | nil => exact .nil
  | cons c rest ihr =>
    have hlater := fun c' hc' => hids c' (List.mem_cons_of_mem c hc')
    rw [List.flatMap_cons, List.reverse_append]
    refine (ihr hlater fun c' hc' => ih c' (List.mem_cons_of_mem c hc')).append fun s hs => ?_
    obtain ⟨hps, hadvance, -⟩ := stacks_settle harena rest hlater hp hprimary hadvanced hs
    have hrewrites := stacks_rewrites harena rest hlater hp hprimary hadvanced hs
    exact (ih c List.mem_cons_self s hps.sound (hprimary.trans hps.grows.primary_eq.symm)
      (hadvanced.trans hadvance.advanced)).mono fun _ _ h => h.after hps hrewrites

/-- **An expansion of a stack** that is still there when its turn has come has no expansions left in its
query. -/
theorem stack_turns (depth m : Nat) (hm : m < arena.size) (hdepth : arena.size ≤ depth + m)
    (p : Progress) (hp : Sound env p) (hprimary : primary = p.metadata.primary)
    (hadvanced : arena.Advanced p.draft.arena) :
    Turns (resolve env (nodeWithin env fuel) primary target) (Turn env p)
      (arena.expansionsWithin depth m).reverse p := by
  induction depth generalizing m p with
  | zero => omega
  | succ depth ih =>
    have hlater := harena.reach_children hdepth
    rw [Query.Arena.expansionsWithin]
    split
    · -- the query of the expansion comes first
      rw [List.reverse_cons]
      cases hc : arena.child? m 0 with
      | none =>
        refine .singleton ⟨.refl hp, .refl _, fun hexpansion c hchild => ?_⟩
        rw [hadvanced.child?_eq hexpansion, hc] at hchild
        exact absurd hchild (by simp)
      | some c =>
        obtain ⟨hlt, hreach⟩ := hlater c (List.mem_of_getElem? hc)
        refine (ih c hlt hreach p hp hprimary hadvanced).append fun s hs => ?_
        obtain ⟨hps, hadvance, hsettled⟩ := stack_advance (nodeWithin_advance fuel) harena depth c
          hlt hreach p s hp hprimary hadvanced hs
        obtain ⟨hrewrites, hbare⟩ := stack_rewrites harena depth c hlt hreach hp hprimary hadvanced hs
        refine .singleton ⟨hps, hrewrites, fun hexpansion c' hchild => ?_⟩
        rw [(hadvanced.trans hadvance.advanced).child?_eq hexpansion, hc] at hchild
        obtain rfl := Option.some.inj hchild
        exact ⟨hsettled, hbare⟩
    · exact stacks_turns harena _ hlater (fun c hc => ih c (hlater c hc).1 (hlater c hc).2) hp hprimary
        hadvanced

omit harena

/-! ## Calm places -/

/-- The stacks below some children, the last one first. -/
theorem stacks_calm {depth m : Nat}
    (ih : ∀ c p, Sound env p → primary = p.metadata.primary → Calm p.draft c →
      c < p.draft.arena.size → Turns (resolve env (nodeWithin env fuel) primary target)
        (fun q e => Calm q.draft e) (p.draft.arena.expansionsWithin depth c).reverse p)
    (hp : Sound env p) (hprimary : primary = p.metadata.primary) (hcalm : Calm p.draft m)
    (ids : List NodeId) (hids : ∀ c ∈ ids, c ∈ p.draft.arena.children m) (hnodup : ids.Nodup) :
    Turns (resolve env (nodeWithin env fuel) primary target) (fun q e => Calm q.draft e)
      (ids.flatMap (p.draft.arena.expansionsWithin depth)).reverse p := by
  induction ids with
  | nil => exact .nil
  | cons c rest ihr =>
    have hrest := fun c' hc' => hids c' (List.mem_cons_of_mem c hc')
    have hmem := hids c List.mem_cons_self
    have hm := Query.Arena.lt_size_of_mem_children hmem
    rw [List.flatMap_cons, List.reverse_append]
    refine (ihr hrest (List.nodup_cons.mp hnodup).2).append fun s hs => ?_
    obtain ⟨hps, hframed⟩ := stacks_framed (fun c p => stack_framed (nodeWithin_framed fuel) depth c p) hp
      hprimary hcalm rest hrest (List.nodup_cons.mp hnodup).2 hs
    have hmem' : c ∈ s.draft.arena.children m := by
      rw [hframed.children_eq]
      exact hmem
    have hcalm' : Calm s.draft m := hcalm.framed hp hps hframed.framed hm fun htrue => by
      rw [Query.Arena.label_congr hframed.slot_eq]
      exact htrue
    -- the stack below the child is still the one that was read before
    rw [← hframed.expansionsWithin_eq hmem (List.nodup_cons.mp hnodup).1 depth]
    exact ih c s hps.sound (hprimary.trans hps.grows.primary_eq.symm) (hcalm'.child hmem')
      (hps.sound.ascending.child_lt m c hmem')

/-- **In a calm place** every turn of a stack is calm. -/
theorem stack_calm (depth m : Nat) (p : Progress) (hp : Sound env p)
    (hprimary : primary = p.metadata.primary) (hcalm : Calm p.draft m) (hm : m < p.draft.arena.size) :
    Turns (resolve env (nodeWithin env fuel) primary target) (fun q e => Calm q.draft e)
      (p.draft.arena.expansionsWithin depth m).reverse p := by
  induction depth generalizing m p with
  | zero =>
    rw [Query.Arena.expansionsWithin]
    split
    · exact .singleton hcalm
    · exact .nil
  | succ depth ih =>
    rw [Query.Arena.expansionsWithin]
    split
    · next hkind =>
      have hparent := Kind.isParent_of_isExpansion hkind
      rw [List.reverse_cons]
      cases hc : p.draft.arena.child? m 0 with
      | none => exact .singleton hcalm
      | some c =>
        have hmem := List.mem_of_getElem? hc
        have hclt := hp.ascending.child_lt m c hmem
        refine (ih c p hp hprimary (hcalm.child hmem) hclt).append fun s hs => .singleton ?_
        obtain ⟨hps, hframed⟩ := stack_framed (nodeWithin_framed fuel) depth c p s hp hprimary
          (hcalm.child hmem) hclt hs
        exact hcalm.framed hp hps (hframed.of_below hp.ascending (.of_mem hmem) hm) hm fun htrue =>
          absurd (hparent.symm.trans htrue) (by simp)
    · exact stacks_calm ih hp hprimary hcalm _ (fun _ hc => hc) (hp.ascending.nodup_children m)

end LinkedSearch.Compile
