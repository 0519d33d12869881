import LinkedSearch.Proofs.Recompiling

/-! # Fragments under their paths

Two sources of fragments that keep every outermost scope under the path that its leaves share, so that
compiling their nodes again makes no difference:

* `underPaths_of_exec`: whatever a settled node is compiled to.
* `nodeWithin_underPaths`: what a node is compiled to if no expansion stands in a scope. -/

namespace LinkedSearch

open Query (Arena Kind Label NodeId Tree)

namespace Compile

variable {env : Environment} {base p q s t : Progress} {n : Nat} {F : Fragment}

/-! ## Settled nodes -/

/-- An evolution that leaves the draft alone is a drift. -/
theorem drifted_of_evolves (h : Evolves env p q) (hdraft : q.draft = p.draft) : Drifted env p q :=
  ⟨h.grows, hdraft, h.aggregating_eq, h.scopeDepth_eq, h.scopePath_eq⟩

/-- A settled node is compiled in a drift. -/
theorem nodeWithin_drifted {fuel : Nat} (hp : Sound env p) (hn : p.draft.arena.Settled n)
    (hexec : exec (nodeWithin env fuel n) p = (.ok F, q)) : Drifted env p q :=
  drifted_of_evolves (compiled_of_ok hp hexec).1
    ((wp_of_ok hexec).mp (nodeWithin_rests fuel hp hn)).draft_eq

/-- Settled nodes, compiled one after the other in a drift. -/
theorem compiledAll_settled {fuel : Nat} {R : NodeId → Fragment → Prop}
    (hrecur : ∀ (n : Nat) (p q : Progress) (F : Fragment), Drifted env base p →
      base.draft.arena.Settled n → exec (nodeWithin env fuel n) p = (.ok F, q) → R n F)
    (ids : List NodeId) {clauses : List Fragment} (hbase : Sound env base) (h : Drifted env base p)
    (hids : ∀ c ∈ ids, base.draft.arena.Settled c)
    (hall : exec (ids.mapM (nodeWithin env fuel)) p = (.ok clauses, q)) :
    List.Forall₂ R ids clauses := by
  induction ids generalizing p clauses with
  | nil =>
    obtain ⟨hclauses, -⟩ := Prod.mk.inj hall
    obtain rfl := Except.ok.inj hclauses
    exact .nil
  | cons c rest ih =>
    obtain ⟨F, s, clauses', hc, hrest, rfl⟩ := exec_mapM_cons_ok.mp hall
    have hsettled := hids c List.mem_cons_self
    have hdrift := nodeWithin_drifted (h.sound hbase) (h.draft_eq ▸ hsettled) hc
    exact .cons (hrecur c p s F h hsettled hc)
      (ih (h.trans hdrift) (fun c' hc' => hids c' (List.mem_cons_of_mem c hc')) hrest)

/-- **Whatever a settled node is compiled to** outside of scopes is under its paths. -/
theorem underPaths_of_exec (fuel : Nat) : ∀ {n : Nat} {p q : Progress} {F : Fragment},
    Sound env base → Drifted env base p → base.draft.arena.Settled n → base.scopeDepth = 0 →
    base.aggregating = false → exec (nodeWithin env fuel n) p = (.ok F, q) →
    UnderPaths env base n F := by
  induction fuel with
  | zero =>
    intro n p q F _ _ _ _ _ hexec
    exact absurd (congrArg Prod.fst hexec) (by simp [nodeWithin, exec])
  | succ fuel ih =>
    intro n p q F hbase h hn hzero hquery hexec
    -- a settled node has no expansion below, so that its children are still those it was charted with
    have hvisits := hn.visited
    have hkind : (p.draft.arena.label n).kind.isExpansion = false := by
      rw [h.draft_eq]
      exact hn.isExpansion_eq
    cases (yields_iff hkind).mp hexec with
    | connective wrap clauses _ hwrap _ hall =>
      rw [h.draft_eq] at hwrap hall
      refine .connective n wrap clauses hwrap (compiledAll_settled
        (fun _ p q F h hn => ih hbase h hn hzero hquery) _ hbase h (fun c hc => ?_) hall)
      refine hvisits c ?_
      cases hk : (base.draft.arena.label n).kind with
      | conjunction | disjunction | negation => exact hc
      | _ => rw [hk] at hwrap; exact absurd hwrap (by simp [Kind.connective?])
    | scope s u clauses _ _ hk hentered hall hclose =>
      obtain ⟨path, hpath, rfl⟩ := closeScope_underPath (h.sound hbase)
        (h.scopeDepth_eq.trans hzero) hentered _ hall hclose
      obtain ⟨t', ht', -⟩ := sharedPath_drifted hbase h n
      rw [ht'] at hpath
      rw [h.draft_eq] at hk
      exact .scope n path clauses hk hpath
    | joined join child rest inner _ hjoin _ hcons hinner =>
      rw [h.draft_eq] at hjoin hcons
      refine .joined n join child rest inner hjoin hcons (ih hbase h (hvisits child ?_) hzero hquery hinner)
      cases hk : (base.draft.arena.label n).kind with
      | child | parent => simp [Kind.visits, hcons]
      | _ => rw [hk] at hjoin; exact absurd hjoin (by simp [Kind.join?])
    | childless join hjoin _ hnil =>
      rw [h.draft_eq] at hjoin hnil
      exact .childless n join hjoin hnil
    | admitted _ hfilter =>
      rw [h.aggregating_eq, hquery] at hfilter
      exact absurd hfilter (by simp)
    | proximity _ _ hk _ => exact .predicate n F (.inr (by rwa [← h.draft_eq]))
    | predicate _ _ hk _ => exact .predicate n F (.inl (by rwa [← h.draft_eq]))

/-! ## Bare scopes -/

/-- **Sheltering**: a node whose scopes are bare is compiled, outside of scopes, to a fragment that
stays under its paths in every later state. -/
def Shelters (env : Environment) (base : Progress) (fuel : Nat) : Prop :=
  ∀ (n : Nat) (p q : Progress) (F : Fragment), Sound env p → n < p.draft.arena.size →
    p.draft.arena.Exposed n → p.draft.arena.ScopesBare n → p.scopeDepth = 0 →
    p.aggregating = false → exec (nodeWithin env fuel n) p = (.ok F, q) → Repeats env p base →
    q.draft.arena.Rewrites base.draft.arena → UnderPaths env base n F

/-- Some nodes, compiled one after the other. -/
theorem compiledAll_underPaths {fuel : Nat} (hrecur : Shelters env base fuel) (ids : List NodeId)
    {clauses : List Fragment} (hp : Sound env p)
    (hids : ∀ c ∈ ids, (c : Nat) < p.draft.arena.size ∧ p.draft.arena.Exposed c ∧
      p.draft.arena.ScopesBare c) (hzero : p.scopeDepth = 0) (hquery : p.aggregating = false)
    (hall : exec (ids.mapM (nodeWithin env fuel)) p = (.ok clauses, q)) (h : Repeats env p base)
    (hlater : q.draft.arena.Rewrites base.draft.arena) :
    List.Forall₂ (UnderPaths env base) ids clauses := by
  induction ids generalizing p clauses with
  | nil =>
    obtain ⟨hclauses, -⟩ := Prod.mk.inj hall
    obtain rfl := Except.ok.inj hclauses
    exact .nil
  | cons c rest ih =>
    obtain ⟨F, s, clauses', hc, hrest, rfl⟩ := exec_mapM_cons_ok.mp hall
    obtain ⟨hps, -⟩ := compiled_of_ok hp hc
    obtain ⟨hclt, hcexposed, hcscopes⟩ := hids c List.mem_cons_self
    have hfirst := nodeWithin_rewrites fuel c p s F hp hclt hc
    have hids' : ∀ c' ∈ rest, (c' : Nat) < s.draft.arena.size ∧ s.draft.arena.Exposed c' ∧
        s.draft.arena.ScopesBare c' := by
      intro c' hc'
      obtain ⟨hlt, hexposed, hscopes⟩ := hids c' (List.mem_cons_of_mem c hc')
      have hpruned := hfirst.pruned hp.ascending
      exact ⟨Nat.lt_of_lt_of_le hlt hps.size_le, hpruned.exposed c' hlt hexposed,
        hpruned.scopesBare hp.ascending hlt hexposed hscopes⟩
    have hsecond := compiledAll_rewrites rest hps.sound
      (fun c' hc' => (hids' c' hc').1) hrest
    exact .cons (hrecur c p s F hp hclt hcexposed hcscopes hzero hquery hc h (hsecond.trans hlater))
      (ih hps.sound hids' (hps.scopeDepth_eq.trans hzero) (hps.aggregating_eq.trans hquery) hrest
        (h.next hps (.refl base)))

/-- **What a node with bare scopes is compiled to** outside of scopes stays under its paths. -/
theorem nodeWithin_underPaths (fuel : Nat) : Shelters env base fuel := by
  induction fuel with
  | zero =>
    intro n p q F _ _ _ _ _ _ hexec _ _
    exact absurd (congrArg Prod.fst hexec) (by simp [nodeWithin, exec])
  | succ fuel ih =>
    intro n p q F hp hn hexposed hscopes hzero hquery hexec h hlater
    have hpruned := ((nodeWithin_rewrites _ n p q F hp hn hexec).trans hlater).pruned hp.ascending
    cases hkind : (p.draft.arena.label n).kind.isExpansion with
    | true =>
      -- once the expansion is resolved there is none left below its node
      obtain ⟨-, fuel', heq, hcompiled⟩ := compiled_of_ok hp hexec
      obtain rfl : fuel = fuel' := by omega
      obtain ⟨stack, r, -, hexpanded, rfl⟩ := hcompiled.expanded hkind
      obtain ⟨s, hps, hfirst, -, hbare, hinner, -⟩ := hexpanded.rewrites
        (show Sound env { p with generated := stack } from ⟨hp.ascending, hp.faithful⟩)
      exact ih n s r F hps.sound (Nat.lt_of_lt_of_le hn hps.size_le)
        ((hfirst.pruned hp.ascending).exposed n hn hexposed) hbare.scopesBare
        (hps.scopeDepth_eq.trans hzero) (hps.aggregating_eq.trans hquery) hinner
        ((h.generating stack).next hps (.refl base)) hlater
    | false =>
      have hslot := hpruned.slot_eq n hn hexposed hkind
      have hlabel := Query.Arena.label_congr hslot
      have hchildren := Query.Arena.children_congr hslot
      have hids : ∀ c ∈ p.draft.arena.children n, (c : Nat) < p.draft.arena.size ∧
          p.draft.arena.Exposed c ∧ p.draft.arena.ScopesBare c := fun c hc =>
        ⟨hp.ascending.child_lt n c hc, hexposed.child hp.ascending hkind hc,
          fun x hx => hscopes x (.of_child hc hx)⟩
      cases (yields_iff hkind).mp hexec with
      | connective wrap clauses _ hwrap _ hall =>
        refine .connective n wrap clauses (by rwa [hlabel]) ?_
        rw [hchildren]
        exact compiledAll_underPaths ih _ hp hids hzero hquery hall h hlater
      | scope s u clauses _ _ hk hentered hall hclose =>
        obtain ⟨path, hpath, rfl⟩ := closeScope_underPath hp hzero hentered _ hall hclose
        -- the same tree is below the scope then
        have hbare := hscopes n (.refl n) hexposed hk
        have hsame : ∀ x, p.draft.arena.Below n x →
            base.draft.arena.slot? x = p.draft.arena.slot? x := fun x hx =>
          hpruned.below_eq hp.ascending hn hexposed hbare hx
        have hheld := hp.ascending.holds_treeAt n
        obtain ⟨outcome, p', base', hx, -, hy, -⟩ := sharedPath_again h hp hheld
          (hheld.congr (fun x hx => Query.Arena.label_congr (hsame x hx))
            fun x hx => Query.Arena.children_congr (hsame x hx))
        rw [hx] at hpath
        exact .scope n path clauses (by rw [hlabel]; exact hk) (by rw [hy]; exact hpath)
      | joined join child rest inner _ hjoin _ hcons hinner =>
        obtain ⟨hclt, hcexposed, hcscopes⟩ := hids child (by simp [hcons])
        exact .joined n join child rest inner (by rwa [hlabel]) (by rwa [hchildren])
          (ih child p q inner hp hclt hcexposed hcscopes hzero hquery hinner h hlater)
      | childless join hjoin _ hnil => exact .childless n join (by rwa [hlabel]) (by rwa [hchildren])
      | admitted _ hfilter => exact absurd (hquery.symm.trans hfilter) (by simp)
      | proximity _ _ hk _ => exact .predicate n F (.inr (by rwa [hlabel]))
      | predicate _ _ hk _ => exact .predicate n F (.inl (by rwa [hlabel]))

end Compile

end LinkedSearch
