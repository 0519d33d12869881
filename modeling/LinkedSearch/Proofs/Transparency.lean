import LinkedSearch.Cluster
import LinkedSearch.Proofs.SharedPaths
import LinkedSearch.Proofs.Standing
import LinkedSearch.Proofs.Using

/-! # Compilers of queries without expansions have no history

Compiling changes the state of a compiler on every branch, and a compilation that fails leaves some
of the changes behind. For a query without expansions nothing of this can be told from outside:

* `Timeless`: what a computation gives, and how it fails, is the same in all states that have drifted
  from a given one.
* `nodeWithin_timeless`, `aggregate_timeless`: compilations of settled queries and of aggregates over
  them are timeless.
* `Compiler.used_transparent`: whatever was done with a compiler, the query is still as it was built, no
  scan was requested, and the next call gives what it would have given first. -/

namespace LinkedSearch

open Query (AggregateLevel Kind Label NodeId Tree)
open Schema (Mapping)

namespace Compile

variable {α β : Type} {env : Environment} {p s t : Progress} {n : Nat}

/-! ## Timelessness -/

/-- **Timelessness**: in every state that has drifted from a given one, a computation ends as it does
there, with the same result or the same error, and the state after it has drifted as well. -/
def Timeless (env : Environment) (x : Compile α) (p : Progress) : Prop :=
  ∀ s, Drifted env p s → (exec x s).1 = (exec x p).1 ∧ Drifted env p (exec x s).2

namespace Timeless

theorem pure (a : α) : Timeless env (pure a) p := fun _ hs => ⟨rfl, hs⟩

theorem throw (e : Error) : Timeless env (throw e : Compile α) p := fun _ hs => ⟨rfl, hs⟩

theorem ofExcept (outcome : Except Error α) : Timeless env (ofExcept outcome) p := by
  cases outcome with
  | error e => exact throw e
  | ok a => exact pure a

/-- Both states drift from the base, so the second part is compared with the base from each. -/
theorem bind {x : Compile β} {f : β → Compile α} (hx : Timeless env x p)
    (hf : ∀ b, Timeless env (f b) p) : Timeless env (x >>= f) p := by
  intro s hs
  obtain ⟨hsame, hdrift⟩ := hx s hs
  obtain ⟨-, hbase⟩ := hx p (.refl p)
  rw [exec_bind, exec_bind]
  rcases hxs : exec x s with ⟨outcome, s'⟩
  rcases hxp : exec x p with ⟨outcome', p'⟩
  rw [hxs, hxp] at hsame
  rw [hxs] at hdrift
  rw [hxp] at hbase
  obtain rfl : outcome = outcome' := hsame
  cases outcome with
  | error e => exact ⟨rfl, hdrift⟩
  | ok b =>
    obtain ⟨hs', hdrift'⟩ := hf b s' hdrift
    exact ⟨hs'.trans (hf b p' hbase).1.symm, hdrift'⟩

/-- Computations that start with a look at the state, at nothing in it that drifts. -/
theorem get {f : Progress → Compile α} (hsame : ∀ s, Drifted env p s → f s = f p)
    (hf : Timeless env (f p) p) : Timeless env (MonadState.get >>= f) p := by
  intro s hs
  have hfs : Timeless env (f s) p := hsame s hs ▸ hf
  show (exec (f s) s).1 = (exec (f p) p).1 ∧ Drifted env p (exec (f s) s).2
  rw [← hsame s hs]
  exact hfs s hs

/-- Lookups that have the same answer in all states. -/
theorem of_answer {x : Compile α} (answer : Except Error α)
    (h : ∀ s, Drifted env p s → ∃ q, exec x s = (answer, q) ∧ Looked env s q) :
    Timeless env x p := by
  intro s hs
  obtain ⟨q, hxs, hlooked⟩ := h s hs
  obtain ⟨q', hxp, -⟩ := h p (.refl p)
  rw [hxs, hxp]
  exact ⟨rfl, hs.trans (.looked hlooked)⟩

/-- Computations that agree in all states. -/
theorem of_agrees {x : Compile α} (h : ∀ s, Drifted env p s → Agrees env x x s p) :
    Timeless env x p := by
  intro s hs
  obtain ⟨outcome, md, md', hxs, hxp, hgrows, -⟩ := h s hs _ _ (.refl _) (.refl _)
  have hxs : exec x s = (outcome, { s with metadata := md }) := hxs
  have hxp : exec x p = (outcome, { p with metadata := md' }) := hxp
  rw [hxs, hxp]
  exact ⟨rfl, hs.trans (.looked ⟨md, hgrows, rfl⟩)⟩

theorem mapM {γ : Type} {f : γ → Compile α} {l : List γ} (h : ∀ a ∈ l, Timeless env (f a) p) :
    Timeless env (l.mapM f) p := by
  induction l with
  | nil => exact pure []
  | cons a l ih =>
    rw [List.mapM_cons]
    refine (h a List.mem_cons_self).bind fun b => ?_
    exact (ih fun a' ha' => h a' (List.mem_cons_of_mem a ha')).bind fun bs => pure (b :: bs)

/-- Computations that start with the label of a node. -/
theorem labelOf {f : Label → Compile α} (hf : Timeless env (f (p.draft.arena.label n)) p) :
    Timeless env (labelOf n >>= f) p := by
  intro s hs
  show (exec (f (s.draft.arena.label n)) s).1 = (exec (f (p.draft.arena.label n)) p).1 ∧
    Drifted env p (exec (f (s.draft.arena.label n)) s).2
  rw [hs.draft_eq]
  exact hf s hs

/-- Computations that start with the children of a node. -/
theorem childrenOf {f : List NodeId → Compile α}
    (hf : Timeless env (f (p.draft.arena.children n)) p) :
    Timeless env (childrenOf n >>= f) p := by
  intro s hs
  show (exec (f (s.draft.arena.children n)) s).1 = (exec (f (p.draft.arena.children n)) p).1 ∧
    Drifted env p (exec (f (s.draft.arena.children n)) s).2
  rw [hs.draft_eq]
  exact hf s hs

end Timeless

/-- States that drift are peers, and consult the same facts. -/
theorem Drifted.facing (h : Drifted env p s) (hp : Sound env p) :
    Peers env s p ∧ ∀ label, SameFacts env s p label := by
  refine ⟨h.peers (.refl p) (Sound.peers hp), fun label => ?_⟩
  unfold SameFacts
  rw [h.grows.factsOf_eq]

/-! ## Nodes -/

theorem leaf_timeless (hp : Sound env p) (label : Label) : Timeless env (leaf env label) p :=
  .of_agrees fun _ hs => leaf_agrees (hs.facing hp).1 ((hs.facing hp).2 label)

theorem proximity_timeless (hp : Sound env p) (label : Label) (hn : n < p.draft.arena.size) :
    Timeless env (proximity env label n) p := by
  refine .of_agrees fun s hs => ?_
  have hheld := hp.ascending.holds_treeAt n
  have hdraft := hs.draft_eq
  exact proximity_agrees (hs.facing hp).1 (hs.sound hp).ascending hp.ascending label
    (hdraft ▸ hheld) hheld (fun label _ _ => (hs.facing hp).2 label) (hdraft ▸ hn) hn

theorem sharedPath_timeless (hp : Sound env p) (n : Nat) : Timeless env (sharedPath env n) p := by
  refine .of_agrees fun s hs => ?_
  have hheld := hp.ascending.holds_treeAt n
  exact sharedPath_agrees (hs.facing hp).1 (hs.sound hp).ascending hp.ascending
    (hs.draft_eq ▸ hheld) hheld fun label _ _ => (hs.facing hp).2 label

section Node

variable {recur : NodeId → Compile Fragment}

/-- The children of a scope are compiled one scope deeper, with the path of the scope. -/
theorem scopeClauses_timeless {ids : List NodeId}
    (h : Timeless env (ids.mapM recur) { p with scopeDepth := p.scopeDepth + 1 })
    (hs : Drifted env p s) (hpath : s.scopePath = p.scopePath) :
    (exec (scopeClauses recur ids) s).1 = (exec (scopeClauses recur ids) p).1 ∧
      Drifted env p (exec (scopeClauses recur ids) s).2 := by
  have hdepth : { s with scopeDepth := s.scopeDepth + 1 }.scopeDepth = p.scopeDepth + 1 :=
    congrArg (· + 1) hs.scopeDepth_eq
  have hentered : Drifted env { p with scopeDepth := p.scopeDepth + 1 }
      { s with scopeDepth := s.scopeDepth + 1 } :=
    ⟨hs.grows, hs.draft_eq, hs.aggregating_eq, hdepth, .inr hpath⟩
  obtain ⟨hsame, hdrift⟩ := h _ hentered
  obtain ⟨-, hbase⟩ := h _ (.refl _)
  rw [exec_scopeClauses, exec_scopeClauses]
  rcases hxs : exec (ids.mapM recur) { s with scopeDepth := s.scopeDepth + 1 } with ⟨outcome, u⟩
  rcases hxp : exec (ids.mapM recur) { p with scopeDepth := p.scopeDepth + 1 } with ⟨outcome', u'⟩
  rw [hxs, hxp] at hsame
  rw [hxs] at hdrift
  rw [hxp] at hbase
  obtain rfl : outcome = outcome' := hsame
  have hleft : Drifted env p { u with scopeDepth := u.scopeDepth - 1 } := hdrift.leave
  have hleft' : Drifted env p { u' with scopeDepth := u'.scopeDepth - 1 } := hbase.leave
  cases outcome with
  | error e => exact ⟨rfl, hleft⟩
  | ok fragments =>
    refine ⟨congrArg Except.ok (closeScope_congr fragments ?_ ?_),
      hleft.trans (closeScope_drifted ..)⟩
    · exact hleft.scopeDepth_eq.trans hleft'.scopeDepth_eq.symm
    · -- inside of the scope its path stays, so both are closed with the same one
      have hinside := hdrift.scopePath_eq.resolve_left (Nat.succ_ne_zero _)
      exact hinside.trans (hbase.scopePath_eq.resolve_left (Nat.succ_ne_zero _)).symm

/-- **Scopes.** Outside of scopes the path that the last scope has left behind is replaced before it
is read. -/
theorem scope_timeless (hp : Sound env p)
    (h : ∀ q, Sound env q → q.draft = p.draft →
      Timeless env ((p.draft.arena.children n).mapM recur) q) :
    Timeless env (scope env recur n) p := by
  have hchildren : ∀ q, Sound env q → q.draft = p.draft → Timeless env
      ((p.draft.arena.children n).mapM recur) { q with scopeDepth := q.scopeDepth + 1 } :=
    fun q hq hdraft => h _ ⟨hq.ascending, hq.faithful⟩ hdraft
  intro s hs
  rw [exec_scope, exec_scope, hs.draft_eq, hs.scopeDepth_eq]
  by_cases hzero : p.scopeDepth = 0
  · rw [if_pos hzero, if_pos hzero]
    obtain ⟨hsame, hdrift⟩ := sharedPath_timeless hp n s hs
    obtain ⟨-, hbase⟩ := sharedPath_timeless hp n p (.refl p)
    rcases hxs : exec (sharedPath env n) s with ⟨outcome, s'⟩
    rcases hxp : exec (sharedPath env n) p with ⟨outcome', p'⟩
    rw [hxs, hxp] at hsame
    rw [hxs] at hdrift
    rw [hxp] at hbase
    obtain rfl : outcome = outcome' := hsame
    cases outcome with
    | error e => exact ⟨rfl, hdrift⟩
    | ok path =>
      have hset : ∀ {q : Progress}, Drifted env p q →
          Drifted env { p with scopePath := path } { q with scopePath := path } := fun hq =>
        ⟨hq.grows, hq.draft_eq, hq.aggregating_eq, hq.scopeDepth_eq, .inr rfl⟩
      have hforget : Drifted env p { p with scopePath := path } :=
        ⟨.refl _, rfl, rfl, rfl, .inl hzero⟩
      have hclauses := hchildren { p with scopePath := path } ⟨hp.ascending, hp.faithful⟩ rfl
      obtain ⟨hleft, hdrift'⟩ := scopeClauses_timeless hclauses (hset hdrift) rfl
      obtain ⟨hright, -⟩ := scopeClauses_timeless hclauses (hset hbase) rfl
      exact ⟨hleft.trans hright.symm, hforget.trans hdrift'⟩
  · rw [if_neg hzero, if_neg hzero]
    exact scopeClauses_timeless (hchildren p hp rfl) hs (hs.scopePath_eq.resolve_left hzero)

/-- A parent or child scope. -/
theorem joined_timeless (join : Fragment → Fragment)
    (h : ∀ c ∈ (p.draft.arena.children n).take 1, Timeless env (recur c) p) :
    Timeless env (joined env recur join n) p := by
  unfold joined
  refine .childrenOf ?_
  split
  · exact .pure _
  · next child rest hchildren =>
    refine (h child ?_).bind fun fragment => .pure _
    rw [hchildren]
    simp

/-- **A node that is no expansion** is timeless if the children are that are visited. -/
theorem node_timeless (hp : Sound env p) (hn : n < p.draft.arena.size)
    (hkind : (p.draft.arena.label n).kind.isExpansion = false)
    (h : ∀ c ∈ (p.draft.arena.label n).kind.visits (p.draft.arena.children n), ∀ q,
      Sound env q → q.draft = p.draft → Timeless env (recur c) q) :
    Timeless env (node env recur n) p := by
  have hclauses : ∀ wrap : List Fragment → Fragment,
      (∀ c ∈ p.draft.arena.children n, ∀ q, Sound env q → q.draft = p.draft →
        Timeless env (recur c) q) →
      Timeless env (do
        let children ← childrenOf n
        let fragments ← children.mapM recur
        return wrap fragments) p := by
    intro wrap hall
    refine .childrenOf ?_
    exact (Timeless.mapM fun c hc => hall c hc p hp rfl).bind fun fragments => .pure _
  have hmode : ∀ x y : Compile Fragment, ∀ s, Drifted env p s →
      (if s.aggregating then x else y) = if p.aggregating then x else y :=
    fun x y s hs => by rw [hs.aggregating_eq]
  unfold node
  refine .labelOf ?_
  split
  · next heq => exact hclauses _ (by rw [heq] at h; exact h)
  · next heq => exact hclauses _ (by rw [heq] at h; exact h)
  · next heq =>
    refine .get (hmode _ _) ?_
    split
    · exact .pure _
    · exact hclauses _ (by rw [heq] at h; exact h)
  · next heq =>
    refine scope_timeless hp fun q hq hdraft => .mapM fun c hc => ?_
    rw [heq] at h
    exact h c hc q hq hdraft
  · next typeName heq =>
    exact joined_timeless _ fun c hc => h c (by rw [heq]; exact hc) p hp rfl
  · next typeName heq =>
    refine .get (hmode _ _) ?_
    split
    · exact .pure _
    · exact joined_timeless _ fun c hc => h c (by rw [heq]; exact hc) p hp rfl
  · next link generated heq =>
    rw [heq] at hkind
    exact absurd hkind (by simp [Kind.isExpansion])
  · exact (proximity_timeless hp _ hn).bind fun _ => .pure _
  · exact (leaf_timeless hp _).bind fun _ => .pure _

end Node

/-- **Settled queries** are compiled alike whenever they are compiled. -/
theorem nodeWithin_timeless (fuel : Nat) (hp : Sound env p) (hn : p.draft.arena.Settled n) :
    Timeless env (nodeWithin env fuel n) p := by
  induction fuel generalizing n p with
  | zero => exact .throw _
  | succ fuel ih =>
    refine node_timeless hp hn.lt_size hn.isExpansion_eq fun c hc q hq hdraft => ih hq ?_
    rw [hdraft]
    exact hn.visited c hc

theorem rootQuery_timeless (h : RootSettled env p) : Timeless env (rootQuery env) p := by
  unfold rootQuery
  refine .get (fun s hs => by rw [hs.draft_eq]) ?_
  split
  · next root hroot =>
    unfold query
    refine .get (fun s hs => by rw [hs.draft_eq]) ?_
    exact nodeWithin_timeless _ h.1 (h.2 root hroot)
  · exact .pure _

/-! ## Aggregates -/

theorem mappingOf_timeless (hp : Sound env p) (field : String) :
    Timeless env (mappingOf env field) p :=
  .of_answer (p.metadata.ownerMapping env.resolver field) fun s hs => by
    rw [← hs.grows.ownerMapping_eq field]
    exact exec_mappingOf (hs.sound hp) field

theorem ownerOf_timeless (hp : Sound env p) (field : String) :
    Timeless env (ownerOf env field) p :=
  .of_answer (p.metadata.owner env.resolver field) fun s hs => by
    rw [← hs.grows.owner_eq field]
    exact exec_ownerOf (hs.sound hp) field

theorem primaryMapping_timeless (hp : Sound env p) :
    Timeless env (look (Metadata.primaryMapping env.resolver)) p :=
  .of_answer (env.resolver.mapping p.metadata.primary.index) fun s hs => by
    rw [← hs.grows.primary_eq]
    exact exec_look_of (Metadata.exec_primaryMapping (hs.sound hp).faithful)

/-- The aggregation of a level. -/
theorem aggregation_timeless (hp : Sound env p) (level : AggregateLevel) :
    Timeless env (aggregation env level) p := by
  unfold aggregation
  split
  · refine (mappingOf_timeless hp _).bind fun mapping => ?_
    split
    · split
      · exact .pure _
      · exact .throw _
    · exact .pure _
  · refine (mappingOf_timeless hp _).bind fun mapping => ?_
    split <;> exact (Timeless.ofExcept _).bind fun _ => .pure _
  · exact (primaryMapping_timeless hp).bind fun _ => .pure _
  · exact .pure _

/-- The check of an inner level. -/
theorem checkInner_timeless (hp : Sound env p) (outer inner : AggregateLevel)
    (compiled : Aggregation) : Timeless env (checkInner env outer compiled inner) p := by
  have howner : Timeless env (do
      let owner ← ownerOf env inner.field
      if owner.index ≠ (← MonadState.get).metadata.primary.index then
        throw Error.foreignSubAggregate : Compile Unit) p := by
    refine (ownerOf_timeless hp _).bind fun owner => ?_
    refine .get (fun s hs => by rw [hs.grows.primary_eq]) ?_
    split
    · exact .throw _
    · exact .pure _
  unfold checkInner
  simp only
  split
  · exact (Timeless.throw _).bind fun _ => howner
  · exact howner

/-- A tree of aggregations in the scope of a level. -/
theorem inScope_timeless (h : RootSettled env p) (level : AggregateLevel) (tree : AggregationTree) :
    Timeless env (inScope env level tree) p := by
  unfold inScope
  split
  · exact .pure _
  · exact (rootQuery_timeless h).bind fun _ => .pure _

/-- Chains of aggregates. -/
theorem levels_timeless (h : RootSettled env p) (outer : AggregateLevel)
    (inner : List AggregateLevel) : Timeless env (levels env outer inner) p := by
  induction inner generalizing outer with
  | nil =>
    rw [levels]
    exact (aggregation_timeless h.1 outer).bind fun _ => inScope_timeless h outer _
  | cons next rest ih =>
    rw [levels]
    refine (aggregation_timeless h.1 outer).bind fun compiled => ?_
    refine (checkInner_timeless h.1 outer next compiled).bind fun _ => ?_
    exact (ih next).bind fun _ => inScope_timeless h outer _

/-- **Aggregates over a settled query** are compiled alike whenever they are compiled. -/
theorem aggregate_timeless (h : RootSettled env p) (hquery : p.aggregating = false) :
    Timeless env (aggregate env) p := by
  have hstart : RootSettled env { p with aggregating := true } :=
    ⟨⟨h.1.ascending, h.1.faithful⟩, h.2⟩
  unfold aggregate
  refine .get (fun s hs => by rw [hs.draft_eq]) ?_
  split
  · exact .pure _
  · next aggregate _ =>
    have hlevels : Timeless env (return some (← levels env aggregate.outer aggregate.inner))
        { p with aggregating := true } :=
      (levels_timeless hstart _ _).bind fun _ => .pure _
    intro s hs
    obtain ⟨hsame, hdrift⟩ := hlevels { s with aggregating := true }
      ⟨hs.grows, hs.draft_eq, rfl, hs.scopeDepth_eq, hs.scopePath_eq⟩
    exact ⟨hsame,
      hdrift.grows, hdrift.draft_eq, hquery.symm, hdrift.scopeDepth_eq, hdrift.scopePath_eq⟩

end Compile

namespace Compiler

open Compile

variable {setup : Setup} {compiler : Compiler}

/-! ## Compilers -/

/-- A computation that rests, run on a compiler. -/
theorem run_rested {α : Type} {action : Environment → Compile α}
    (h : Rests compiler.environment (action compiler.environment) compiler.progress) :
    Rested compiler.environment compiler.progress (compiler.run action).2.progress := by
  rcases run_spec h with ⟨_, -, hrested⟩ | ⟨_, -, hrested⟩
  · exact hrested
  · exact hrested

/-- **One use on a settled query** leaves the draft and the scans alone, whatever its outcome. -/
theorem use_rest (h : RootSettled compiler.environment compiler.progress) (use : Use) :
    Rested compiler.environment compiler.progress (compiler.use use).progress := by
  have howner : ∀ field, Rests compiler.environment (ownerOf compiler.environment field)
      compiler.progress := fun field => .of_looks h.1 ⟨_, exec_ownerOf h.1 field⟩
  cases use with
  | call call => exact perform_rest h call
  | aggregateIndex =>
    refine run_rested (Rests.get ?_)
    simp only
    split
    · exact (howner _).bind fun _ q hq => .pure hq.sound _
    · exact .throw h.1 _
  | aggregateField =>
    refine run_rested (Rests.get ?_)
    split
    · exact .throw h.1 _
    · simp only
      split
      · exact .pure h.1 _
      · refine (howner _).bind fun _ q hq => ?_
        split <;> exact .pure hq.sound _
  | searchIndex => exact .refl h.1
  | aggregateNested => exact .refl h.1
  | dump => exact .refl h.1

/-- Uses on a settled query leave the draft and the scans alone. -/
theorem used_rest (h : RootSettled compiler.environment compiler.progress) (uses : List Use) :
    Rested compiler.environment compiler.progress (compiler.used uses).progress := by
  induction uses generalizing compiler with
  | nil => exact .refl h.1
  | cons use rest ih =>
    have hrested := use_rest h use
    have hnext := (resting_discipline _).keep _ _ h hrested
    rw [← use_environment compiler use] at hnext hrested
    have hrest := ih hnext
    rw [use_environment] at hrest hrested
    exact hrested.trans hrest

/-- A started compiler holds the query of its request. -/
theorem holds_of_started (h : setup.Started compiler) {tree : Tree}
    (hquery : setup.request.query = some tree) :
    ∃ root : Nat, compiler.progress.draft.root = some root ∧
      compiler.progress.draft.arena.Holds root tree ∧ root < compiler.progress.draft.arena.size := by
  obtain ⟨md, hprogress⟩ := h.progress_eq
  obtain ⟨root, hroot, hinserted, -⟩ := setup.request.draft_fresh.rooted tree hquery
  rw [hprogress]
  exact ⟨root, hroot, hinserted.holds, hinserted.id_eq ▸ hinserted.size_lt⟩

/-- The query of a request without expansions is settled from the start. -/
theorem rootSettled_of_started (h : setup.Started compiler)
    (hbare : ∀ tree, setup.request.query = some tree → tree.IsBare) :
    RootSettled compiler.environment compiler.progress := by
  refine ⟨h.sound, fun root hroot => ?_⟩
  obtain ⟨tree, hquery, hinserted⟩ := h.inserted_root hroot
  have hlt : root < compiler.progress.draft.arena.size := hinserted.id_eq ▸ hinserted.size_lt
  exact h.sound.ascending.settled_of_bare hlt
    ((h.sound.ascending.bare_iff hinserted.holds).mpr (hbare tree hquery))

/-- **Compilers of queries without expansions have no history.** Whatever a compiler was used for, in
whatever order and with whatever outcomes: the draft is the one of the request, slot by slot; no scan
was requested; and compiling the query or the aggregate once more gives the result, or the error, of the
first time. -/
theorem used_transparent (hstart : setup.start = .ok compiler)
    (hbare : ∀ tree, setup.request.query = some tree → tree.IsBare) (uses : List Use) :
    (compiler.used uses).progress.draft = setup.request.draft ∧
      (compiler.used uses).scans = [] ∧
      (compiler.used uses).query.1 = compiler.query.1 ∧
      (compiler.used uses).aggregation.1 = compiler.aggregation.1 ∧
      (compiler.used uses).suggestion = compiler.suggestion := by
  have hstarted := Setup.started_of_ok hstart
  have hidle := idle_of_started hstarted
  have hsettled := rootSettled_of_started hstarted hbare
  have hrested := used_rest hsettled uses
  have hdrift := drifted_of_evolves (used_evolves hidle uses) hrested.draft_eq
  obtain ⟨md, hprogress⟩ := hstarted.progress_eq
  refine ⟨?_, ?_, ?_, ?_, ?_⟩
  · rw [hrested.draft_eq, hprogress]
  · rw [scans, hrested.scans_eq, hprogress]
  · show (exec (rootQuery (compiler.used uses).environment) (compiler.used uses).progress).1 = _
    rw [used_environment]
    exact (rootQuery_timeless hsettled _ hdrift).1
  · show (exec (aggregate (compiler.used uses).environment) (compiler.used uses).progress).1 = _
    rw [used_environment]
    exact (aggregate_timeless hsettled hidle.aggregating_eq _ hdrift).1
  · rw [suggestion, hrested.draft_eq, suggestion]

/-- A tally of the tags of items, over those with the tag `x` and not similar to `y` in a way that
cannot be compiled. -/
def tagTally : Setup where
  index := "books"
  request := {
    query := some (.conjunction [.scope [.word "tag" (.str "x")],
      .negation ((Query.Tree.word "tag" (.str "y")).withOperator .fuzzyConcept)])
    aggregate := some { outer := { kind := .tally "" 10 .count, field := "tag", nestedPath := some "items" } } }
  resolver := some (Cluster.resolver { mappings := [
    ("books", (Mapping.keyed "books" "id").withField "tag"
      { type := .keyword none, nestedPath := some "items" })] })
  executor := some (Cluster.executor { documents := [("books", [])] })

/-- The query fails every time, and the aggregate, of which the negation is no part, succeeds. -/
theorem used_transparent_tagTally : ∃ compiler error tree, tagTally.start = .ok compiler ∧
    compiler.query.1 = .error error ∧ compiler.aggregation.1 = .ok (some tree) ∧
    (compiler.used [.call .query, .call .aggregation, .dump, .call .query]).progress.draft =
      tagTally.request.draft ∧
    (compiler.used [.call .query, .call .aggregation, .dump, .call .query]).query.1 = .error error ∧
    (compiler.used [.call .query, .searchIndex, .call .suggestion]).aggregation.1 = .ok (some tree) := by
  have hrun : (tagTally.start.toOption.any fun compiler =>
      !compiler.query.1.isOk && compiler.aggregation.1.toOption.any (·.isSome)) = true := by
    decide +kernel
  have hbare : ∀ tree, tagTally.request.query = some tree → tree.IsBare := by
    intro tree htree
    cases htree
    unfold Tree.IsBare
    decide
  simp only [Option.any_eq_true, toOption_eq_some, Bool.and_eq_true, Option.isSome_iff_exists] at hrun
  obtain ⟨compiler, hstart, hfails, _, haggregation, tree, rfl⟩ := hrun
  obtain ⟨error, herror⟩ : ∃ error, compiler.query.1 = .error error := by
    rcases hquery : compiler.query.1 with error | fragment
    · exact ⟨error, rfl⟩
    · rw [hquery] at hfails
      exact absurd hfails (by simp [Except.isOk, Except.toBool])
  obtain ⟨hdraft, -, hquery, -⟩ := used_transparent hstart hbare
    [.call .query, .call .aggregation, .dump, .call .query]
  obtain ⟨-, -, -, hagain, -⟩ := used_transparent hstart hbare
    [.call .query, .searchIndex, .call .suggestion]
  exact ⟨compiler, error, tree, hstart, herror, haggregation, hdraft, hquery.trans herror,
    hagain.trans haggregation⟩

end Compiler

end LinkedSearch
