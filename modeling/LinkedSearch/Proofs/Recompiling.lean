import LinkedSearch.Proofs.Rewriting
import LinkedSearch.Proofs.Yielding

/-! # Compiling a node again

A node that was compiled once meets no expansion when it is compiled again, but the query below it is
not the one that it was. What makes a difference is the nested path of an outermost scope, which all
leaves below it decide on, also those that the first compilation has put in the place of expansions
and those that it has taken away.

* `Repeats`: a later state in which a node may be compiled again.
* `UnderPaths`: a fragment that keeps every outermost scope under the path that its leaves share now.
* `nodeWithin_again`: compiling again gives the same fragment if it is such a fragment. -/

namespace LinkedSearch

open Query (Arena Kind Label NodeId Tree)

namespace Compile

variable {env : Environment} {base p q s t u : Progress} {n m : Nat} {F : Fragment}

/-! ## Later states -/

/-- **Repetition**: a state in which predicates are compiled as in an earlier one. -/
structure Repeats (env : Environment) (p t : Progress) : Prop where
  sound : Sound env t
  peers : Peers env p t
  origin_eq : t.metadata.origin = p.metadata.origin
  primary_eq : t.metadata.primary = p.metadata.primary
  links_eq : t.metadata.links = p.metadata.links

namespace Repeats

/-- The facts about fields are the same. -/
theorem sameFacts (h : Repeats env p t) (label : Label) : SameFacts env p t label := by
  unfold SameFacts Metadata.factsOf Metadata.ownerMapping
  rw [Metadata.owner_congr h.origin_eq h.primary_eq h.links_eq]

/-- A state into which another one has evolved. -/
theorem of_evolves (hp : Sound env p) (h : Evolves env p t) : Repeats env p t where
  sound := h.sound
  peers := ⟨hp.faithful, h.sound.faithful, h.aggregating_eq, h.scopeDepth_eq, h.scopePath_eq,
    h.arrayData_eq⟩
  origin_eq := h.grows.origin_eq
  primary_eq := h.grows.primary_eq
  links_eq := h.grows.links_eq

/-- Both states go on: the first one evolves, and the second one drifts. -/
theorem next (h : Repeats env p t) (hps : Evolves env p s) (htu : Drifted env t u) :
    Repeats env s u where
  sound := htu.sound h.sound
  peers := {
    faithful_left := hps.sound.faithful
    faithful_right := (htu.sound h.sound).faithful
    aggregating_eq := by rw [htu.aggregating_eq, hps.aggregating_eq, h.peers.aggregating_eq]
    scopeDepth_eq := by rw [htu.scopeDepth_eq, hps.scopeDepth_eq, h.peers.scopeDepth_eq]
    scopePath_eq := by
      by_cases hzero : p.scopeDepth = 0
      · exact .inl (hps.scopeDepth_eq.trans hzero)
      · have hzero' : t.scopeDepth ≠ 0 := by rwa [h.peers.scopeDepth_eq]
        rw [hps.scopePath_eq.resolve_left hzero, htu.scopePath_eq.resolve_left hzero']
        exact .inr (h.peers.scopePath_eq.resolve_left hzero)
    arrayData_eq := by rw [htu.draft_eq, hps.arrayData_eq, h.peers.arrayData_eq] }
  origin_eq := by rw [htu.grows.origin_eq, hps.grows.origin_eq, h.origin_eq]
  primary_eq := by rw [htu.grows.primary_eq, hps.grows.primary_eq, h.primary_eq]
  links_eq := by rw [htu.grows.links_eq, hps.grows.links_eq, h.links_eq]

/-- Both states enter a scope with the same path. -/
theorem enter (h : Repeats env p t) (path : Option String) :
    Repeats env { p with scopePath := path, scopeDepth := p.scopeDepth + 1 }
      { t with scopePath := path, scopeDepth := t.scopeDepth + 1 } where
  sound := ⟨h.sound.ascending, h.sound.faithful⟩
  peers := ⟨h.peers.faithful_left, h.peers.faithful_right, h.peers.aggregating_eq,
    congrArg (· + 1) h.peers.scopeDepth_eq, .inr rfl, h.peers.arrayData_eq⟩
  origin_eq := h.origin_eq
  primary_eq := h.primary_eq
  links_eq := h.links_eq

/-- The synthesized expansions that are being resolved do not matter. -/
theorem generating (h : Repeats env p t) (stack : List NodeId) :
    Repeats env { p with generated := stack } t where
  sound := h.sound
  peers := ⟨h.peers.faithful_left, h.peers.faithful_right, h.peers.aggregating_eq,
    h.peers.scopeDepth_eq, h.peers.scopePath_eq, h.peers.arrayData_eq⟩
  origin_eq := h.origin_eq
  primary_eq := h.primary_eq
  links_eq := h.links_eq

end Repeats

/-- Looking things up is a drift as well as an evolution. -/
theorem Repeats.looked (h : Repeats env p t) (hp : Sound env p) (hps : Looked env p s)
    (htu : Looked env t u) : Repeats env s u :=
  h.next (hps.evolves hp) (.looked htu)

/-! ## Predicates and proximities -/

/-- A predicate is compiled to the same fragment again. -/
theorem predicate_again (h : Repeats env p t) (label : Label)
    (hexec : exec (predicate env label) p = (.ok F, q)) :
    ∃ t', exec (predicate env label) t = (.ok F, t') ∧ Drifted env t t' := by
  obtain ⟨outcome, md, md', hx, hy, -, hg⟩ :=
    predicate_agrees h.peers (h.sameFacts label) _ _ (.refl _) (.refl _)
  have hx : exec (predicate env label) p = (outcome, { p with metadata := md }) := hx
  have hy : exec (predicate env label) t = (outcome, { t with metadata := md' }) := hy
  obtain ⟨rfl, -⟩ := Prod.mk.inj (hx.symm.trans hexec)
  exact ⟨_, hy, .looked ⟨md', hg, rfl⟩⟩

/-- A computation that never succeeds is followed by any other one. -/
theorem Follows.of_fails {α : Type} {x y : Compile α} (h : ∀ s, Drifted env p s → ∀ a s',
    exec x s ≠ (.ok a, s')) : Follows env x y p t :=
  fun s _ hs _ a s' hx => absurd hx (h s hs a s')

/-- An expansion is no condition on word positions. -/
theorem spanOfLeaf_fails {label : Label} (hkind : label.kind.isExpansion = true)
    (operator : Query.Operator) (field : String) (s : Progress) (span : Span) :
    exec (spanOfLeaf operator field label) s ≠ (.ok span, q) := by
  have hnone : spanOfLeaf? operator field label = none := by
    unfold spanOfLeaf?
    split <;> first | rfl | simp_all [Kind.isExpansion]
  unfold spanOfLeaf
  rw [hnone]
  exact fun h => absurd (congrArg Prod.fst h) (by simp [exec])

section Proximity

variable (h : Repeats env p t) (hasc : p.draft.arena.Ascending)
  (hpruned : p.draft.arena.Pruned t.draft.arena)

include h hasc hpruned

/-- The clauses of a proximity are about nodes that are no expansions, and these are as before. -/
theorem nearWithin_follows (k : Nat) : ∀ {k' n : Nat} (outer : Label), k ≤ k' →
    n < p.draft.arena.size → p.draft.arena.Exposed n →
    (p.draft.arena.label n).kind.isExpansion = false →
    Follows env (nearWithin env k outer n) (nearWithin env k' outer n) p t := by
  induction k with
  | zero =>
    intro k' n outer _ _ _ _
    exact .of_fails fun s _ a s' hx => absurd (congrArg Prod.fst hx) (by simp [nearWithin, exec])
  | succ k ih =>
    intro k' n outer hk hn hexposed hkind
    obtain ⟨k', rfl⟩ : ∃ j, k' = j + 1 := ⟨k' - 1, by omega⟩
    have hslot := hpruned.slot_eq n hn hexposed hkind
    unfold nearWithin
    refine .childrenOf ?_
    rw [Query.Arena.children_congr hslot]
    refine (Follows.mapM (List.forall₂_same.mpr fun c hc => ?_)).bind fun _ => .pure _
    have hc' := hasc.child_lt n c hc
    have hcexposed := hexposed.child hasc hkind hc
    unfold spanOfChild
    refine .labelOf ?_
    -- an expansion in a proximity fails the first time already; anything else is in its slot still
    cases hexp : (p.draft.arena.label c).kind.isExpansion with
    | true =>
      refine .of_fails fun s _ span s' hx => ?_
      obtain ⟨link, generated, hk⟩ := Kind.exists_of_isExpansion hexp
      simp only [hk] at hx
      obtain ⟨inner, u, hinner, -⟩ := exec_bind_ok.mp hx
      exact spanOfLeaf_fails hexp _ _ s inner hinner
    | false =>
      rw [Query.Arena.label_congr (hpruned.slot_eq c hc' hcexposed hexp)]
      simp only
      split
      · next hphrase =>
        refine Follows.bind (.of_agrees fun s s' hs hs' => spanOfPhrase_agrees (hs.peers hs' h.peers) outer
          (hs.sameFacts hs' (h.sameFacts _)) (by rw [hphrase]; rfl)) fun _ => .pure _
      · exact (ih _ (by omega) hc' hcexposed hexp).bind fun _ => .pure _
      · exact (Follows.of_agrees fun s s' _ _ => spanOfLeaf_agrees _ _).bind fun _ => .pure _

/-- A proximity is compiled to the same fragment again. -/
theorem proximity_again (hn : n < p.draft.arena.size) (hexposed : p.draft.arena.Exposed n)
    (hkind : (p.draft.arena.label n).kind.isExpansion = false) (label : Label)
    (hexec : exec (weightedProximity env label n) p = (.ok F, q)) :
    ∃ t', exec (weightedProximity env label n) t = (.ok F, t') ∧ Drifted env t t' := by
  have hfollows : Follows env (weightedProximity env label n) (weightedProximity env label n) p t := by
    unfold weightedProximity
    refine Follows.bind ?_ fun _ => .pure _
    intro s s' hs hs' span r hx
    unfold proximity at hx ⊢
    rw [exec_bind] at hx ⊢
    have hx : exec (nearWithin env s.draft.arena.size label n >>= fun span => pure (.span span)) s =
      (.ok span, r) := hx
    show ∃ t', exec (nearWithin env s'.draft.arena.size label n >>= fun span => pure (.span span)) s' =
      (.ok span, t') ∧ _
    rw [hs.draft_eq] at hx
    rw [hs'.draft_eq]
    exact (nearWithin_follows h hasc hpruned _ label hpruned.size_le hn hexposed hkind).bind
      (fun _ => .pure _) s s' hs hs' span r hx
  obtain ⟨t', ht, -, hdrift⟩ := hfollows p t (.refl p) (.refl t) F q hexec
  exact ⟨t', ht, hdrift⟩

end Proximity

/-! ## Scopes -/

/-- The fragment of an outermost scope. -/
def underPath (path : Option String) (clauses : List Fragment) : Fragment :=
  match path with
  | some path => .nested path (.all clauses) none
  | none => .all clauses

/-- The fragment of a scope tells its path. -/
theorem underPath_inj {path path' : Option String} {clauses clauses' : List Fragment}
    (h : underPath path clauses = underPath path' clauses') : path = path' := by
  cases path <;> cases path' <;> simp_all [underPath, Fragment.all]

/-- Outside of scopes, a scope is closed under its path. -/
theorem closeScope_outermost (clauses : List Fragment) (hdepth : s.scopeDepth = 0) :
    (closeScope clauses s).1 = underPath s.scopePath clauses := by
  cases hpath : s.scopePath <;> simp [closeScope, underPath, hdepth, hpath]

/-- A scope has the same path again if there is the same tree below it. -/
theorem sharedPath_again (h : Repeats env p t) (hp : Sound env p) {tree : Tree}
    (hn : p.draft.arena.Holds n tree) (hn' : t.draft.arena.Holds n tree) :
    ∃ outcome p' t', exec (sharedPath env n) p = (outcome, p') ∧ Looked env p p' ∧
      exec (sharedPath env n) t = (outcome, t') ∧ Looked env t t' := by
  obtain ⟨outcome, md, md', hx, hy, hg, hg'⟩ := sharedPath_agrees h.peers hp.ascending
    h.sound.ascending hn hn' (fun label _ _ => h.sameFacts label) _ _ (.refl _) (.refl _)
  exact ⟨outcome, _, _, hx, ⟨md, hg, rfl⟩, hy, ⟨md', hg', rfl⟩⟩

/-- The path of a scope does not change when the state drifts. -/
theorem sharedPath_drifted (hp : Sound env p) (h : Drifted env p t) (n : Nat) :
    ∃ t', exec (sharedPath env n) t = ((exec (sharedPath env n) p).1, t') ∧ Looked env t t' := by
  have hrepeats : Repeats env p p := .of_evolves hp (.refl hp)
  obtain ⟨outcome, p', t', hx, -, hy, hlooked⟩ := sharedPath_again (n := n)
    (hrepeats.next (.refl hp) h) hp (hp.ascending.holds_treeAt n)
    (by rw [h.draft_eq]; exact hp.ascending.holds_treeAt n)
  rw [hx]
  exact ⟨t', hy, hlooked⟩

/-- **Under its paths**: a fragment for a node outside of scopes that keeps the clauses of every
outermost scope under the nested path that the leaves of the scope share in a state. -/
inductive UnderPaths (env : Environment) (p : Progress) : NodeId → Fragment → Prop where
  | connective (n : NodeId) (wrap : List Fragment → Fragment) (clauses : List Fragment)
      (hwrap : (p.draft.arena.label n).kind.connective? = some wrap)
      (hall : List.Forall₂ (UnderPaths env p) (p.draft.arena.children n) clauses) :
      UnderPaths env p n (wrap clauses)
  | scope (n : NodeId) (path : Option String) (clauses : List Fragment)
      (hkind : (p.draft.arena.label n).kind = .scope)
      (hpath : (exec (sharedPath env n) p).1 = .ok path) :
      UnderPaths env p n (underPath path clauses)
  | joined (n : NodeId) (join : Fragment → Fragment) (child : NodeId) (rest : List NodeId)
      (inner : Fragment) (hjoin : (p.draft.arena.label n).kind.join? = some join)
      (hchildren : p.draft.arena.children n = child :: rest)
      (hinner : UnderPaths env p child inner) :
      UnderPaths env p n (if env.settings.useParentChild then join inner else inner)
  | childless (n : NodeId) (join : Fragment → Fragment)
      (hjoin : (p.draft.arena.label n).kind.join? = some join)
      (hchildren : p.draft.arena.children n = []) : UnderPaths env p n (.matchAll none)
  | predicate (n : NodeId) (F : Fragment)
      (hkind : (p.draft.arena.label n).kind.isLeaf = true ∨
        (p.draft.arena.label n).kind.isProximity = true) : UnderPaths env p n F

/-- A connective keeps its clauses apart. -/
theorem connective_inj {kind : Kind} {wrap : List Fragment → Fragment}
    (hwrap : kind.connective? = some wrap) {clauses clauses' : List Fragment}
    (h : wrap clauses = wrap clauses') : clauses = clauses' := by
  cases kind with
  | conjunction | disjunction | negation =>
    obtain rfl := Option.some.inj hwrap
    simpa [Fragment.all, Fragment.any] using h
  | _ => exact absurd hwrap (by simp [Kind.connective?])

/-- A join keeps its fragment apart. -/
theorem join_inj {kind : Kind} {join : Fragment → Fragment} (hjoin : kind.join? = some join)
    {inner inner' : Fragment} (h : join inner = join inner') : inner = inner' := by
  cases kind with
  | child typeName | parent typeName =>
    obtain rfl := Option.some.inj hjoin
    simpa using h
  | _ => exact absurd hjoin (by simp [Kind.join?])

namespace UnderPaths

/-- The clauses of a connective are under their paths. -/
theorem clauses {wrap : List Fragment → Fragment} {clauses : List Fragment}
    (hwrap : (p.draft.arena.label n).kind.connective? = some wrap)
    (h : UnderPaths env p n (wrap clauses)) :
    List.Forall₂ (UnderPaths env p) (p.draft.arena.children n) clauses := by
  generalize hF : wrap clauses = F at h
  cases h with
  | connective _ wrap' clauses' hwrap' hall =>
    obtain rfl := Option.some.inj (hwrap.symm.trans hwrap')
    rwa [connective_inj hwrap hF]
  | scope _ path _ hkind _ => rw [hkind] at hwrap; exact absurd hwrap (by simp [Kind.connective?])
  | joined _ join _ _ _ hjoin _ _ | childless _ join hjoin _ =>
    cases hk : (p.draft.arena.label n).kind <;> simp_all [Kind.connective?, Kind.join?]
  | predicate _ _ hkind =>
    cases hk : (p.draft.arena.label n).kind <;>
      simp_all [Kind.connective?, Kind.isLeaf, Kind.isProximity]

/-- A scope is under its path. -/
theorem path (hkind : (p.draft.arena.label n).kind = .scope) (h : UnderPaths env p n F) :
    ∃ path clauses, F = underPath path clauses ∧ (exec (sharedPath env n) p).1 = .ok path := by
  cases h with
  | scope _ path clauses _ hpath => exact ⟨path, clauses, rfl, hpath⟩
  | connective _ wrap _ hwrap _ => rw [hkind] at hwrap; exact absurd hwrap (by simp [Kind.connective?])
  | joined _ join _ _ _ hjoin _ _ | childless _ join hjoin _ =>
    rw [hkind] at hjoin
    exact absurd hjoin (by simp [Kind.join?])
  | predicate _ _ hpredicate =>
    rw [hkind] at hpredicate
    exact absurd hpredicate (by simp [Kind.isLeaf, Kind.isProximity])

/-- What is joined is under its paths. -/
theorem inner {join : Fragment → Fragment} {child : NodeId} {rest : List NodeId} {inner : Fragment}
    (hjoin : (p.draft.arena.label n).kind.join? = some join)
    (hchildren : p.draft.arena.children n = child :: rest)
    (h : UnderPaths env p n (if env.settings.useParentChild then join inner else inner)) :
    UnderPaths env p child inner := by
  generalize hF : (if env.settings.useParentChild then join inner else inner) = F at h
  cases h with
  | joined _ join' child' rest' inner' hjoin' hchildren' hinner =>
    obtain rfl := Option.some.inj (hjoin.symm.trans hjoin')
    obtain ⟨rfl, -⟩ := List.cons.inj (hchildren.symm.trans hchildren')
    split at hF
    · rwa [join_inj hjoin hF]
    · rwa [hF]
  | childless _ _ _ hnone => rw [hchildren] at hnone; exact absurd hnone (by simp)
  | scope _ path _ hkind _ => rw [hkind] at hjoin; exact absurd hjoin (by simp [Kind.join?])
  | connective _ wrap _ hwrap _ =>
    cases hk : (p.draft.arena.label n).kind <;> simp_all [Kind.connective?, Kind.join?]
  | predicate _ _ hkind =>
    cases hk : (p.draft.arena.label n).kind <;>
      simp_all [Kind.join?, Kind.isLeaf, Kind.isProximity]

end UnderPaths

/-- A scope is entered with the same path again if its leaves share it again. -/
theorem entered_again (hp : Sound env p) (hentered : Entered env n p s) (h : Repeats env p t)
    (hshared : p.scopeDepth = 0 →
      (exec (sharedPath env n) t).1 = (exec (sharedPath env n) p).1) :
    ∃ u, Entered env n t u ∧ Drifted env t u ∧ s.draft = p.draft ∧
      s.aggregating = p.aggregating ∧ Repeats env { s with scopeDepth := s.scopeDepth + 1 }
        { u with scopeDepth := u.scopeDepth + 1 } := by
  cases hentered with
  | outermost path s hzero hpath =>
    obtain ⟨outcome, s', hs, hlooked⟩ := sharedPath_looks hp n
    obtain ⟨outcome', u, hu, hlooked'⟩ := sharedPath_looks h.sound n
    obtain ⟨rfl, rfl⟩ := Prod.mk.inj (hs.symm.trans hpath)
    have hsame := hshared hzero
    rw [hs, hu] at hsame
    obtain rfl : outcome' = .ok path := hsame
    have hzero' : t.scopeDepth = 0 := h.peers.scopeDepth_eq.trans hzero
    -- the path is looked up again, which changes nothing but the metadata
    have hdrift : Drifted env t u := .looked hlooked'
    refine ⟨_, .outermost path u hzero' hu, ?_, hlooked.draft_eq, ?_,
      (h.looked hp hlooked hlooked').enter path⟩
    · exact ⟨hdrift.grows, hdrift.draft_eq, hdrift.aggregating_eq, hdrift.scopeDepth_eq, .inl hzero'⟩
    · exact (hlooked.evolves hp).aggregating_eq
  | inner hdepth =>
    have hdepth' : t.scopeDepth ≠ 0 := by rwa [h.peers.scopeDepth_eq]
    refine ⟨t, .inner hdepth', .refl t, rfl, rfl, ?_⟩
    have hsame : ({ t with scopeDepth := t.scopeDepth + 1 } : Progress) =
        { t with scopePath := p.scopePath, scopeDepth := t.scopeDepth + 1 } := by
      rw [← h.peers.scopePath_eq.resolve_left hdepth]
    rw [hsame]
    exact h.enter p.scopePath

/-! ## Nodes -/

/-- **Recompiling**: a node that was compiled in a query, with no expansion above it, is compiled to
the same fragment in later states, outside of scopes if the fragment is under its paths. -/
def Recompiles (env : Environment) (fuel bound : Nat) : Prop :=
  ∀ (n : Nat) (p q t base : Progress) (F : Fragment), Sound env base → Sound env p →
    n < p.draft.arena.size →
    p.draft.arena.Exposed n → p.aggregating = false → exec (nodeWithin env fuel n) p = (.ok F, q) →
    Repeats env p t → q.draft.arena.Rewrites t.draft.arena →
    (p.scopeDepth = 0 → Drifted env base t ∧ UnderPaths env base n F) →
    ∃ t', exec (nodeWithin env bound n) t = (.ok F, t') ∧ Drifted env t t'

/-- An outermost scope is under the path that its leaves share. -/
theorem closeScope_underPath {fuel : Nat} {u : Progress} {clauses : List Fragment}
    (hp : Sound env p) (hzero : p.scopeDepth = 0) (hentered : Entered env n p s) (ids : List NodeId)
    (hall : exec (ids.mapM (nodeWithin env fuel)) { s with scopeDepth := s.scopeDepth + 1 } =
      (.ok clauses, u))
    (hclose : (F, q) = closeScope clauses { u with scopeDepth := u.scopeDepth - 1 }) :
    ∃ path, (exec (sharedPath env n) p).1 = .ok path ∧ F = underPath path clauses := by
  cases hentered with
  | inner hdepth => exact absurd hzero hdepth
  | outermost path s _ hpath =>
    obtain ⟨outcome, s', hs, hlooked⟩ := sharedPath_looks hp n
    obtain ⟨rfl, rfl⟩ := Prod.mk.inj (hs.symm.trans hpath)
    have hentered := (hlooked.evolves hp).sound
    obtain ⟨hsu, -⟩ := (wp_of_ok hall).mp (Steps.mapM (fun c _ => nodeWithin_steps fuel c) _
      ⟨hentered.ascending, hentered.faithful⟩)
    have hdepth : ({ u with scopeDepth := u.scopeDepth - 1 } : Progress).scopeDepth = 0 := by
      show u.scopeDepth - 1 = 0
      rw [hsu.scopeDepth_eq]
      exact (hlooked.evolves hp).scopeDepth_eq.trans hzero
    refine ⟨path, by rw [hpath], ?_⟩
    rw [show F = _ from congrArg Prod.fst hclose, closeScope_outermost clauses hdepth]
    exact congrArg (underPath · clauses) (hsu.scopePath_eq.resolve_left (Nat.succ_ne_zero _))

section Again

variable {fuel bound : Nat} (hrecur : Recompiles env fuel bound)

include hrecur

/-- Some nodes, compiled one after the other. -/
theorem compiledAll_again (ids : List NodeId) {clauses : List Fragment} (hbase : Sound env base)
    (hp : Sound env p)
    (hids : ∀ c ∈ ids, (c : Nat) < p.draft.arena.size ∧ p.draft.arena.Exposed c)
    (hquery : p.aggregating = false)
    (hall : exec (ids.mapM (nodeWithin env fuel)) p = (.ok clauses, q)) (h : Repeats env p t)
    (hlater : q.draft.arena.Rewrites t.draft.arena)
    (hpaths : p.scopeDepth = 0 →
      Drifted env base t ∧ List.Forall₂ (UnderPaths env base) ids clauses) :
    ∃ t', exec (ids.mapM (nodeWithin env bound)) t = (.ok clauses, t') ∧ Drifted env t t' := by
  induction ids generalizing p t clauses with
  | nil =>
    obtain ⟨hclauses, -⟩ := Prod.mk.inj hall
    obtain rfl := Except.ok.inj hclauses
    exact ⟨t, rfl, .refl t⟩
  | cons c rest ih =>
    obtain ⟨F, s, clauses', hc, hrest, rfl⟩ := exec_mapM_cons_ok.mp hall
    obtain ⟨hps, -⟩ := compiled_of_ok hp hc
    obtain ⟨hclt, hcexposed⟩ := hids c List.mem_cons_self
    have hrestlt := fun c' hc' => hids c' (List.mem_cons_of_mem c hc')
    -- what is rewritten by the first node and by the others, before the second compilation starts
    have hfirst := nodeWithin_rewrites fuel c p s F hp hclt hc
    have hsecond := compiledAll_rewrites rest hps.sound
      (fun c' hc' => Nat.lt_of_lt_of_le (hrestlt c' hc').1 hps.size_le) hrest
    have hforall : p.scopeDepth = 0 → Drifted env base t ∧ UnderPaths env base c F ∧
        List.Forall₂ (UnderPaths env base) rest clauses' := fun hzero =>
      ⟨(hpaths hzero).1, List.forall₂_cons.mp (hpaths hzero).2⟩
    obtain ⟨t₁, ht₁, hdrift⟩ := hrecur c p s t base F hbase hp hclt hcexposed hquery hc h
      (hsecond.trans hlater) fun hzero => ⟨(hforall hzero).1, (hforall hzero).2.1⟩
    obtain ⟨t₂, ht₂, hdrift'⟩ := ih hps.sound
      (fun c' hc' => ⟨Nat.lt_of_lt_of_le (hrestlt c' hc').1 hps.size_le,
        (hfirst.pruned hp.ascending).exposed c' (hrestlt c' hc').1 (hrestlt c' hc').2⟩)
      (hps.aggregating_eq.trans hquery) hrest (h.next hps hdrift)
      (by rw [hdrift.draft_eq]; exact hlater) fun hzero =>
        ⟨(hforall (hps.scopeDepth_eq ▸ hzero)).1.trans hdrift,
          (hforall (hps.scopeDepth_eq ▸ hzero)).2.2⟩
    exact ⟨t₂, exec_mapM_cons_ok.mpr ⟨F, t₁, clauses', ht₁, ht₂, rfl⟩, hdrift.trans hdrift'⟩

/-- A scope is compiled to the same fragment again if its leaves share the same path again. -/
theorem scope_again {u : Progress} {clauses : List Fragment} (hp : Sound env p)
    (hexposed : p.draft.arena.Exposed n) (hkind : (p.draft.arena.label n).kind = .scope)
    (hquery : p.aggregating = false) (hentered : Entered env n p s)
    (hall : exec ((p.draft.arena.children n).mapM (nodeWithin env fuel))
      { s with scopeDepth := s.scopeDepth + 1 } = (.ok clauses, u))
    (hclose : (F, q) = closeScope clauses { u with scopeDepth := u.scopeDepth - 1 })
    (h : Repeats env p t) (hlater : q.draft.arena.Rewrites t.draft.arena)
    (hslot : t.draft.arena.slot? n = p.draft.arena.slot? n)
    (hshared : p.scopeDepth = 0 →
      (exec (sharedPath env n) t).1 = (exec (sharedPath env n) p).1) :
    ∃ t', Yields env (nodeWithin env bound) n t F t' ∧ Drifted env t t' := by
  obtain ⟨t₁, hentered', hdrift, hdraft, haggregating, hinside⟩ :=
    entered_again hp hentered h hshared
  have hs : Sound env { s with scopeDepth := s.scopeDepth + 1 } :=
    ⟨by rw [hdraft]; exact hp.ascending, hinside.peers.faithful_left⟩
  obtain ⟨hsu, -⟩ := (wp_of_ok hall).mp (Steps.mapM (fun c _ => nodeWithin_steps fuel c) _ hs)
  -- leaving the scope changes its path and depth only
  have hexit : Drifted env { u with scopeDepth := u.scopeDepth - 1 }
      (closeScope clauses { u with scopeDepth := u.scopeDepth - 1 }).2 := closeScope_drifted clauses _
  rw [← hclose] at hexit
  obtain ⟨t₂, ht₂, hdrift'⟩ := @compiledAll_again _ t _ _ _ _ _ hrecur _ _ h.sound hs
    (fun c hc => by
      rw [hdraft]
      exact ⟨hp.ascending.child_lt n c hc, hexposed.child hp.ascending (by rw [hkind]; rfl) hc⟩)
    (haggregating.trans hquery) hall hinside
    (by
      rw [show u.draft.arena = q.draft.arena from congrArg _ hexit.draft_eq.symm,
        show ({ t₁ with scopeDepth := t₁.scopeDepth + 1 } : Progress).draft = t.draft
          from hdrift.draft_eq]
      exact hlater)
    (fun hzero => absurd hzero (Nat.succ_ne_zero _))
  have hsame := hinside.next hsu hdrift'
  refine ⟨(closeScope clauses { t₂ with scopeDepth := t₂.scopeDepth - 1 }).2,
    .scope t₁ t₂ clauses F _ (by rw [Query.Arena.label_congr hslot]; exact hkind) hentered' ?_
      (Prod.ext ?_ rfl), (hdrift.trans hdrift'.leave).trans (closeScope_drifted ..)⟩
  · rwa [Query.Arena.children_congr hslot]
  · rw [show F = _ from congrArg Prod.fst hclose]
    refine closeScope_congr clauses ?_ ?_
    · show u.scopeDepth - 1 = t₂.scopeDepth - 1
      rw [hsame.peers.scopeDepth_eq]
    · refine (hsame.peers.scopePath_eq.resolve_left ?_).symm
      rw [hsu.scopeDepth_eq]
      exact Nat.succ_ne_zero _

end Again

/-- A compiled node that is an expansion was expanded. -/
theorem Compiled.expanded {recur : NodeId → Compile Fragment} (h : Compiled env recur n p F q)
    (hkind : (p.draft.arena.label n).kind.isExpansion = true) :
    ∃ stack s, ((p.draft.arena.label n).kind.isGenerated = false → stack = p.generated) ∧
      Expanded env recur n { p with generated := stack } F s ∧
      q = { s with generated := p.generated } := by
  obtain ⟨link, generated, hk⟩ := Kind.exists_of_isExpansion hkind
  cases h with
  | expansion link' generated' _ stack s hk' hstack hexpanded =>
    obtain ⟨-, rfl⟩ := Kind.expansion.inj (hk.symm.trans hk')
    refine ⟨stack, s, ?_, hexpanded, rfl⟩
    rw [hk]
    exact hstack
  | conjunction | disjunction | negation | scope | joined | childless | admitted | proximity
  | leaf => simp_all [Kind.isLeaf]

/-- **Every compilation repeats itself**, if the second one may go as deep. -/
theorem nodeWithin_again (fuel : Nat) : ∀ {bound : Nat}, fuel ≤ bound → Recompiles env fuel bound := by
  induction fuel with
  | zero =>
    intro bound _ n p q t base F _ _ _ _ _ hexec _ _ _
    exact absurd (congrArg Prod.fst hexec) (by simp [nodeWithin, exec])
  | succ fuel ih =>
    intro bound hbound n p q t base F hbase hp hn hexposed hquery hexec h hlater hpaths
    -- the second compilation meets what the first one, and whatever came later, have left of the draft
    have hpruned := ((nodeWithin_rewrites _ n p q F hp hn hexec).trans hlater).pruned hp.ascending
    cases hkind : (p.draft.arena.label n).kind.isExpansion with
    | true =>
      -- an expansion is settled by now, and its place is compiled in its stead, one level deeper
      obtain ⟨-, fuel', heq, hcompiled⟩ := compiled_of_ok hp hexec
      obtain rfl : fuel = fuel' := by omega
      obtain ⟨stack, r, -, hexpanded, rfl⟩ := hcompiled.expanded hkind
      obtain ⟨s, hps, hfirst, -, -, hinner, -⟩ := hexpanded.rewrites
        (show Sound env { p with generated := stack } from ⟨hp.ascending, hp.faithful⟩)
      exact ih (Nat.le_of_succ_le hbound) n s r t base F hbase hps.sound
        (Nat.lt_of_lt_of_le hn hps.size_le)
        ((hfirst.pruned hp.ascending).exposed n hn hexposed) (hps.aggregating_eq.trans hquery)
        hinner ((h.generating stack).next hps (.refl t)) hlater
        fun hzero => hpaths (hps.scopeDepth_eq.symm.trans hzero)
    | false =>
      obtain ⟨bound, rfl⟩ : ∃ k, bound = k + 1 := ⟨bound - 1, by omega⟩
      -- any other node is in its slot still, and the same case applies to both compilations
      have hslot := hpruned.slot_eq n hn hexposed hkind
      have hlabel := Query.Arena.label_congr hslot
      have hchildren := Query.Arena.children_congr hslot
      have hkind' : (t.draft.arena.label n).kind.isExpansion = false := by rwa [hlabel]
      have hquery' : t.aggregating = false := h.peers.aggregating_eq.trans hquery
      have hopen : t.aggregating = true → (t.draft.arena.label n).kind.isAdmitted = false :=
        fun hfilter => absurd (hquery'.symm.trans hfilter) (by simp)
      have hrecur : Recompiles env fuel bound := ih (by omega)
      have hids : ∀ c ∈ p.draft.arena.children n,
          (c : Nat) < p.draft.arena.size ∧ p.draft.arena.Exposed c := fun c hc =>
        ⟨hp.ascending.child_lt n c hc, hexposed.child hp.ascending hkind hc⟩
      suffices hyields : ∃ t', Yields env (nodeWithin env bound) n t F t' ∧ Drifted env t t' by
        obtain ⟨t', hyields, hdrift⟩ := hyields
        exact ⟨t', (yields_iff hkind').mpr hyields, hdrift⟩
      cases (yields_iff hkind).mp hexec with
      | connective wrap clauses _ hwrap _ hall =>
        have hclauses : p.scopeDepth = 0 → Drifted env base t ∧
            List.Forall₂ (UnderPaths env base) (p.draft.arena.children n) clauses := by
          intro hzero
          obtain ⟨hdrifted, hunder⟩ := hpaths hzero
          rw [← hchildren, hdrifted.draft_eq]
          exact ⟨hdrifted, hunder.clauses (by rwa [← hdrifted.draft_eq, hlabel])⟩
        obtain ⟨t', ht', hdrift⟩ :=
          compiledAll_again hrecur _ hbase hp hids hquery hall h hlater hclauses
        exact ⟨t', .connective wrap clauses t' (by rwa [hlabel]) hopen (by rwa [hchildren]), hdrift⟩
      | scope s u clauses _ _ hk hentered hall hclose =>
        refine scope_again hrecur hp hexposed hk hquery hentered hall hclose h hlater hslot
          fun hzero => ?_
        obtain ⟨path, hpath, hunder⟩ := closeScope_underPath hp hzero hentered _ hall hclose
        obtain ⟨hdrifted, hbase'⟩ := hpaths hzero
        rw [hdrifted.draft_eq] at hlabel
        obtain ⟨path', clauses', hunder', hpath'⟩ := hbase'.path (by rw [← hk, hlabel])
        obtain ⟨t', ht', -⟩ := sharedPath_drifted hbase hdrifted n
        rw [ht', hpath', hpath, underPath_inj (hunder.symm.trans hunder')]
      | joined join child rest inner _ hjoin _ hcons hinner =>
        have hpath : p.scopeDepth = 0 → Drifted env base t ∧ UnderPaths env base child inner := by
          intro hzero
          obtain ⟨hdrifted, hunder⟩ := hpaths hzero
          rw [hdrifted.draft_eq] at hlabel hchildren
          exact ⟨hdrifted, hunder.inner (by rwa [hlabel]) (by rwa [hchildren])⟩
        obtain ⟨hclt, hcexposed⟩ := hids child (by simp [hcons])
        obtain ⟨t', ht', hdrift⟩ :=
          hrecur child p q t base inner hbase hp hclt hcexposed hquery hinner h hlater hpath
        exact ⟨t', .joined join child rest inner t' (by rwa [hlabel]) hopen (by rwa [hchildren]) ht',
          hdrift⟩
      | childless join hjoin _ hnil =>
        exact ⟨t, .childless join (by rwa [hlabel]) hopen (by rwa [hchildren]), .refl t⟩
      | admitted _ hfilter => exact absurd (hquery.symm.trans hfilter) (by simp)
      | proximity _ _ hk hexec =>
        obtain ⟨t', ht', hdrift⟩ := proximity_again h hp.ascending hpruned hn hexposed hkind _ hexec
        exact ⟨t', .proximity F t' (by rwa [hlabel]) (by rwa [hlabel]), hdrift⟩
      | predicate _ _ hk hexec =>
        obtain ⟨t', ht', hdrift⟩ := predicate_again h _ hexec
        exact ⟨t', .predicate F t' (by rwa [hlabel]) (by rwa [hlabel]), hdrift⟩

end Compile

end LinkedSearch
