import LinkedSearch.Proofs.Arena.Paths
import LinkedSearch.Proofs.Blaming
import LinkedSearch.Proofs.Recompiling
import LinkedSearch.Proofs.Resting

/-! # Queries without expansions

What a query without expansions is compiled to depends on the query and on very little else, so that it
can be told without an arena, a log or an executor:

* `compiled?`, `sharedPath?`: the fragment of a query and the path of a scope, as functions of the query.
* `Stands`: states in which the same queries are compiled to the same fragments.
* `nodeWithin_compiled`, `sharedPath_found`: compilations in such states give these fragments, and
  nothing else happens. -/

namespace LinkedSearch

open Query (Arena Kind Label NodeId Tree)

/-- A node without expansions is settled. -/
theorem Query.Arena.Ascending.settled_of_bare {arena : Arena} (h : arena.Ascending) {n : Nat}
    (hn : n < arena.size) (hbare : arena.Bare n) : arena.Settled n :=
  .intro n hn (hbare n (.refl n)) fun c hc =>
    have hchild := Kind.visits_subset _ hc
    h.settled_of_bare (h.child_lt n c hchild) (hbare.child hchild)
termination_by arena.size - n
decreasing_by
  have hlt := h.lt_child n c hchild
  omega

/-- **Terminal queries**: whatever stands below a predicate or a proximity is no query of its own. -/
def Query.Tree.IsTerminal (tree : Tree) : Prop :=
  tree.label.kind.isLeaf = true ∨ tree.label.kind.isProximity = true

/-- The same surroundings without answers to scans. -/
def Environment.silent (env : Environment) : Environment :=
  env.answeredBy fun _ _ => .error .missingExecutor

/-- A state with a query of its own. -/
def Progress.holding (g : Progress) (tree : Tree) : Progress :=
  { g with draft := { g.draft with arena := (Arena.empty.insert tree).1, root := some 0 } }

namespace Compile

section Functions

variable (env : Environment) (g : Progress)

/-- **The fragment of a query** that needs no scan. -/
def compiled? (tree : Tree) : Option Fragment :=
  (exec (nodeWithin env.silent tree.size 0) (g.holding tree)).1.toOption

/-- **The nested path** that the leaves of a scope share. -/
def sharedPath? (tree : Tree) : Option (Option String) :=
  (exec (sharedPath env 0) (g.holding tree)).1.toOption

end Functions

variable {env : Environment} {P : Error → Prop} {g p q : Progress} {n fuel : Nat} {tree : Tree}

/-- A query of its own is held at the root. -/
theorem holding_spec (hg : g.metadata.Faithful env.resolver) (tree : Tree) :
    Sound env (g.holding tree) ∧ (g.holding tree).draft.arena.Holds 0 tree ∧
      0 < (g.holding tree).draft.arena.size := by
  have hinserted := Arena.insert_spec tree .empty .empty
  have hzero : (Arena.empty.insert tree).2 = 0 := hinserted.id_eq
  refine ⟨⟨hinserted.ascending, hg⟩, ?_, hinserted.size_lt⟩
  rw [← hzero]
  exact hinserted.holds

/-! ## States -/

/-- **Standing**: a state in which queries are compiled as in another one, in a draft without parent
scopes. -/
structure Stands (env : Environment) (g p : Progress) : Prop where
  repeats : Repeats env g p
  parentless : ∀ i, (p.draft.arena.label i).kind.isParent = false
  generated_eq : p.generated.isEmpty = g.generated.isEmpty

namespace Stands

theorem sound (h : Stands env g p) : Sound env p := h.repeats.sound

theorem faithful (h : Stands env g p) : g.metadata.Faithful env.resolver :=
  h.repeats.peers.faithful_left

/-- Every state stands in itself. -/
theorem refl (hp : Sound env p) (hparentless : ∀ i, (p.draft.arena.label i).kind.isParent = false) :
    Stands env p p where
  repeats := .of_evolves hp (.refl hp)
  parentless := hparentless
  generated_eq := rfl

/-- **Evolution** does not matter. -/
theorem evolve (h : Stands env g p) (hpq : Evolves env p q) : Stands env g q where
  repeats := {
    sound := hpq.sound
    peers := {
      faithful_left := h.faithful
      faithful_right := hpq.sound.faithful
      aggregating_eq := hpq.aggregating_eq.trans h.repeats.peers.aggregating_eq
      scopeDepth_eq := hpq.scopeDepth_eq.trans h.repeats.peers.scopeDepth_eq
      scopePath_eq := by
        rcases h.repeats.peers.scopePath_eq with hzero | hpath
        · exact .inl hzero
        · rcases hpq.scopePath_eq with hzero | hpath'
          · exact .inl (h.repeats.peers.scopeDepth_eq.symm.trans hzero)
          · exact .inr (hpath'.trans hpath)
      arrayData_eq := hpq.arrayData_eq.trans h.repeats.peers.arrayData_eq }
    origin_eq := hpq.grows.origin_eq.trans h.repeats.origin_eq
    primary_eq := hpq.grows.primary_eq.trans h.repeats.primary_eq
    links_eq := hpq.grows.links_eq.trans h.repeats.links_eq }
  parentless := hpq.parentless h.parentless
  generated_eq := congrArg List.isEmpty hpq.generated_eq |>.trans h.generated_eq

/-- The owners of fields are the same. -/
theorem owner_eq (h : Stands env g p) (field : String) :
    p.metadata.owner env.resolver field = g.metadata.owner env.resolver field :=
  Metadata.owner_congr h.repeats.origin_eq h.repeats.primary_eq h.repeats.links_eq field

/-- The mappings of the owners of fields are the same. -/
theorem ownerMapping_eq (h : Stands env g p) (field : String) :
    p.metadata.ownerMapping env.resolver field = g.metadata.ownerMapping env.resolver field := by
  unfold Metadata.ownerMapping
  rw [h.owner_eq]

/-- Asking for the owner of a field has the same answer. -/
theorem exec_ownerOf (h : Stands env g p) (field : String) :
    ∃ q, exec (ownerOf env field) p = (g.metadata.owner env.resolver field, q) ∧ Looked env p q :=
  h.owner_eq field ▸ Compile.exec_ownerOf h.sound field

/-- Asking for the mapping of the owner of a field has the same answer. -/
theorem exec_mappingOf (h : Stands env g p) (field : String) :
    ∃ q, exec (mappingOf env field) p = (g.metadata.ownerMapping env.resolver field, q) ∧
      Looked env p q :=
  h.ownerMapping_eq field ▸ Compile.exec_mappingOf h.sound field

/-- Both states, inside of an aggregate or outside of it. -/
theorem aggregate (h : Stands env g p) (b : Bool) :
    Stands env { g with aggregating := b } { p with aggregating := b } where
  repeats := {
    sound := ⟨h.sound.ascending, h.sound.faithful⟩
    peers := ⟨h.faithful, h.sound.faithful, rfl, h.repeats.peers.scopeDepth_eq,
      h.repeats.peers.scopePath_eq, h.repeats.peers.arrayData_eq⟩
    origin_eq := h.repeats.origin_eq
    primary_eq := h.repeats.primary_eq
    links_eq := h.repeats.links_eq }
  parentless := h.parentless
  generated_eq := h.generated_eq

end Stands

/-! ## Single indexes -/

/-- **Apart**: the documents of an expansion never stand for those of a single index, because the settings
do not allow for one or the join is not between primary keys right next to each other. -/
def Apart (env : Environment) (target link : Link) : Prop :=
  env.settings.allowSingleIndex = true → ∀ path fields, env.resolver.joinPath target link = .ok path →
    env.resolver.joinFields path = .ok fields → fields.2.2 = false

/-- All expansions of a draft are apart from the link from which they are evaluated. -/
def ApartFrom (env : Environment) (target : Link) (p : Progress) : Prop :=
  ∀ i link, (p.draft.arena.label i).kind.link? = some link → Apart env target link

/-- All expansions of a draft are apart from every link from which they may be evaluated: the primary one,
and those of the expansions over synthesized links. -/
def AllApart (env : Environment) (g p : Progress) : Prop :=
  ∀ i around generated, (p.draft.arena.label i).kind = .expansion around generated →
    ApartFrom env (if g.generated.isEmpty && !generated then g.metadata.primary else around) p

/-- No expansion is made. -/
theorem ApartFrom.evolve {target : Link} (h : ApartFrom env target p) (hpq : Evolves env p q) :
    ApartFrom env target q := by
  intro i link hlink
  obtain ⟨j, hj⟩ := hpq.inherits i (.inr (Kind.isExpansion_of_link? hlink))
  exact h j link (hj ▸ hlink)

theorem AllApart.evolve (h : AllApart env g p) (hpq : Evolves env p q) : AllApart env g q := by
  intro i around generated hkind
  obtain ⟨j, hj⟩ := hpq.inherits i (.inr (by rw [hkind]; rfl))
  exact (h j around generated (hj.trans hkind)).evolve hpq

/-- Where no single index is allowed, nothing stands for one. -/
theorem AllApart.of_split (h : env.settings.allowSingleIndex = false) : AllApart env g p :=
  fun _ _ _ _ _ _ _ hallow => absurd (h.symm.trans hallow) (by simp)

/-- A query of its own is compiled in a state that repeats the other one. -/
theorem Repeats.holding (h : Repeats env g p) (tree : Tree) : Repeats env (g.holding tree) p where
  sound := h.sound
  peers := ⟨h.peers.faithful_left, h.sound.faithful, h.peers.aggregating_eq, h.peers.scopeDepth_eq,
    h.peers.scopePath_eq, h.peers.arrayData_eq⟩
  origin_eq := h.origin_eq
  primary_eq := h.primary_eq
  links_eq := h.links_eq

/-! ## Without an executor -/

theorem Peers.symm (h : Peers env p q) : Peers env q p where
  faithful_left := h.faithful_right
  faithful_right := h.faithful_left
  aggregating_eq := h.aggregating_eq.symm
  scopeDepth_eq := h.scopeDepth_eq.symm
  scopePath_eq := h.scopePath_eq.imp h.scopeDepth_eq.trans Eq.symm
  arrayData_eq := h.arrayData_eq.symm

theorem Peers.silent (h : Peers env p q) : Peers env.silent p q :=
  ⟨h.faithful_left, h.faithful_right, h.aggregating_eq, h.scopeDepth_eq, h.scopePath_eq,
    h.arrayData_eq⟩

theorem sound_silent (h : Sound env p) : Sound env.silent p := ⟨h.ascending, h.faithful⟩

theorem weightedProximity_silent : weightedProximity env.silent = weightedProximity env := by
  funext label n
  unfold weightedProximity
  rw [show proximity env.silent = proximity env from answeredBy_proximity _]

/-! ## Fragments of queries -/

/-- Both directions of following each other give the same outcome. -/
theorem compiled?_of_follows {x : Compile Fragment}
    (h : Follows env x (nodeWithin env.silent tree.size 0) p (g.holding tree))
    (h' : Follows env.silent (nodeWithin env.silent tree.size 0) x (g.holding tree) p) :
    compiled? env g tree = (exec x p).1.toOption := by
  unfold compiled?
  rcases hx : exec x p with ⟨outcome, q⟩
  cases outcome with
  | ok F =>
    obtain ⟨t, ht, -, -⟩ := h p _ (.refl p) (.refl _) F q hx
    rw [ht]
  | error error =>
    rcases hown : exec (nodeWithin env.silent tree.size 0) (g.holding tree) with ⟨outcome, t⟩
    cases outcome with
    | ok F =>
      obtain ⟨q', hq', -, -⟩ := h' _ p (.refl _) (.refl p) F t hown
      rw [hx] at hq'
      exact absurd (congrArg Prod.fst hq') (by simp)
    | error error' => rfl

/-- Computations that agree have the same outcome. -/
theorem toOption_of_agrees {α : Type} {x y : Compile α} (h : Agrees env x y p q) :
    (exec x p).1.toOption = (exec y q).1.toOption := by
  obtain ⟨outcome, md, md', hx, hy, -, -⟩ := h _ _ (.refl _) (.refl _)
  rw [hx, hy]

/-- A terminal query is compiled without compiling any part of it. -/
theorem exec_nodeWithin_terminal (hbound : 0 < fuel)
    (hterminal : (p.draft.arena.label n).kind.isLeaf = true ∨
      (p.draft.arena.label n).kind.isProximity = true) :
    exec (nodeWithin env fuel n) p =
      if (p.draft.arena.label n).kind.isLeaf then exec (predicate env (p.draft.arena.label n)) p
      else exec (weightedProximity env (p.draft.arena.label n) n) p := by
  obtain ⟨fuel, rfl⟩ := Nat.exists_eq_succ_of_ne_zero (Nat.ne_of_gt hbound)
  rw [nodeWithin]
  split
  · next hleaf => exact exec_node_predicate hleaf
  · next hleaf => exact exec_node_proximity (hterminal.resolve_left hleaf)

section Held

variable (hn : n < p.draft.arena.size) (hheld : p.draft.arena.Holds n tree) (hbound : tree.size ≤ fuel)

include hn hheld hbound

/-- A query without expansions is compiled to its fragment wherever it is held. -/
theorem compiled?_eq_of_isBare (h : Repeats env g p) (hbare : tree.IsBare) :
    compiled? env g tree = (exec (nodeWithin env fuel n) p).1.toOption := by
  obtain ⟨hsound, hroot, hpos⟩ := holding_spec h.peers.faithful_left tree
  have hrepeats := h.holding tree
  refine compiled?_of_follows ?_ ?_
  · exact nodeWithin_follows_answered _ fuel hrepeats.peers.aggregating_eq.symm h.sound hsound hheld
      hroot hn hpos hbare
      (.inl ⟨hrepeats.peers.symm, fun label _ _ => (hrepeats.sameFacts label).symm⟩) (Nat.le_refl _)
  · exact nodeWithin_follows_answered env.executor _ hrepeats.peers.aggregating_eq
      (sound_silent hsound) (sound_silent h.sound) hroot hheld hpos hn hbare
      (.inl ⟨hrepeats.peers.silent, fun label _ _ => hrepeats.sameFacts label⟩) hbound

/-- So is a terminal query. -/
theorem compiled?_eq_of_isTerminal (h : Repeats env g p) (hterminal : tree.IsTerminal) :
    compiled? env g tree = (exec (nodeWithin env fuel n) p).1.toOption := by
  obtain ⟨hsound, hroot, hpos⟩ := holding_spec h.peers.faithful_left tree
  have hrepeats := h.holding tree
  have hkind := hterminal
  unfold Tree.IsTerminal at hterminal hkind
  rw [← hheld.label_eq] at hterminal
  rw [← hroot.label_eq] at hkind
  unfold compiled?
  rw [exec_nodeWithin_terminal tree.size_pos hkind,
    exec_nodeWithin_terminal (Nat.lt_of_lt_of_le tree.size_pos hbound) hterminal, hroot.label_eq,
    hheld.label_eq, weightedProximity_silent]
  split
  · have hagrees : Agrees env (predicate env tree.label) (predicate env tree.label)
        (g.holding tree) p := predicate_agrees hrepeats.peers (hrepeats.sameFacts _)
    exact toOption_of_agrees hagrees
  · exact toOption_of_agrees ((proximity_agrees hrepeats.peers hsound.ascending h.sound.ascending _
      hroot hheld (fun label _ _ => hrepeats.sameFacts label) hpos hn).bind fun _ => .pure _)

/-- **Compiling a query without expansions** gives its fragment, or fails without having been told to by
an executor. Nothing else happens. -/
theorem nodeWithin_compiled (h : Stands env g p) (hP : env.Reports P)
    (hexpansion : ∀ kind, P (.notAnExpansion kind)) (hknown : tree.IsBare ∨ tree.IsTerminal) :
    wp (nodeWithin env fuel n)
      (fun F q => compiled? env g tree = some F ∧ Evolves env p q ∧ Rested env p q)
      (fun error q => compiled? env g tree = none ∧ P error ∧ Evolves env p q ∧ Rested env p q) p := by
  have hsame : compiled? env g tree = (exec (nodeWithin env fuel n) p).1.toOption :=
    hknown.elim (compiled?_eq_of_isBare hn hheld hbound h.repeats)
      (compiled?_eq_of_isTerminal hn hheld hbound h.repeats)
  have hrests : Rests env (nodeWithin env fuel n) p := by
    refine nodeWithin_rests fuel h.sound ?_
    rcases hknown with hbare | hterminal
    · exact h.sound.ascending.settled_of_bare hn ((h.sound.ascending.bare_iff hheld).mpr hbare)
    · unfold Tree.IsTerminal at hterminal
      rw [← hheld.label_eq] at hterminal
      refine .intro n hn ?_ ?_
      · cases hkind : (p.draft.arena.label n).kind <;> rw [hkind] at hterminal <;>
          simp_all [Kind.isLeaf, Kind.isProximity, Kind.isExpansion]
      · cases hkind : (p.draft.arena.label n).kind <;> rw [hkind] at hterminal <;>
          simp_all [Kind.isLeaf, Kind.isProximity, Kind.visits]
  -- what the run gives, what it changes, and what it is: the three are read off the same run
  have hall := wp_and (wp_and hrests (nodeWithin_steps fuel n p h.sound))
    (wp_exec (nodeWithin env fuel n) p)
  refine wp_mono hall ?_ ?_
  · rintro F q ⟨⟨hrested, hevolves, -⟩, hexec⟩
    rw [hexec] at hsame
    exact ⟨hsame, hevolves, hrested⟩
  · rintro error q ⟨⟨hrested, hevolves⟩, hexec⟩
    rw [hexec] at hsame
    exact ⟨hsame, (nodeWithin_blames hP hexpansion fuel n).reported hexec hrested.scans_eq, hevolves,
      hrested⟩

end Held

/-- **The path of a scope** is the same wherever its query is held. -/
theorem sharedPath_found (h : Stands env g p) (hheld : p.draft.arena.Holds n tree)
    (hP : env.Reports P) :
    wp (sharedPath env n) (fun path q => sharedPath? env g tree = some path ∧ Looked env p q)
      (fun error q => sharedPath? env g tree = none ∧ P error ∧ Looked env p q) p := by
  obtain ⟨hsound, hroot, -⟩ := holding_spec h.faithful tree
  have hrepeats := h.repeats.holding tree
  obtain ⟨outcome, _, md, hown, hexec, -, hgrows⟩ := sharedPath_agrees hrepeats.peers hsound.ascending
    h.sound.ascending hroot hheld (fun label _ _ => hrepeats.sameFacts label) _ _ (.refl _) (.refl _)
  have hlooked : Looked env p { p with metadata := md } := ⟨md, hgrows, rfl⟩
  have hfound : sharedPath? env g tree = outcome.toOption :=
    congrArg (fun r => r.1.toOption) hown
  rw [hfound]
  cases outcome with
  | ok path => exact (wp_of_ok hexec).mpr ⟨rfl, hlooked⟩
  | error error =>
    exact (wp_of_error hexec).mpr
      ⟨rfl, (sharedPath_blames hP n).reported hexec hlooked.scans_eq, hlooked⟩

end Compile

end LinkedSearch
