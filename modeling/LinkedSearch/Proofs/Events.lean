import LinkedSearch.Proofs.Courses

/-! # Where the events of a course take place

The expansions in an expansion are resolved as each of them would be on its own:

* `Tree.subtreeIn?`, `Tree.ExpansionIn`: subtrees and expansions of a forest.
* `Concludes`: the last event when an expansion is settled on its own.
* `settle_event`, `visit_event`: every event is such a last event, of an expansion at its own place.
* `settle_remaining`, `visit_remaining`: expansions are left where there were some.
* `visit_spared`: those that are left by a successful compilation are as they were. -/

namespace LinkedSearch

open Query (Kind Label Tree)

namespace Query.Tree

/-- **Subtree of a forest** at a path. -/
def subtreeIn? (trees : List Tree) : List Nat → Option Tree
  | [] => none
  | i :: path => trees[i]?.bind (·.subtree? path)

@[simp] theorem subtreeIn?_nil_path (trees : List Tree) : subtreeIn? trees [] = none := rfl

@[simp] theorem subtreeIn?_nil (path : List Nat) : subtreeIn? [] path = none := by
  cases path <;> simp [subtreeIn?]

@[simp] theorem subtreeIn?_zero (tree : Tree) (rest : List Tree) (path : List Nat) :
    subtreeIn? (tree :: rest) (0 :: path) = tree.subtree? path := by simp [subtreeIn?]

@[simp] theorem subtreeIn?_succ (tree : Tree) (rest : List Tree) (i : Nat) (path : List Nat) :
    subtreeIn? (tree :: rest) ((i + 1) :: path) = subtreeIn? rest (i :: path) := by
  simp [subtreeIn?]

/-- A subtree below the root is one of the forest. -/
theorem subtree?_node (label : Label) (children : List Tree) {path : List Nat} (h : path ≠ []) :
    (node label children).subtree? path = subtreeIn? children path := by
  cases path with
  | nil => exact absurd rfl h
  | cons i path => rfl

/-- There is an expansion at a path in a forest. -/
def ExpansionIn (trees : List Tree) (path : List Nat) : Prop :=
  ∃ sub, subtreeIn? trees path = some sub ∧ sub.label.kind.isExpansion = true

variable {tree tree' : Tree} {trees rest rest' : List Tree} {path : List Nat}

theorem ExpansionIn.ne_nil (h : ExpansionIn trees path) : path ≠ [] := by
  rintro rfl
  obtain ⟨sub, hsub, -⟩ := h
  exact absurd hsub (by simp)

/-- An expansion in a query is the query itself or stands below its root. -/
theorem expansionAt_node {label : Label} {children : List Tree} :
    (node label children).ExpansionAt path ↔
      path = [] ∧ label.kind.isExpansion = true ∨ ExpansionIn children path := by
  cases path with
  | nil => simp [ExpansionAt, ExpansionIn]
  | cons i path => simp [ExpansionAt, ExpansionIn, subtreeIn?]

/-- An expansion in a forest stands in the first query or in one of the others. -/
theorem expansionIn_cons : ExpansionIn (tree :: rest) path ↔
    (∃ inner, path = 0 :: inner ∧ tree.ExpansionAt inner) ∨
      ∃ i inner, path = (i + 1) :: inner ∧ ExpansionIn rest (i :: inner) := by
  rcases path with _ | ⟨i, path⟩
  · simp [ExpansionIn]
  · cases i with
    | zero => simp [ExpansionIn, ExpansionAt]
    | succ i => simp [ExpansionIn]

/-- Expansions of a forest, from those of its queries. -/
theorem ExpansionIn.cons (h : ∀ path, tree'.ExpansionAt path → tree.ExpansionAt path)
    (hrest : ∀ path, ExpansionIn rest' path → ExpansionIn rest path)
    (hpath : ExpansionIn (tree' :: rest') path) : ExpansionIn (tree :: rest) path := by
  rw [expansionIn_cons] at hpath ⊢
  rcases hpath with ⟨inner, rfl, hinner⟩ | ⟨i, inner, rfl, hinner⟩
  · exact .inl ⟨inner, rfl, h inner hinner⟩
  · exact .inr ⟨i, inner, rfl, hrest _ hinner⟩

/-- Subtrees of a forest where its expansions are, from those of its queries. -/
theorem subtreeIn?_cons_congr
    (h : ∀ path, tree'.ExpansionAt path → tree'.subtree? path = tree.subtree? path)
    (hrest : ∀ path, ExpansionIn rest' path → subtreeIn? rest' path = subtreeIn? rest path)
    (hpath : ExpansionIn (tree' :: rest') path) :
    subtreeIn? (tree' :: rest') path = subtreeIn? (tree :: rest) path := by
  rcases expansionIn_cons.mp hpath with ⟨inner, rfl, hinner⟩ | ⟨i, inner, rfl, hinner⟩
  · simpa using h inner hinner
  · simpa using hrest _ hinner

/-- Stripping changes no kind at the root. -/
theorem kind_stripped (name : Option String) (tree : Tree) :
    (tree.stripped name).label.kind = tree.label.kind := by
  obtain ⟨label, children⟩ := tree
  obtain ⟨field, hstripped⟩ := stripped_node name label children
  rw [hstripped]
  rfl

/-- Stripping leaves expansions where they are. -/
theorem expansionAt_stripped {name : Option String} :
    (tree.stripped name).ExpansionAt path ↔ tree.ExpansionAt path := by
  unfold ExpansionAt
  rw [subtree?_stripped]
  constructor
  · rintro ⟨sub, hsub, hkind⟩
    obtain ⟨own, hown, rfl⟩ := Option.map_eq_some_iff.mp hsub
    exact ⟨own, hown, (kind_stripped name own) ▸ hkind⟩
  · rintro ⟨own, hown, hkind⟩
    exact ⟨own.stripped name, by rw [hown]; rfl, (kind_stripped name own).symm ▸ hkind⟩

end Query.Tree

namespace Compile

open Query.Tree (ExpansionIn subtreeIn?)

variable {env : Environment} {answers : Answers} {g : Progress} {target : Link}
  {log : List ScanRequest} {tree : Tree} {trees : List Tree} {e : Event}

/-! ## Events of a settled query -/

/-- Events of the expansion at the root. -/
def OwnEvents (g : Progress) (events : List Event) : Prop :=
  ∀ e ∈ events, ∃ resolution, e = event g resolution

theorem OwnEvents.seq {σ τ α β : Type} {course : Course σ α} {keep : σ → τ}
    {next : σ → α → List Event → Course τ β} (h : OwnEvents g course.events)
    (hnext : ∀ s a events, OwnEvents g (next s a events).events) :
    OwnEvents g (course.seq keep next).events := by
  intro e he
  rcases Course.mem_seq_events he with he | ⟨a, -, he⟩
  · exact h e he
  · exact hnext _ a _ e he

/-- Join values are about the expansion, and there is one event at most. -/
theorem join_events (link : Link) (left right : String) (query : Tree) :
    OwnEvents g (join env answers g log link left right query).events ∧
      (join env answers g log link left right query).events.length ≤ 1 := by
  unfold join supply
  split
  · exact ⟨fun e he => absurd he (by simp [Course.halt]), by simp [Course.halt]⟩
  · exact ⟨fun e he => ⟨_, List.mem_singleton.mp he⟩, Nat.le_refl _⟩
  · exact ⟨fun e he => ⟨_, List.mem_singleton.mp he⟩, Nat.le_refl _⟩

/-- Courses that do nothing. -/
theorem OwnEvents.nil : OwnEvents g [] := fun _ he => absurd he (by simp)

/-- What follows the first scan for a synthesized link is about the same expansion. -/
theorem FollowUp.ownEvents {label values : Label} {link : Link} {query : Tree} {rest : List Tree}
    {course : Course Tree Unit} (h : FollowUp env answers g label link query rest values course) :
    OwnEvents g course.events := by
  cases h with
  | unowned => exact .nil
  | primary => exact .nil
  | unmapped => exact .nil
  | scanned log left right => exact (join_events _ _ _ _).1.seq fun _ _ _ => .nil

/-- **Events of a replacement** are about the expansion, and there is one at most if its link was not
synthesized. -/
theorem replacement_events (label : Label) (link : Link) (generated : Bool) (children : List Tree) :
    OwnEvents g (replacement env answers g target log label link generated children).events ∧
      (generated = false →
        (replacement env answers g target log label link generated children).events.length ≤ 1) := by
  have hreplaced : Replaced env answers g label link generated children
      (replacement env answers g target log label link generated children) := replacement_replaced ..
  generalize replacement env answers g target log label link generated children = course at hreplaced ⊢
  cases hreplaced with
  | childless => exact ⟨.nil, by simp [Course.halt]⟩
  | inPlace => exact ⟨fun e he => ⟨_, List.mem_singleton.mp he⟩, fun _ => Nat.le_refl _⟩
  | unjoined => exact ⟨.nil, by simp [Course.halt]⟩
  | joined query rest log left right =>
    refine ⟨(join_events _ _ _ _).1.seq fun _ _ _ => .nil, fun _ => ?_⟩
    have hsingle : (join env answers g log link left right query).events.length ≤ 1 :=
      (join_events _ _ _ _).2
    generalize join env answers g log link left right query = course at hsingle ⊢
    cases houtcome : course.outcome with
    | error stop => rwa [Course.seq_of_error houtcome]
    | ok a =>
      rw [Course.seq_of_ok houtcome]
      simpa [Course.done] using hsingle
  | generated query rest log next hnext =>
    -- a synthesized link may be scanned for twice
    refine ⟨(join_events _ _ _ _).1.seq fun _ values events => (hnext values events).ownEvents, ?_⟩
    exact fun hnot => absurd hnot (by simp)

/-- **The conclusion** of an expansion: the last event when it is settled on its own. -/
def Concludes (env : Environment) (answers : Answers) (g : Progress) (target : Link) (sub : Tree)
    (e : Event) : Prop :=
  sub.label.kind.isExpansion = true ∧ e.scopeDepth = g.scopeDepth ∧ e.scopePath = g.scopePath ∧
    (sub.label.kind.isGenerated = false → ∃ log earlier,
      (settle env answers g target log sub).events = earlier ++ [{ e with path := [] }])

mutual

/-- **Every event of a settled query** concludes the expansion at its place. -/
theorem settle_event {log : List ScanRequest} {e : Event} : ∀ {tree : Tree},
    e ∈ (settle env answers g target log tree).events →
      ∃ sub, tree.subtree? e.path = some sub ∧ Concludes env answers g target sub e
  | .node label children, he => by
    cases hkind : label.kind.isExpansion with
    | false =>
      rw [settle_node hkind] at he
      have hall : e ∈ (settleAll env answers g target log children).events := by
        simpa [Course.map] using he
      obtain ⟨sub, hsub, hconcludes⟩ := settleAll_event hall
      refine ⟨sub, ?_, hconcludes⟩
      rwa [Tree.subtree?_node _ _ fun hnil => by simp [hnil] at hsub]
    | true =>
      obtain ⟨link, generated, hkind'⟩ := Kind.exists_of_isExpansion hkind
      have hfirst : e ∈ (settleFirst env answers g target log children).events →
          ∃ sub, (Query.Tree.node label children).subtree? e.path = some sub ∧
            Concludes env answers g target sub e := by
        intro he
        obtain ⟨sub, hsub, hconcludes⟩ := settleFirst_event he
        refine ⟨sub, ?_, hconcludes⟩
        rwa [Tree.subtree?_node _ _ fun hnil => by simp [hnil] at hsub]
      generalize hinner : settleFirst env answers g target log children = course at hfirst
      have hsettle : settle env answers g target log (.node label children) =
          course.seq (.node label) fun children _ events =>
            replacement env answers g target (log ++ requests events) label link generated children :=
        hinner ▸ settle_expansion hkind'
      rw [hsettle] at he
      rcases Course.mem_seq_events he with he | ⟨a, houtcome, he⟩
      · exact hfirst he
      · -- the expansion itself
        rw [Course.seq_of_ok houtcome] at hsettle
        obtain ⟨hrooted, hsingle⟩ := replacement_events label link generated course.state
        obtain ⟨resolution, rfl⟩ := hrooted e he
        refine ⟨_, Tree.subtree?_nil _, hkind, rfl, rfl, fun hnot => ⟨log, course.events, ?_⟩⟩
        have hnot : generated = false := by simpa [hkind', Kind.isGenerated] using hnot
        obtain ⟨e', he'⟩ := List.length_eq_one_iff.mp
          (Nat.le_antisymm (hsingle hnot) (List.length_pos_of_mem he))
        rw [he'] at he
        rw [hsettle, he', ← List.mem_singleton.mp he]
        rfl

/-- Every event in the query of an expansion. -/
theorem settleFirst_event {log : List ScanRequest} {e : Event} : ∀ {trees : List Tree},
    e ∈ (settleFirst env answers g target log trees).events →
      ∃ sub, subtreeIn? trees e.path = some sub ∧ Concludes env answers g target sub e
  | [], he => absurd he (by simp [settleFirst, Course.done])
  | tree :: rest, he => by
    rw [settleFirst] at he
    obtain ⟨e', he', rfl⟩ := List.mem_map.mp he
    obtain ⟨sub, hsub, hconcludes⟩ := settle_event he'
    exact ⟨sub, by simpa [Event.under] using hsub, hconcludes⟩

/-- Every event in several queries. -/
theorem settleAll_event {log : List ScanRequest} {e : Event} : ∀ {trees : List Tree},
    e ∈ (settleAll env answers g target log trees).events →
      ∃ sub, subtreeIn? trees e.path = some sub ∧ Concludes env answers g target sub e
  | [], he => absurd he (by simp [settleAll, Course.done])
  | tree :: rest, he => by
    rw [settleAll] at he
    rcases Course.mem_seq_events he with he | ⟨_, -, he⟩
    · obtain ⟨e', he', rfl⟩ := List.mem_map.mp he
      obtain ⟨sub, hsub, hconcludes⟩ := settleAll_event he'
      refine ⟨sub, ?_, hconcludes⟩
      cases hpath : e'.path with
      | nil => simp [hpath] at hsub
      | cons i path => simpa [Event.shift, hpath] using hpath ▸ hsub
    · obtain ⟨e', he', rfl⟩ := List.mem_map.mp he
      obtain ⟨sub, hsub, hconcludes⟩ := settle_event he'
      exact ⟨sub, by simpa [Event.under] using hsub, hconcludes⟩

end

mutual

/-- **Settling** leaves expansions where there were some. -/
theorem settle_remaining {log : List ScanRequest} : ∀ {tree : Tree} {path : List Nat},
    (settle env answers g target log tree).state.ExpansionAt path → tree.ExpansionAt path
  | .node label children, path, h => by
    cases hkind : label.kind.isExpansion with
    | false =>
      rw [settle_node hkind] at h
      rw [Tree.expansionAt_node]
      exact (Tree.expansionAt_node.mp h).imp id settleAll_remaining
    | true =>
      obtain ⟨link, generated, hkind'⟩ := Kind.exists_of_isExpansion hkind
      rw [settle_expansion hkind'] at h
      rw [Tree.expansionAt_node]
      cases houtcome : (settleFirst env answers g target log children).outcome with
      | error stop =>
        rw [Course.seq_of_error houtcome] at h
        exact (Tree.expansionAt_node.mp h).imp id settleFirst_remaining
      | ok a =>
        rw [Course.seq_of_ok houtcome] at h
        rcases replacement_remains (settleFirst_isBare houtcome) h with rfl | h
        · exact .inl ⟨rfl, hkind⟩
        · exact (Tree.expansionAt_node.mp h).imp id settleFirst_remaining

theorem settleFirst_remaining {log : List ScanRequest} : ∀ {trees : List Tree} {path : List Nat},
    ExpansionIn (settleFirst env answers g target log trees).state path → ExpansionIn trees path
  | [], _, h => by rwa [settleFirst] at h
  | tree :: rest, _, h => by
    rw [settleFirst] at h
    exact Tree.ExpansionIn.cons (fun _ => settle_remaining) (fun _ => id) h

theorem settleAll_remaining {log : List ScanRequest} : ∀ {trees : List Tree} {path : List Nat},
    ExpansionIn (settleAll env answers g target log trees).state path → ExpansionIn trees path
  | [], _, h => by rwa [settleAll] at h
  | tree :: rest, _, h => by
    rw [settleAll] at h
    cases houtcome : (settleAll env answers g target log rest).outcome with
    | error stop =>
      rw [Course.seq_of_error (by rw [Course.map, houtcome]; rfl)] at h
      exact Tree.ExpansionIn.cons (fun _ => id) (fun _ => settleAll_remaining) h
    | ok a =>
      rw [Course.seq_of_ok (by rw [Course.map, houtcome]; rfl)] at h
      exact Tree.ExpansionIn.cons (fun _ => settle_remaining) (fun _ => settleAll_remaining) h

end

/-! ## Steady answers -/

/-- With steady answers it does not matter which scans came before. -/
theorem join_steady (hsteady : answers.Steady) (log : List ScanRequest) (link : Link)
    (left right : String) (query : Tree) :
    join env answers g log link left right query = join env answers g [] link left right query := by
  unfold join supply
  split
  · rfl
  · rfl
  · rw [hsteady log]

theorem replacement_steady (hsteady : answers.Steady) (log : List ScanRequest) (label : Label)
    (link : Link) (generated : Bool) (children : List Tree) :
    replacement env answers g target log label link generated children =
      replacement env answers g target [] label link generated children := by
  unfold replacement replacementGenerated
  simp only [join_steady hsteady log, join_steady hsteady (log ++ _), join_steady hsteady ([] ++ _)]

mutual

/-- **Steady answers** settle a query the same way after any scans. -/
theorem settle_steady (hsteady : answers.Steady) (log : List ScanRequest) : ∀ tree : Tree,
    settle env answers g target log tree = settle env answers g target [] tree
  | .node label children => by
    cases hkind : label.kind.isExpansion with
    | false => rw [settle_node hkind, settle_node hkind, settleAll_steady hsteady log children]
    | true =>
      obtain ⟨link, generated, hkind⟩ := Kind.exists_of_isExpansion hkind
      rw [settle_expansion hkind, settle_expansion hkind, settleFirst_steady hsteady log children]
      congr 1
      funext children _ events
      rw [replacement_steady hsteady, replacement_steady hsteady ([] ++ _)]

theorem settleFirst_steady (hsteady : answers.Steady) (log : List ScanRequest) :
    ∀ trees : List Tree, settleFirst env answers g target log trees =
      settleFirst env answers g target [] trees
  | [] => by rw [settleFirst, settleFirst]
  | tree :: rest => by rw [settleFirst, settleFirst, settle_steady hsteady log tree]

theorem settleAll_steady (hsteady : answers.Steady) (log : List ScanRequest) :
    ∀ trees : List Tree, settleAll env answers g target log trees =
      settleAll env answers g target [] trees
  | [] => by rw [settleAll, settleAll]
  | tree :: rest => by
    rw [settleAll, settleAll, settleAll_steady hsteady log rest]
    congr 1
    funext rest _ events
    rw [settle_steady hsteady (log ++ _) tree, settle_steady hsteady ([] ++ _) tree]

end

/-! ## Filters of aggregates -/

/-- Scans are never the filter of an aggregate. -/
theorem replacement_unfiltered (b : Bool) (log : List ScanRequest) (label : Label) (link : Link)
    (generated : Bool) (children : List Tree) :
    replacement env answers { g with aggregating := b } target log label link generated children =
      replacement env answers g target log label link generated children := rfl

mutual

/-- **The filter of an aggregate** is settled as the query is. -/
theorem settle_unfiltered (b : Bool) {log : List ScanRequest} : ∀ tree : Tree,
    settle env answers { g with aggregating := b } target log tree =
      settle env answers g target log tree
  | .node label children => by
    cases hkind : label.kind.isExpansion with
    | false => rw [settle_node hkind, settle_node hkind, settleAll_unfiltered b children]
    | true =>
      obtain ⟨link, generated, hkind⟩ := Kind.exists_of_isExpansion hkind
      rw [settle_expansion hkind, settle_expansion hkind, settleFirst_unfiltered b children]
      simp only [replacement_unfiltered]

theorem settleFirst_unfiltered (b : Bool) {log : List ScanRequest} : ∀ trees : List Tree,
    settleFirst env answers { g with aggregating := b } target log trees =
      settleFirst env answers g target log trees
  | [] => by rw [settleFirst, settleFirst]
  | tree :: rest => by rw [settleFirst, settleFirst, settle_unfiltered b tree]

theorem settleAll_unfiltered (b : Bool) {log : List ScanRequest} : ∀ trees : List Tree,
    settleAll env answers { g with aggregating := b } target log trees =
      settleAll env answers g target log trees
  | [] => by rw [settleAll, settleAll]
  | tree :: rest => by
    rw [settleAll, settleAll, settleAll_unfiltered b rest]
    simp only [settle_unfiltered b tree]

end

/-! ## Compilations -/

/-- **What a compilation does** to a query, by the kind of its root. -/
inductive Visited (env : Environment) (answers : Answers) (g : Progress) (log : List ScanRequest)
    (label : Label) (children : List Tree) : Course Tree Fragment → Prop where
  | still (outcome : Except Stop Fragment) : Visited env answers g log label children
      ⟨.node label children, [], outcome⟩
  | all (depth : Nat) (path : Option String) (wrap : List Fragment → Fragment)
      (hkind : label.kind.isExpansion = false) :
      Visited env answers g log label children
        ((visitAll env answers { g with scopeDepth := depth, scopePath := path } log children).map
          (.node label) id wrap)
  | first (join : Fragment → Fragment) (hkind : label.kind.isExpansion = false) :
      Visited env answers g log label children
        ((visitFirst env answers g log join children).map (.node label) id id)
  | expansion (link : Link) (generated : Bool) (hkind : label.kind = .expansion link generated) :
      Visited env answers g log label children
        (expandTree env answers g log (.node label children) link generated)

theorem visit_visited (label : Label) (children : List Tree) :
    Visited env answers g log label children (visit env answers g log (.node label children)) := by
  cases hopen : g.aggregating && label.kind.isAdmitted with
  | true =>
    rw [visit_admitted hopen]
    exact .still _
  | false =>
    rcases label.kind.sorts with ⟨wrap, hwrap⟩ | ⟨join, hjoin⟩ | hkind | ⟨link, generated, hkind⟩ |
      hterminal
    · rw [visit_connective hopen hwrap]
      exact .all g.scopeDepth g.scopePath wrap (Kind.isExpansion_of_connective hwrap)
    · rw [visit_joined hopen hjoin]
      exact .first join (Kind.isExpansion_of_join hjoin)
    · rw [visit_scope hkind]
      unfold enter?
      split
      · exact .still _
      · next inner heq =>
        split at heq
        · obtain ⟨path, -, rfl⟩ := Option.map_eq_some_iff.mp heq
          exact .all 1 path _ (by rw [hkind]; rfl)
        · obtain rfl := Option.some.inj heq
          exact .all (g.scopeDepth + 1) g.scopePath _ (by rw [hkind]; rfl)
    · rw [visit_expansion hkind]
      exact .expansion link generated hkind
    · rw [visit_terminal hterminal]
      unfold compiledTree
      split
      · exact .still _
      · exact .still _

/-- **The origin of an event** of a compilation: it concludes an expansion in an expansion that is
compiled. -/
structure ArisesAt (env : Environment) (answers : Answers) (g : Progress) (tree : Tree) (e : Event)
    (outer inner : List Nat) (expansion : Tree) (link : Link) (generated : Bool) : Prop where
  path_eq : e.path = outer ++ inner
  subtree_eq : tree.subtree? outer = some expansion
  kind_eq : expansion.label.kind = .expansion link generated
  concludes : ∃ sub, (expansion.stripped link.name).subtree? inner = some sub ∧
    Concludes env answers
      (generating { g with scopeDepth := e.scopeDepth, scopePath := e.scopePath } generated)
      (targetOf (generating g generated) link) sub e

/-- An event with an origin. -/
def Arises (env : Environment) (answers : Answers) (g : Progress) (tree : Tree) (e : Event) : Prop :=
  ∃ outer inner expansion link generated,
    ArisesAt env answers g tree e outer inner expansion link generated

/-- An event that arises in a forest. -/
def ArisesIn (env : Environment) (answers : Answers) (g : Progress) (trees : List Tree) (e : Event) :
    Prop :=
  ∃ i child e', trees[i]? = some child ∧ e = Event.under i e' ∧ Arises env answers g child e'

/-- An event that arises in a forest arises in a query with this forest below its root. -/
theorem ArisesIn.node {label : Label} {children : List Tree}
    (h : ArisesIn env answers g children e) : Arises env answers g (.node label children) e := by
  obtain ⟨i, child, e', hchild, rfl, outer, inner, expansion, link, generated, horigin⟩ := h
  refine ⟨i :: outer, inner, expansion, link, generated, ?_⟩
  constructor
  · exact congrArg (i :: ·) horigin.path_eq
  · rw [Tree.subtree?_cons, hchild]
    exact horigin.subtree_eq
  · exact horigin.kind_eq
  · exact horigin.concludes

/-- Scopes do not matter for the origin of an event, which is in one of its own. -/
theorem Arises.inScope {depth : Nat} {path : Option String}
    (h : Arises env answers { g with scopeDepth := depth, scopePath := path } tree e) :
    Arises env answers g tree e := by
  obtain ⟨outer, inner, expansion, link, generated, horigin⟩ := h
  refine ⟨outer, inner, expansion, link, generated, ?_⟩
  constructor
  · exact horigin.path_eq
  · exact horigin.subtree_eq
  · exact horigin.kind_eq
  · cases generated <;> exact horigin.concludes

/-- What is done when an expansion is settled arises in this expansion. -/
theorem arises_expansion {link : Link} {generated : Bool}
    (hkind : tree.label.kind = .expansion link generated)
    (he : e ∈ (expandTree env answers g log tree link generated).events) :
    Arises env answers g tree e := by
  rw [(expandTree_spec tree link generated).2.1] at he
  obtain ⟨sub, hsub, hconcludes⟩ := settle_event he
  refine ⟨[], e.path, tree, link, generated, rfl, tree.subtree?_nil, hkind, sub, hsub, ?_⟩
  have hground : { g with scopeDepth := e.scopeDepth, scopePath := e.scopePath } = g := by
    have hdepth : (generating g generated).scopeDepth = g.scopeDepth := by cases generated <;> rfl
    have hpath : (generating g generated).scopePath = g.scopePath := by cases generated <;> rfl
    rw [hconcludes.2.1, hconcludes.2.2.1, hdepth, hpath]
  rw [hground]
  exact hconcludes

mutual

/-- **Every event of a compilation** has an origin. -/
theorem visit_event {g : Progress} {log : List ScanRequest} {e : Event} : ∀ {tree : Tree},
    e ∈ (visit env answers g log tree).events → Arises env answers g tree e
  | .node label children, he => by
    have hvisited : Visited env answers g log label children _ := visit_visited label children
    generalize visit env answers g log (.node label children) = course at he hvisited
    cases hvisited with
    | still outcome => exact absurd he (by simp)
    | all depth path wrap hkind =>
      have hall : e ∈ (visitAll env answers { g with scopeDepth := depth, scopePath := path } log
          children).events := by simpa [Course.map] using he
      exact (visitAll_event hall).node.inScope
    | first join hkind => exact (visitFirst_event (by simpa [Course.map] using he)).node
    | expansion link generated hkind => exact arises_expansion hkind he

theorem visitAll_event {g : Progress} {log : List ScanRequest} {e : Event} : ∀ {trees : List Tree},
    e ∈ (visitAll env answers g log trees).events → ArisesIn env answers g trees e
  | [], he => absurd he (by simp [visitAll, Course.done])
  | tree :: rest, he => by
    rw [visitAll] at he
    rcases Course.mem_seq_events he with he | ⟨_, -, he⟩
    · obtain ⟨e', he', rfl⟩ := List.mem_map.mp he
      exact ⟨0, tree, e', rfl, rfl, visit_event he'⟩
    · obtain ⟨e', he', rfl⟩ := List.mem_map.mp he
      obtain ⟨i, child, e'', hchild, rfl, harises⟩ := visitAll_event he'
      exact ⟨i + 1, child, e'', by simpa using hchild, rfl, harises⟩

theorem visitFirst_event {g : Progress} {log : List ScanRequest} {e : Event}
    {join : Fragment → Fragment} : ∀ {trees : List Tree},
    e ∈ (visitFirst env answers g log join trees).events → ArisesIn env answers g trees e
  | [], he => absurd he (by simp [visitFirst, Course.done])
  | tree :: rest, he => by
    rw [visitFirst] at he
    obtain ⟨e', he', rfl⟩ := List.mem_map.mp he
    exact ⟨0, tree, e', rfl, rfl, visit_event he'⟩

end

/-- What is done in a compilation is done to expansions. -/
theorem Arises.expansionAt (h : Arises env answers g tree e) : tree.ExpansionAt e.path := by
  obtain ⟨outer, inner, expansion, link, generated, horigin⟩ := h
  obtain ⟨sub, hsub, hconcludes⟩ := horigin.concludes
  have hinner : (expansion.stripped link.name).ExpansionAt inner := ⟨sub, hsub, hconcludes.1⟩
  obtain ⟨own, hown, hkind⟩ := Tree.expansionAt_stripped.mp hinner
  refine ⟨own, ?_, hkind⟩
  rw [horigin.path_eq, Tree.subtree?_append, horigin.subtree_eq]
  exact hown

/-! ## What is left of a query -/

mutual

/-- **A compilation** leaves expansions where there were some. -/
theorem visit_remaining {g : Progress} {log : List ScanRequest} : ∀ {tree : Tree} {path : List Nat},
    (visit env answers g log tree).state.ExpansionAt path → tree.ExpansionAt path
  | .node label children, path, h => by
    have hvisited : Visited env answers g log label children _ := visit_visited label children
    generalize visit env answers g log (.node label children) = course at h hvisited
    cases hvisited with
    | still outcome => exact h
    | all depth path wrap hkind =>
      rw [Tree.expansionAt_node]
      exact (Tree.expansionAt_node.mp h).imp id visitAll_remaining
    | first join hkind =>
      rw [Tree.expansionAt_node]
      exact (Tree.expansionAt_node.mp h).imp id visitFirst_remaining
    | expansion link generated hkind =>
      rw [(expandTree_spec _ link generated).1] at h
      exact Tree.expansionAt_stripped.mp (settle_remaining h)

theorem visitAll_remaining {g : Progress} {log : List ScanRequest} :
    ∀ {trees : List Tree} {path : List Nat},
    ExpansionIn (visitAll env answers g log trees).state path → ExpansionIn trees path
  | [], _, h => by rwa [visitAll] at h
  | tree :: rest, _, h => by
    rw [visitAll] at h
    cases houtcome : (visit env answers g log tree).outcome with
    | error stop =>
      rw [Course.seq_of_error (by rw [Course.map, houtcome]; rfl)] at h
      exact Tree.ExpansionIn.cons (fun _ => visit_remaining) (fun _ => id) h
    | ok fragment =>
      rw [Course.seq_of_ok (by rw [Course.map, houtcome]; rfl)] at h
      exact Tree.ExpansionIn.cons (fun _ => visit_remaining) (fun _ => visitAll_remaining) h

theorem visitFirst_remaining {g : Progress} {log : List ScanRequest} {join : Fragment → Fragment} :
    ∀ {trees : List Tree} {path : List Nat},
    ExpansionIn (visitFirst env answers g log join trees).state path → ExpansionIn trees path
  | [], _, h => by rwa [visitFirst] at h
  | tree :: rest, _, h => by
    rw [visitFirst] at h
    exact Tree.ExpansionIn.cons (fun _ => visit_remaining) (fun _ => id) h

end

mutual

/-- **A successful compilation** spares the expansions that it leaves. -/
theorem visit_spared {g : Progress} {log : List ScanRequest} {F : Fragment} :
    ∀ {tree : Tree} {path : List Nat}, (visit env answers g log tree).outcome = .ok F →
      (visit env answers g log tree).state.ExpansionAt path →
        (visit env answers g log tree).state.subtree? path = tree.subtree? path
  | .node label children, path, hok, h => by
    have hvisited : Visited env answers g log label children _ := visit_visited label children
    generalize visit env answers g log (.node label children) = course at hok h hvisited ⊢
    -- below a root that stays, paths lead to the same subtrees if they do so in the forest
    have hroot : ∀ {children' : List Tree}, (ExpansionIn children' path →
        subtreeIn? children' path = subtreeIn? children path) → label.kind.isExpansion = false →
        (Query.Tree.node label children').ExpansionAt path →
        (Query.Tree.node label children').subtree? path =
          (Query.Tree.node label children).subtree? path := by
      intro children' hsame hkind hpath
      rcases Tree.expansionAt_node.mp hpath with ⟨-, hexpansion⟩ | hin
      · exact absurd (hkind.symm.trans hexpansion) (by simp)
      · rw [Tree.subtree?_node _ _ hin.ne_nil, Tree.subtree?_node _ _ hin.ne_nil, hsame hin]
    cases hvisited with
    | still outcome => rfl
    | all depth path wrap hkind =>
      obtain ⟨clauses, hclauses, -⟩ := Course.map_outcome_eq_ok.mp hok
      exact hroot (visitAll_spared hclauses) hkind h
    | first join hkind =>
      obtain ⟨fragment, hfragment, -⟩ := Course.map_outcome_eq_ok.mp hok
      exact hroot (visitFirst_spared hfragment) hkind h
    | expansion link generated hkind =>
      have hresolved := (expandTree_spec _ link generated).2.2 F hok
      rw [(expandTree_spec _ link generated).1] at h
      exact absurd h ((settle_isBare hresolved).not_expansionAt path)

theorem visitAll_spared {g : Progress} {log : List ScanRequest} {clauses : List Fragment} :
    ∀ {trees : List Tree} {path : List Nat}, (visitAll env answers g log trees).outcome = .ok clauses →
      ExpansionIn (visitAll env answers g log trees).state path →
        subtreeIn? (visitAll env answers g log trees).state path = subtreeIn? trees path
  | [], _, _, h => by rw [visitAll] at h ⊢; rfl
  | tree :: rest, _, hok, h => by
    rw [visitAll] at hok h ⊢
    obtain ⟨fragment, hfirst, hrest⟩ := Course.seq_outcome_eq_ok.mp hok
    rw [Course.seq_of_ok hfirst] at h ⊢
    obtain ⟨fragment', hfirst, -⟩ := Course.map_outcome_eq_ok.mp hfirst
    obtain ⟨clauses', hrest, -⟩ := Course.map_outcome_eq_ok.mp hrest
    exact Tree.subtreeIn?_cons_congr (fun _ => visit_spared hfirst) (fun _ => visitAll_spared hrest) h

theorem visitFirst_spared {g : Progress} {log : List ScanRequest} {join : Fragment → Fragment}
    {F : Fragment} : ∀ {trees : List Tree} {path : List Nat},
      (visitFirst env answers g log join trees).outcome = .ok F →
      ExpansionIn (visitFirst env answers g log join trees).state path →
        subtreeIn? (visitFirst env answers g log join trees).state path = subtreeIn? trees path
  | [], _, _, h => by rw [visitFirst] at h ⊢; rfl
  | tree :: rest, _, hok, h => by
    rw [visitFirst] at hok h ⊢
    obtain ⟨fragment, hfirst, -⟩ := Course.map_outcome_eq_ok.mp hok
    exact Tree.subtreeIn?_cons_congr (fun _ => visit_spared hfirst) (fun _ _ => rfl) h

end

end Compile

end LinkedSearch
