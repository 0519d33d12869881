import Mathlib.Data.Finset.Card
import LinkedSearch.Cluster
import LinkedSearch.Proofs.Nesting
import LinkedSearch.Proofs.Tables

/-! # Which aggregations are shown

A rendered aggregation holds those inside of it in one table by name. Names come from the fields of a
request, and from the two wrappers of a nested level; only the count of the missing values stands beside
another aggregation, which has the name of the field.

* `Keyed.length_ofList_iff`: no entry is replaced if all of them have keys of their own.
* `AggregationTree.ShownIn`: a tree of which nothing is lost when it is rendered.
* `AggregationTree.shownIn_iff`: that is so if no two aggregations in the same buckets have one name.
* `Query.AggregateLevel.Chain`: the trees that a chain of aggregates is compiled to.
* `Compiler.aggregation_shown`: what is lost of a compiled aggregate. -/

namespace LinkedSearch

open Query (AggregateLevel)
open Schema (Mapping)

/-! ## Entries with the same key -/

namespace Keyed

variable {α : Type}

/-- **No entry is replaced** if all of them have keys of their own. -/
theorem length_ofList_iff {entries : List (String × α)} :
    (ofList entries).length = entries.length ↔ (keys entries).Nodup := by
  -- the table has the keys of the entries, each of them once
  have hkeys : (keys (ofList entries)).toFinset = (keys entries).toFinset := by
    ext key
    simp only [List.mem_toFinset, mem_keys_ofList]
  have hlength : (ofList entries).length = (keys entries).dedup.length := by
    rw [← List.card_toFinset, ← hkeys, List.toFinset_card_of_nodup (ascending_ofList entries).nodup, keys,
      List.length_map]
  rw [hlength, ← List.dedup_eq_self]
  refine ⟨fun h => (List.dedup_sublist _).eq_of_length (h.trans (List.length_map _).symm), fun h => ?_⟩
  rw [h, keys, List.length_map]

end Keyed

/-! ## Rendered trees -/

namespace Json

/-- The members of an object; other values have none. -/
def members : Json → List (String × Json)
  | .obj members => members
  | _ => []

/-- What is inside of a rendered aggregation, by name. -/
def aggregationsInside (body : Json) : List (String × Json) := ((body.get? "aggs").map members).getD []

end Json

/-- No aggregation has the name under which those inside of it are written. -/
theorem Aggregation.kind_ne_aggs (aggregation : Aggregation) : aggregation.kind ≠ "aggs" := by
  cases aggregation <;> simp [kind]

namespace AggregationTree

/-- What a tree is rendered to under its name. -/
def body (tree : AggregationTree) : Json := tree.member.2

theorem member_eq (tree : AggregationTree) : tree.member = (tree.name, tree.body) := by
  cases tree with
  | node name aggregation inner => rw [body, member, AggregationTree.name]

theorem members_eq_map (trees : List AggregationTree) :
    members trees = trees.map fun tree => (tree.name, tree.body) := by
  induction trees with
  | nil => rfl
  | cons tree rest ih => rw [members, ih, List.map_cons, member_eq]

theorem keys_members (trees : List AggregationTree) : Keyed.keys (members trees) = trees.map name := by
  rw [members_eq_map, Keyed.keys, List.map_map]
  rfl

theorem toJson_eq (tree : AggregationTree) : tree.toJson = .obj [(tree.name, tree.body)] := by
  rw [toJson, member_eq]
  rfl

/-- **Inside of a rendered tree** there is a table of the trees inside of it. -/
theorem aggregationsInside_body : ∀ tree : AggregationTree,
    tree.body.aggregationsInside = Keyed.ofList (members tree.inner)
  | node name aggregation [] => by
    have hkind := aggregation.kind_ne_aggs
    simp [body, member, inner, members, Json.aggregationsInside, Json.ofPresent, Json.ofMembers, Keyed.ofList, hkind]
  | node name aggregation (tree :: rest) => by
    simp [body, member, inner, Json.aggregationsInside, Json.ofPresent, Json.ofMembers, Json.members, Keyed.ofList]

mutual

/-- **Shown in full** among some members: the body of a tree is one of them, and there are as many members inside of it
as there are trees inside, each of which is shown in full among them. -/
def ShownIn : AggregationTree → List (String × Json) → Prop
  | node name aggregation inner, members =>
    Keyed.find? name members = some (node name aggregation inner).body ∧
      (node name aggregation inner).body.aggregationsInside.length = inner.length ∧
      AllShownIn inner (node name aggregation inner).body.aggregationsInside

/-- Each of some trees is shown in full. -/
def AllShownIn : List AggregationTree → List (String × Json) → Prop
  | [], _ => True
  | tree :: rest, members => tree.ShownIn members ∧ AllShownIn rest members

end

mutual

/-- **Nodes** of a tree: the tree itself and all trees inside, at any depth. -/
def nodes : AggregationTree → List AggregationTree
  | node name aggregation inner => node name aggregation inner :: nodesOf inner

/-- The nodes of several trees. -/
def nodesOf : List AggregationTree → List AggregationTree
  | [] => []
  | tree :: rest => tree.nodes ++ nodesOf rest

end

/-- Nothing inside of a tree is lost: there is one member for each tree inside, its own. -/
def IsFull (tree : AggregationTree) : Prop :=
  tree.body.aggregationsInside.length = tree.inner.length ∧
    ∀ sub ∈ tree.inner, Keyed.find? sub.name tree.body.aggregationsInside = some sub.body

/-- **Trees side by side** are all shown if they have names of their own. -/
theorem isFull_iff (tree : AggregationTree) : tree.IsFull ↔ (tree.inner.map name).Nodup := by
  have hlength : (members tree.inner).length = tree.inner.length := by simp [members_eq_map]
  rw [IsFull, aggregationsInside_body, ← hlength, Keyed.length_ofList_iff, keys_members]
  refine and_iff_left_of_imp fun hnames sub hsub => ?_
  rw [← keys_members] at hnames
  rw [Keyed.find?_ofList hnames, members_eq_map] at *
  exact Keyed.find?_of_mem hnames (List.mem_map_of_mem hsub)

mutual

/-- **A tree is shown in full** where its body is, if nothing is lost inside of any of its nodes. -/
theorem shownIn_iff (members : List (String × Json)) : ∀ tree : AggregationTree,
    tree.ShownIn members ↔ Keyed.find? tree.name members = some tree.body ∧ ∀ node ∈ tree.nodes, node.IsFull
  | node name aggregation inner => by
    rw [ShownIn, nodes, List.forall_mem_cons, allShownIn_iff, IsFull]
    simp only [AggregationTree.name, AggregationTree.inner, and_assoc]

theorem allShownIn_iff (members : List (String × Json)) : ∀ trees : List AggregationTree,
    AllShownIn trees members ↔
      (∀ tree ∈ trees, Keyed.find? tree.name members = some tree.body) ∧ ∀ node ∈ nodesOf trees, node.IsFull
  | [] => by simp [AllShownIn, nodesOf]
  | tree :: rest => by
    rw [AllShownIn, shownIn_iff members tree, allShownIn_iff members rest, nodesOf, List.forall_mem_cons,
      List.forall_mem_append]
    exact and_and_and_comm

end

/-- The rendered form of a tree shows all of it if it shows all that is inside of any of its nodes. -/
theorem shownIn_toJson_iff (tree : AggregationTree) :
    tree.ShownIn tree.toJson.members ↔ ∀ node ∈ tree.nodes, node.IsFull := by
  rw [shownIn_iff, toJson_eq, Json.members, Keyed.find?_cons, if_pos rfl]
  exact and_iff_right rfl

end AggregationTree

/-! ## Compiled trees -/

namespace Query.AggregateLevel

/-- **Wrapped trees** of a level: over nested objects, the tree stands beside the count of the missing values, in a
filter in the scope of the objects. -/
def Wraps (level : AggregateLevel) (tree whole : AggregationTree) : Prop :=
  match level.nestedPath with
  | none => whole = tree
  | some path => ∃ fragment, whole = .node "nested" (.nested path)
      [.node "filter" (.filter fragment) [tree, .leaf "missing" (.missing level.field)]]

/-- **Trees of a chain** of levels: each is inside of the one before. -/
inductive Chain : AggregateLevel → List AggregateLevel → AggregationTree → Prop where
  | last {level : AggregateLevel} {compiled : Aggregation} {whole : AggregationTree} :
    level.Wraps (.leaf level.field compiled) whole → Chain level [] whole
  | more {level next : AggregateLevel} {rest : List AggregateLevel} {compiled : Aggregation}
    {sub whole : AggregationTree} : Chain next rest sub →
    level.Wraps (.node level.field compiled [sub]) whole → Chain level (next :: rest) whole

/-- **Levels that lose their tree** are over nested objects and over a field with the name of the count. -/
def IsOverwritten (level : AggregateLevel) : Prop := level.nestedPath.isSome = true ∧ level.field = "missing"

/-- The filter of an overwritten level. -/
def OverwrittenIn (level : AggregateLevel) (node : AggregationTree) : Prop :=
  level.IsOverwritten ∧ ∃ fragment compiled inside, node = .node "filter" (.filter fragment)
    [.node "missing" compiled inside, .leaf "missing" (.missing "missing")]

/-- Of such a filter, only the count of the missing values is shown. -/
theorem OverwrittenIn.aggregationsInside {level : AggregateLevel} {node : AggregationTree}
    (h : level.OverwrittenIn node) :
    node.body.aggregationsInside = [("missing", (AggregationTree.leaf "missing" (.missing "missing")).body)] := by
  obtain ⟨-, fragment, compiled, inside, rfl⟩ := h
  rw [AggregationTree.aggregationsInside_body, AggregationTree.members_eq_map]
  simp [AggregationTree.inner, AggregationTree.leaf, Keyed.ofList, Keyed.insert]

theorem OverwrittenIn.not_isFull {level : AggregateLevel} {node : AggregationTree}
    (h : level.OverwrittenIn node) : ¬node.IsFull := by
  obtain ⟨-, fragment, compiled, inside, rfl⟩ := h
  rw [AggregationTree.isFull_iff]
  simp [AggregationTree.inner, AggregationTree.leaf]

variable {level next : AggregateLevel} {rest : List AggregateLevel} {tree whole : AggregationTree}

/-- The nodes of a wrapped tree are its own and those of the wrapper, in which the tree is lost if the level is
overwritten. -/
theorem Wraps.isFull_or {compiled : Aggregation} {inside : List AggregationTree}
    (h : level.Wraps (.node level.field compiled inside) whole) {node : AggregationTree} (hnode : node ∈ whole.nodes) :
    node ∈ (AggregationTree.node level.field compiled inside).nodes ∨ node.IsFull ∨ level.OverwrittenIn node := by
  unfold Wraps at h
  split at h
  · exact .inl (h ▸ hnode)
  · next path hpath =>
    obtain ⟨fragment, rfl⟩ := h
    simp only [AggregationTree.nodes, AggregationTree.nodesOf, AggregationTree.leaf, List.append_nil, List.mem_cons,
      List.mem_append, List.not_mem_nil, or_false] at hnode
    -- the wrapper, its filter, a node of the tree, and the count of the missing values
    rcases hnode with rfl | rfl | hown | rfl
    · exact .inr (.inl ((AggregationTree.isFull_iff _).mpr (by simp [AggregationTree.inner])))
    · by_cases hfield : level.field = "missing"
      · refine .inr (.inr ⟨⟨by rw [hpath]; rfl, hfield⟩, fragment, compiled, inside, ?_⟩)
        rw [hfield]
        rfl
      · exact .inr (.inl ((AggregationTree.isFull_iff _).mpr (by simp [AggregationTree.inner, hfield])))
    · exact .inl (List.mem_cons.mpr hown)
    · exact .inr (.inl ((AggregationTree.isFull_iff _).mpr (by simp [AggregationTree.inner])))

/-- The filter of an overwritten level is one of the nodes. -/
theorem Wraps.exists_overwritten {compiled : Aggregation} {inside : List AggregationTree}
    (h : level.Wraps (.node level.field compiled inside) whole) (hlevel : level.IsOverwritten) :
    ∃ node ∈ whole.nodes, level.OverwrittenIn node := by
  obtain ⟨path, hpath⟩ := Option.isSome_iff_exists.mp hlevel.1
  rw [Wraps, hpath] at h
  obtain ⟨fragment, rfl⟩ := h
  rw [hlevel.2]
  exact ⟨_, by simp [AggregationTree.nodes, AggregationTree.nodesOf], hlevel, fragment, compiled, inside, rfl⟩

/-- The nodes of a tree stay nodes when it is wrapped. -/
theorem Wraps.nodes_subset (h : level.Wraps tree whole) : tree.nodes ⊆ whole.nodes := by
  intro node hnode
  unfold Wraps at h
  split at h
  · exact h ▸ hnode
  · obtain ⟨fragment, rfl⟩ := h
    simp [AggregationTree.nodes, AggregationTree.nodesOf, hnode]

/-- **Nodes of a chain**: nothing is lost inside of them, but for the filters of overwritten levels. -/
theorem Chain.isFull_or (h : Chain level rest tree) :
    ∀ node ∈ tree.nodes, node.IsFull ∨ ∃ lost ∈ level :: rest, lost.OverwrittenIn node := by
  induction h with
  | @last level compiled whole hwraps =>
    intro node hnode
    rcases hwraps.isFull_or hnode with hown | hfull | hlost
    · obtain rfl : node = .node level.field compiled [] := by
        simpa [AggregationTree.nodes, AggregationTree.nodesOf] using hown
      exact .inl ((AggregationTree.isFull_iff _).mpr List.nodup_nil)
    · exact .inl hfull
    · exact .inr ⟨level, List.mem_cons_self, hlost⟩
  | @more level next rest compiled sub whole _ hwraps ih =>
    intro node hnode
    rcases hwraps.isFull_or hnode with hown | hfull | hlost
    · simp only [AggregationTree.nodes, AggregationTree.nodesOf, List.append_nil, List.mem_cons] at hown
      -- the level's own node has a single tree inside, so that no names can clash there
      rcases hown with rfl | hsub
      · exact .inl ((AggregationTree.isFull_iff _).mpr (List.nodup_singleton _))
      · exact (ih node hsub).imp_right fun ⟨lost, hmem, hlost⟩ => ⟨lost, List.mem_cons_of_mem _ hmem, hlost⟩
    · exact .inl hfull
    · exact .inr ⟨level, List.mem_cons_self, hlost⟩

/-- Every overwritten level of a chain has its filter among the nodes. -/
theorem Chain.exists_overwritten (h : Chain level rest tree) :
    ∀ lost ∈ level :: rest, lost.IsOverwritten → ∃ node ∈ tree.nodes, lost.OverwrittenIn node := by
  induction h with
  | last hwraps =>
    intro lost hmem hlost
    obtain rfl := List.mem_singleton.mp hmem
    exact hwraps.exists_overwritten hlost
  | @more level next rest compiled sub whole _ hwraps ih =>
    intro lost hmem hlost
    rcases List.mem_cons.mp hmem with rfl | hmem
    · exact hwraps.exists_overwritten hlost
    · obtain ⟨node, hnode, hin⟩ := ih lost hmem hlost
      refine ⟨node, hwraps.nodes_subset ?_, hin⟩
      simp [AggregationTree.nodes, AggregationTree.nodesOf, hnode]

/-- **A chain is shown in full** if none of its levels is overwritten. -/
theorem Chain.shownIn_iff (h : Chain level rest tree) :
    tree.ShownIn tree.toJson.members ↔ ∀ lost ∈ level :: rest, ¬lost.IsOverwritten := by
  rw [AggregationTree.shownIn_toJson_iff]
  constructor
  · intro hfull lost hmem hlost
    obtain ⟨node, hnode, hin⟩ := h.exists_overwritten lost hmem hlost
    exact hin.not_isFull (hfull node hnode)
  · intro hnone node hnode
    refine (h.isFull_or node hnode).resolve_right ?_
    rintro ⟨lost, hmem, hin⟩
    exact hnone lost hmem hin.1

end Query.AggregateLevel

namespace Compile

variable {env : Environment} {p : Progress}

/-- The scope of a level is its wrapper. -/
theorem inScope_wraps (level : AggregateLevel) (tree : AggregationTree) :
    wp (inScope env level tree) (fun whole _ => level.Wraps tree whole) (fun _ _ => True) p := by
  unfold inScope
  split
  · next hpath =>
    rw [wp_pure, AggregateLevel.Wraps, hpath]
  · next path hpath =>
    refine wp_bind_any fun fragment q => ?_
    rw [wp_pure, AggregateLevel.Wraps, hpath]
    exact ⟨fragment, rfl⟩

/-- **Levels are compiled to a chain**, if they are compiled at all. -/
theorem levels_chain (inner : List AggregateLevel) : ∀ (outer : AggregateLevel) (p : Progress),
    wp (levels env outer inner) (fun tree _ => outer.Chain inner tree) (fun _ _ => True) p := by
  induction inner with
  | nil =>
    intro outer p
    rw [levels]
    exact wp_bind_any fun compiled q =>
      wp_mono (inScope_wraps outer _) (fun _ _ => .last) fun _ _ => id
  | cons next rest ih =>
    intro outer p
    rw [levels]
    refine wp_bind_any fun compiled q => wp_bind_any fun _ s => ?_
    rw [wp_bind]
    refine wp_mono (ih next s) (fun sub t hsub => ?_) fun _ _ => id
    exact wp_mono (inScope_wraps outer _) (fun _ _ => .more hsub) fun _ _ => id

/-- The aggregate of a draft is compiled to the chain of its levels. -/
theorem aggregate_chain {tree : AggregationTree} {q : Progress}
    (h : exec (aggregate env) p = (.ok (some tree), q)) :
    ∃ aggregate, p.draft.aggregate = some aggregate ∧ aggregate.outer.Chain aggregate.inner tree := by
  have hchain : wp (aggregate env) (fun compiled _ => ∀ tree, compiled = some tree →
      ∃ aggregate, p.draft.aggregate = some aggregate ∧ aggregate.outer.Chain aggregate.inner tree)
      (fun _ _ => True) p := by
    unfold aggregate
    rw [wp_bind, wp_get]
    split
    · intro tree hnone
      exact absurd hnone (by simp)
    · next aggregate haggregate =>
      rw [wp_within, wp_bind]
      refine wp_mono (levels_chain aggregate.inner aggregate.outer _) (fun tree s htree => ?_) fun _ _ => id
      intro compiled hcompiled
      exact ⟨aggregate, haggregate, Option.some.inj hcompiled ▸ htree⟩
  exact (wp_of_ok h).mp hchain tree rfl

end Compile

/-! ## Compiled aggregates -/

namespace Compiler

open Compile

variable {setup : Setup} {compiler : Compiler}

/-- **What is shown of a compiled aggregate.** Whatever a compiler was used for before, the rendered form of its
aggregation shows every node with all of the aggregations inside, one member for each and nothing else, if and only
if no level over nested objects is over a field with the name of the count of missing values. The filter of such a
level shows that count alone; its own aggregation, with all that is inside of it, is lost. Nothing is lost inside of
any other node. -/
theorem aggregation_shown (hstart : setup.start = .ok compiler) (uses : List Use) {tree : AggregationTree}
    (haggregation : (compiler.used uses).aggregation.1 = .ok (some tree)) :
    ∃ aggregate, setup.request.aggregate = some aggregate ∧
      (tree.ShownIn tree.toJson.members ↔
        ∀ level ∈ aggregate.levels, level.nestedPath.isSome = true → level.field ≠ "missing") ∧
      (∀ level ∈ aggregate.levels, level.nestedPath.isSome = true → level.field = "missing" →
        ∃ node ∈ tree.nodes, level.OverwrittenIn node) ∧
      ∀ node ∈ tree.nodes, node.IsFull ∨ (∃ level ∈ aggregate.levels, level.OverwrittenIn node) ∧
        node.inner.length = 2 ∧ node.body.aggregationsInside =
          [("missing", (AggregationTree.leaf "missing" (.missing "missing")).body)] := by
  obtain ⟨aggregate, haggregate, hchain⟩ := aggregate_chain (Prod.ext haggregation rfl)
  rw [aggregate_used (Setup.started_of_ok hstart)] at haggregate
  refine ⟨aggregate, haggregate, ?_, ?_, fun node hnode => ?_⟩
  · rw [hchain.shownIn_iff]
    simp only [AggregateLevel.IsOverwritten, not_and, ne_eq]
    rfl
  · exact fun level hlevel hnested hfield => hchain.exists_overwritten level hlevel ⟨hnested, hfield⟩
  · refine (hchain.isFull_or node hnode).imp_right ?_
    rintro ⟨level, hlevel, hlost⟩
    refine ⟨⟨level, hlevel, hlost⟩, ?_, hlost.aggregationsInside⟩
    obtain ⟨-, fragment, compiled, inside, rfl⟩ := hlost
    rfl

/-- Items of books, counted by one field, and in each count by further ones. -/
def itemTally (field : String) (further : List String) : Setup where
  index := "books"
  request := {
    query := some (.word "size" (.str "x"))
    aggregate := some {
      outer := { kind := .tally "^.*" 10 .term, field, nestedPath := some "items" }
      inner := further.map fun field => { kind := .tally "^.*" 10 .term, field, nestedPath := some "items" } } }
  resolver := some (Cluster.resolver { mappings := [
    ("books", (((Mapping.keyed "books" "id").withField "size" ⟨.keyword none, some "items"⟩).withField
      "tag" ⟨.keyword none, some "items"⟩).withField "missing" ⟨.keyword none, some "items"⟩)] })
  executor := some (Cluster.executor { documents := [("books", [])] })

/-- Two nested levels, with eight nodes, are shown in full. -/
theorem aggregation_shown_itemTally : ∃ compiler tree, (itemTally "tag" ["size"]).start = .ok compiler ∧
    (compiler.used [.call .query]).aggregation.1 = .ok (some tree) ∧ tree.nodes.length = 8 ∧
    tree.ShownIn tree.toJson.members := by
  have hrun : ((itemTally "tag" ["size"]).start.toOption.any fun compiler =>
      (compiler.used [.call .query]).aggregation.1.toOption.any fun aggregation =>
        aggregation.any fun tree => decide (tree.nodes.length = 8)) = true := by
    decide +kernel
  simp only [Option.any_eq_true, toOption_eq_some, decide_eq_true_eq] at hrun
  obtain ⟨compiler, hstart, _, haggregation, tree, rfl, hlength⟩ := hrun
  obtain ⟨aggregate, haggregate, hshown, -⟩ := aggregation_shown hstart [.call .query] haggregation
  obtain rfl := Option.some.inj haggregate
  exact ⟨compiler, tree, hstart, haggregation, hlength, hshown.mpr (by decide)⟩

/-- **The count of the items by a field called like the count of missing values** is lost: its filter has two
aggregations inside, of which one is shown. -/
theorem not_shown_itemTally : ∃ compiler tree, (itemTally "missing" []).start = .ok compiler ∧
    compiler.aggregation.1 = .ok (some tree) ∧ (∃ node ∈ tree.nodes, node.name = "filter" ∧ node.inner.length = 2 ∧
      node.body.aggregationsInside.length = 1) ∧ ¬tree.ShownIn tree.toJson.members := by
  have hrun : ((itemTally "missing" []).start.toOption.any fun compiler =>
      compiler.aggregation.1.toOption.any fun aggregation => aggregation.any fun tree =>
        tree.nodes.any fun node => decide (node.name = "filter") && decide (node.inner.length = 2) &&
          decide (node.body.aggregationsInside.length = 1)) = true := by
    decide +kernel
  simp only [Option.any_eq_true, toOption_eq_some, List.any_eq_true, Bool.and_eq_true, decide_eq_true_eq] at hrun
  obtain ⟨compiler, hstart, _, haggregation, tree, rfl, node, hnode, ⟨hname, hinner⟩, hinside⟩ := hrun
  refine ⟨compiler, tree, hstart, haggregation, ⟨node, hnode, hname, hinner, hinside⟩, fun hshown => ?_⟩
  have hfull := ((AggregationTree.shownIn_toJson_iff tree).mp hshown node hnode).1
  rw [hinside, hinner] at hfull
  exact absurd hfull (by decide)

end Compiler

end LinkedSearch
