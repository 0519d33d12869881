import LinkedSearch.Proofs.Carrying
import LinkedSearch.Proofs.Meaning
import LinkedSearch.Proofs.Nesting

/-! # Filters of aggregates admit the hits of the query

The filter of a nested aggregate is the query of the request, compiled once more with less in it:
negations, parent scopes and what is not about nested objects admit everything. So the filter holds of
every document that the query holds of.

* `Fragment.Covers`: a fragment holds wherever another one does; connectives, joins and scopes keep this.
* `Admits`: what a computation gives in the filter of an aggregate covers what it gives in a query.
* `nodeWithin_admits`: compilations of settled queries.
* `Compiler.filter_admits`: every filter of an aggregate over a query without expansions. -/

namespace LinkedSearch

open Query (Kind Label NodeId Tree)
open Schema (Mapping)

/-! ## Covering -/

namespace Query.Kind

variable {kind : Kind} {children : List NodeId}

/-- All children of a connective are compiled. -/
theorem visits_connective {wrap : List Fragment → Fragment} (h : kind.connective? = some wrap) :
    kind.visits children = children := by
  cases kind with
  | conjunction | disjunction | negation => rfl
  | _ => exact absurd h (by simp [connective?])

/-- Of a join the first child is. -/
theorem visits_join {join : Fragment → Fragment} (h : kind.join? = some join) :
    kind.visits children = children.take 1 := by
  cases kind with
  | child | parent => rfl
  | _ => exact absurd h (by simp [join?])

end Query.Kind

namespace Fragment

/-- **Covering**: a fragment holds of every document that another one holds of. -/
def Covers (wide narrow : Fragment) : Prop :=
  ∀ document, narrow.holds document = true → wide.holds document = true

theorem Covers.refl (F : Fragment) : F.Covers F := fun _ h => h

theorem covers_matchAll (boost : Boost) (F : Fragment) : (matchAll boost).Covers F := fun _ _ => rfl

/-- A condition on word positions is never known to hold. -/
theorem covers_span (F : Fragment) (condition : Span) : F.Covers (span condition) :=
  fun _ h => absurd h (by simp [holds])

/-- Boosts change nothing about it. -/
theorem Covers.weighted {F G : Fragment} (h : F.Covers G) (boost boost' : Boost) :
    (F.weighted boost).Covers (G.weighted boost') := by
  intro document hG
  rw [holds_weighted] at hG ⊢
  exact h document hG

theorem Covers.nested {F G : Fragment} (h : F.Covers G) (path : String) :
    (Fragment.nested path F none).Covers (.nested path G none) := by
  intro document hG
  rw [holds, List.any_eq_true] at hG ⊢
  obtain ⟨view, hview, hG⟩ := hG
  exact ⟨view, hview, h view hG⟩

/-- Clauses that cover others one by one. -/
abbrev CoversAll (wide narrow : List Fragment) : Prop := List.Forall₂ Covers wide narrow

theorem CoversAll.all {Fs Gs : List Fragment} (h : CoversAll Fs Gs) : (all Fs).Covers (all Gs) := by
  intro document hG
  rw [holds_all] at hG ⊢
  induction h with
  | nil => rfl
  | cons hfirst _ ih =>
    rw [List.all_cons, Bool.and_eq_true] at hG ⊢
    exact ⟨hfirst document hG.1, ih hG.2⟩

theorem CoversAll.any {Fs Gs : List Fragment} (h : CoversAll Fs Gs) : (any Fs).Covers (any Gs) := by
  intro document hG
  -- a disjunction without clauses holds of everything, so there it needs no clause
  by_cases hempty : Gs = []
  · rw [hempty] at h
    rw [List.forall₂_nil_right_iff.mp h]
    rfl
  · have hnonempty : Fs ≠ [] := by
      rintro rfl
      exact hempty (List.forall₂_nil_left_iff.mp h)
    rw [holds_any hempty] at hG
    rw [holds_any hnonempty]
    clear hempty hnonempty
    induction h with
    | nil => exact hG
    | cons hfirst _ ih =>
      rw [List.any_cons, Bool.or_eq_true] at hG ⊢
      exact hG.imp (hfirst document) ih

/-- Conjunctions and disjunctions cover if their clauses do. -/
theorem CoversAll.connective {kind : Kind} {wrap : List Fragment → Fragment} {Fs Gs : List Fragment}
    (h : CoversAll Fs Gs) (hwrap : kind.connective? = some wrap) (hopen : kind.isAdmitted = false) :
    (wrap Fs).Covers (wrap Gs) := by
  cases kind with
  | conjunction => cases hwrap; exact h.all
  | disjunction => cases hwrap; exact h.any
  | negation => exact absurd hopen (by simp [Kind.isAdmitted])
  | _ => exact absurd hwrap (by simp [Kind.connective?])

/-- Joins cover if what is joined does. -/
theorem Covers.join {kind : Kind} {join : Fragment → Fragment} {F G : Fragment} (h : F.Covers G)
    (hjoin : kind.join? = some join) : (join F).Covers (join G) := by
  cases kind with
  | child typeName => cases hjoin; exact fun document hG => h document hG
  | parent typeName => cases hjoin; exact fun document hG => h document hG
  | _ => exact absurd hjoin (by simp [Kind.join?])

end Fragment

namespace Compile

variable {α : Type} {env : Environment} {p q s s' : Progress} {n : Nat} {F G : Fragment}

/-- Scopes cover if their clauses do. -/
theorem covers_closeScope {Fs Gs : List Fragment} (h : Fragment.CoversAll Fs Gs) (s : Progress) :
    (closeScope Fs s).1.Covers (closeScope Gs s).1 := by
  unfold closeScope
  split
  · exact h.all
  · cases s.scopePath with
    | none => exact h.all
    | some path => exact h.all.nested path

/-! ## The two modes -/

/-- A state in which the filter of an aggregate is compiled. -/
def filtering (p : Progress) : Progress := { p with aggregating := true }

/-- Lookups are the same in both modes. -/
theorem spares_filtering : Spares filtering := ⟨fun _ => rfl, fun _ _ => rfl, fun _ => rfl⟩

theorem sound_filtering (hp : Sound env p) : Sound env (filtering p) :=
  ⟨hp.ascending, hp.faithful⟩

/-- **Admitting**: what a computation gives in the filter of an aggregate covers what it gives in a
query, where it succeeds in both. -/
def Admits (x : Compile Fragment) (p : Progress) : Prop :=
  ∀ F G, (exec x (filtering p)).1 = .ok F → (exec x p).1 = .ok G → F.Covers G

/-- Computations that are alike in both modes up to covering. -/
theorem Carries.admits {x : Compile Fragment} (h : Carries filtering (fun G F => F.Covers G) x x p) :
    Admits x p := by
  intro F G hF hG
  obtain ⟨F', hF', hcovers⟩ := (wp_of_ok (Prod.ext hG rfl)).mp h
  rw [hF'] at hF
  obtain rfl := Except.ok.inj hF
  exact hcovers

/-! ## Predicates -/

/-- A condition without a nested path is left out of the filter; any other one is the same in both. -/
theorem nest_covers (label : Label) (base : Fragment) (p : Progress) :
    Carries filtering (fun G F => F.Covers G) (nest env label base) (nest env label base) p := by
  unfold nest
  refine (nestedPathOf_carries spares_filtering label p).bind fun path _ q hsame => ?_
  subst hsame
  split
  · exact .get (.pure (Fragment.covers_matchAll none _))
  · refine .getSame rfl ?_
    split
    · exact .pure (Fragment.Covers.refl _)
    · split
      · split
        · exact .pure (Fragment.Covers.refl _)
        · exact .throw _
      · exact .pure (Fragment.Covers.refl _)

/-- **Predicates** of a filter cover those of the query. -/
theorem predicate_admits (label : Label) (p : Progress) : Admits (predicate env label) p := by
  refine Carries.admits ?_
  unfold predicate
  have hleaf : Carries filtering (fun G F => F.Covers G) (leaf env label) (leaf env label) p :=
    leaf_carries spares_filtering (fun label base p _ => nest_covers label base p)
      (fun base _ => .refl base) label p
  exact hleaf.bind fun G F q hcovers => .pure (hcovers.weighted label.boost label.boost)

/-- A proximity is a condition on word positions. -/
theorem weightedProximity_span (label : Label) (n : Nat) (p : Progress) :
    wp (weightedProximity env label n) (fun G _ => ∃ clause, G = .span clause) (fun _ _ => True) p := by
  unfold weightedProximity proximity
  simp only [bind_assoc, pure_bind]
  refine wp_bind_any fun arena q => wp_bind_any fun clause r => ?_
  rw [wp_pure]
  cases label.boost with
  | none => exact ⟨clause, rfl⟩
  | some factor => exact ⟨clause.boosted factor, rfl⟩

/-- So whatever becomes of it in the filter covers it. -/
theorem proximity_admits (label : Label) (n : Nat) (p : Progress) :
    Admits (weightedProximity env label n) p := by
  intro F G _ hG
  obtain ⟨clause, rfl⟩ := (wp_of_ok (Prod.ext hG rfl)).mp (weightedProximity_span label n p)
  exact Fragment.covers_span F clause

/-! ## Nodes -/

/-- The path of a scope is found in the same way. -/
theorem sharedPath_filtering (n : Nat) (p : Progress) :
    exec (sharedPath env n) (filtering p) =
      ((exec (sharedPath env n) p).1, filtering (exec (sharedPath env n) p).2) := by
  have hcarries : Carries filtering Eq (sharedPath env n) (sharedPath env n) p := by
    unfold sharedPath
    refine .arena (.arena ?_)
    refine Carries.foldlM rfl fun label _ shared _ q hsame => ?_
    subst hsame
    exact sharePath_carries spares_filtering shared label q
  rcases hexec : exec (sharedPath env n) p with ⟨error | path, q⟩
  · exact (wp_of_error hexec).mp hcarries
  · obtain ⟨_, hfilter, rfl⟩ := (wp_of_ok hexec).mp hcarries
    exact hfilter

/-- So a scope is entered in the same way. -/
theorem Entered.filtering_eq (h : Entered env n p s) (h' : Entered env n (filtering p) s') :
    s' = filtering s := by
  cases h with
  | outermost path s hzero hpath =>
    cases h' with
    | inner hdepth => exact absurd hzero hdepth
    | outermost path' s' _ hpath' =>
      rw [sharedPath_filtering, hpath] at hpath'
      cases hpath'
      rfl
  | inner hdepth =>
    cases h' with
    | inner => rfl
    | outermost _ _ hzero => exact absurd hzero hdepth

/-- What is known when a scope was entered. -/
theorem Entered.sound (h : Entered env n p s) (hp : Sound env p) : Sound env s ∧ s.draft = p.draft := by
  cases h with
  | inner => exact ⟨hp, rfl⟩
  | outermost path s _ hpath =>
    obtain ⟨_, s', hexec, md, hgrows, rfl⟩ := sharedPath_looks hp n
    obtain ⟨-, rfl⟩ := Prod.mk.inj (hexec.symm.trans hpath)
    exact ⟨⟨hp.ascending, hgrows.faithful hp.faithful⟩, rfl⟩

section Nodes

variable {recur : NodeId → Compile Fragment} {ids : List NodeId}

/-- **Clauses** of a filter cover those of the query one by one, though each is compiled in the state that
the ones before it leave. -/
theorem coversAll_of_exec {Fs Gs : List Fragment}
    (htimeless : ∀ c ∈ ids, Timeless env (recur c) p)
    (hfilter : ∀ c ∈ ids, Timeless env (recur c) (filtering p)) (h : ∀ c ∈ ids, Admits (recur c) p)
    (hF : (exec (ids.mapM recur) (filtering p)).1 = .ok Fs) (hG : (exec (ids.mapM recur) p).1 = .ok Gs) :
    Fragment.CoversAll Fs Gs := by
  have hFs := Timeless.mapM_ok hfilter hF
  have hGs := Timeless.mapM_ok htimeless hG
  clear hF hG htimeless hfilter
  induction hFs generalizing Gs with
  | nil =>
    rw [List.forall₂_nil_left_iff.mp hGs]
    exact .nil
  | cons hfirst _ ih =>
    obtain ⟨G, rest, hG, hrest, rfl⟩ := List.forall₂_cons_left_iff.mp hGs
    exact .cons (h _ List.mem_cons_self _ _ hfirst hG)
      (ih (fun c hc => h c (List.mem_cons_of_mem _ hc)) hrest)

/-- The fragment of a scope, if its children are timeless: with the depth and the path with which they
are compiled. -/
theorem closeScope_timeless {u : Progress} {clauses : List Fragment}
    (h : Timeless env (ids.mapM recur) (deeper s))
    (hall : exec (ids.mapM recur) (deeper s) = (.ok clauses, u)) :
    (closeScope clauses { u with scopeDepth := u.scopeDepth - 1 }).1 = (closeScope clauses s).1 := by
  have hdrift := (h _ (.refl _)).2
  rw [hall] at hdrift
  exact closeScope_congr clauses (congrArg (· - 1) hdrift.scopeDepth_eq)
    (hdrift.scopePath_eq.resolve_left (Nat.succ_ne_zero _))

/-- **Scopes** of a filter cover those of the query. -/
theorem scope_admits (hp : Sound env p)
    (htimeless : ∀ c ∈ p.draft.arena.children n, ∀ q, Sound env q → q.draft = p.draft →
      Timeless env (recur c) q)
    (h : ∀ c ∈ p.draft.arena.children n, ∀ q, Sound env q → q.draft = p.draft → Admits (recur c) q) :
    Admits (scope env recur n) p := by
  intro F G hF hG
  obtain ⟨s', u', Fs, hentered', hFs, hcloseF⟩ := exec_scope_ok.mp (Prod.ext hF rfl)
  obtain ⟨s, u, Gs, hentered, hGs, hcloseG⟩ := exec_scope_ok.mp (Prod.ext hG rfl)
  obtain rfl := hentered.filtering_eq hentered'
  obtain ⟨hs, hdraft⟩ := hentered.sound hp
  have hdeeper : Sound env (deeper s) := ⟨hs.ascending, hs.faithful⟩
  have hinside : ∀ c ∈ p.draft.arena.children n, Timeless env (recur c) (deeper s) :=
    fun c hc => htimeless c hc _ hdeeper hdraft
  have hinside' : ∀ c ∈ p.draft.arena.children n, Timeless env (recur c) (deeper (filtering s)) :=
    fun c hc => htimeless c hc _ (sound_filtering hdeeper) hdraft
  have hcovers : Fragment.CoversAll Fs Gs := coversAll_of_exec hinside hinside'
    (fun c hc => h c hc _ hdeeper hdraft) (congrArg Prod.fst hFs) (congrArg Prod.fst hGs)
  rw [show F = _ from congrArg Prod.fst hcloseF, show G = _ from congrArg Prod.fst hcloseG,
    closeScope_timeless (.mapM hinside') hFs, closeScope_timeless (.mapM hinside) hGs,
    closeScope_congr (s := filtering s) (t := s) Fs rfl rfl]
  exact covers_closeScope hcovers s

/-- **A node that is no expansion** admits if the children do that are visited. -/
theorem node_admits (hp : Sound env p) (hkind : (p.draft.arena.label n).kind.isExpansion = false)
    (htimeless : ∀ c ∈ (p.draft.arena.label n).kind.visits (p.draft.arena.children n), ∀ q,
      Sound env q → q.draft = p.draft → Timeless env (recur c) q)
    (h : ∀ c ∈ (p.draft.arena.label n).kind.visits (p.draft.arena.children n), ∀ q,
      Sound env q → q.draft = p.draft → Admits (recur c) q) :
    Admits (node env recur n) p := by
  intro F G hF hG
  have hF : exec (node env recur n) (filtering p) = (.ok F, (exec (node env recur n) (filtering p)).2) :=
    Prod.ext hF rfl
  have hG : exec (node env recur n) p = (.ok G, (exec (node env recur n) p).2) := Prod.ext hG rfl
  -- negations and parent scopes match everything in a filter
  cases hadmitted : (p.draft.arena.label n).kind.isAdmitted with
  | true =>
    rw [exec_node_admitted (p := filtering p) (by rw [Bool.and_eq_true]; exact ⟨rfl, hadmitted⟩)] at hF
    obtain rfl := Except.ok.inj (congrArg Prod.fst hF)
    exact Fragment.covers_matchAll none G
  | false =>
  have hopen : (p.aggregating && (p.draft.arena.label n).kind.isAdmitted) = false := by
    rw [hadmitted, Bool.and_false]
  have hopen' : ((filtering p).aggregating && ((filtering p).draft.arena.label n).kind.isAdmitted) = false :=
    hadmitted
  rcases (p.draft.arena.label n).kind.sorts with
    ⟨wrap, hwrap⟩ | ⟨join, hjoin⟩ | hscope | ⟨link, generated, hexpansion⟩ | hleaf | hnear
  · rw [Kind.visits_connective hwrap] at htimeless h
    rw [exec_node_connective (p := filtering p) hwrap hopen', exec_bind_ok] at hF
    rw [exec_node_connective hwrap hopen, exec_bind_ok] at hG
    obtain ⟨Fs, s', hFs, hpureF⟩ := hF
    obtain ⟨Gs, s, hGs, hpureG⟩ := hG
    obtain rfl := Except.ok.inj (congrArg Prod.fst hpureF)
    obtain rfl := Except.ok.inj (congrArg Prod.fst hpureG)
    have hcovers : Fragment.CoversAll Fs Gs := coversAll_of_exec (fun c hc => htimeless c hc p hp rfl)
      (fun c hc => htimeless c hc _ (sound_filtering hp) rfl) (fun c hc => h c hc p hp rfl)
      (congrArg Prod.fst hFs) (congrArg Prod.fst hGs)
    exact hcovers.connective hwrap hadmitted
  · rw [exec_node_joined (p := filtering p) hjoin hopen'] at hF
    rw [exec_node_joined hjoin hopen] at hG
    rcases exec_joined_ok.mp hF with ⟨child, rest, inner, hchildren, hinner, rfl⟩ | ⟨-, rfl, -⟩
    · rcases exec_joined_ok.mp hG with ⟨child', rest', inner', hchildren', hinner', rfl⟩ | ⟨hnil, -⟩
      · obtain ⟨rfl, rfl⟩ := List.cons.inj (hchildren.symm.trans hchildren')
        have hvisited : child ∈ (p.draft.arena.label n).kind.visits (p.draft.arena.children n) := by
          rw [Kind.visits_join hjoin, hchildren']
          exact List.mem_cons_self
        have hcovers := h child hvisited p hp rfl inner inner' (congrArg Prod.fst hinner)
          (congrArg Prod.fst hinner')
        split
        · exact hcovers.join hjoin
        · exact hcovers
      · exact absurd (hchildren.symm.trans hnil) (by simp)
    · exact Fragment.covers_matchAll none G
  · rw [hscope] at htimeless h
    rw [exec_node, show ((filtering p).draft.arena.label n).kind = .scope from hscope] at hF
    rw [exec_node, hscope] at hG
    exact scope_admits hp htimeless h F G (congrArg Prod.fst hF) (congrArg Prod.fst hG)
  · rw [hexpansion] at hkind
    exact absurd hkind (by simp [Kind.isExpansion])
  · rw [exec_node_predicate (p := filtering p) hleaf] at hF
    rw [exec_node_predicate hleaf] at hG
    exact predicate_admits _ p F G (congrArg Prod.fst hF) (congrArg Prod.fst hG)
  · rw [exec_node_proximity (p := filtering p) hnear] at hF
    rw [exec_node_proximity hnear] at hG
    exact proximity_admits _ n p F G (congrArg Prod.fst hF) (congrArg Prod.fst hG)

end Nodes

/-- **Settled queries**: what is compiled for the filter of an aggregate covers what is compiled for the
query, at every node. -/
theorem nodeWithin_admits (fuel : Nat) (hp : Sound env p) (hn : p.draft.arena.Settled n) :
    Admits (nodeWithin env fuel n) p := by
  induction fuel generalizing n p with
  | zero => exact fun F G hF _ => absurd hF (by simp [nodeWithin, exec])
  | succ fuel ih =>
    have hvisited : ∀ c ∈ (p.draft.arena.label n).kind.visits (p.draft.arena.children n),
        ∀ q : Progress, q.draft = p.draft → q.draft.arena.Settled c := by
      intro c hc q hdraft
      rw [hdraft]
      exact hn.visited c hc
    exact node_admits hp hn.isExpansion_eq
      (fun c hc q hq hdraft => nodeWithin_timeless fuel hq (hvisited c hc q hdraft))
      (fun c hc q hq hdraft => ih hq (hvisited c hc q hdraft))

/-- **Settled root.** Without a query the filter matches everything. -/
theorem rootQuery_admits (h : RootSettled env p) : Admits (rootQuery env) p := by
  cases hroot : p.draft.root with
  | none =>
    intro F G hF _
    rw [exec_rootQuery_none (p := filtering p) hroot] at hF
    obtain rfl := Except.ok.inj hF
    exact Fragment.covers_matchAll none G
  | some root =>
    intro F G hF hG
    rw [exec_rootQuery (p := filtering p) hroot] at hF
    rw [exec_rootQuery hroot] at hG
    exact nodeWithin_admits _ h.1 (h.2 root hroot) F G hF hG

end Compile

namespace Compiler

open Compile

variable {setup : Setup} {compiler : Compiler}

/-! ## Compilers -/

/-- **No filter of an aggregate excludes a hit of the query.** For a request whose query has no
expansions, or that has no query, and whatever was done with the compiler before the query and before the
aggregate are compiled: the filters of the aggregate are as many as its nested levels, and each of them
holds of every document that the query holds of. -/
theorem filter_admits (hstart : setup.start = .ok compiler)
    (hbare : ∀ tree, setup.request.query = some tree → tree.IsBare) (uses uses' : List Use)
    {query : Fragment} (hquery : (compiler.used uses).query.1 = .ok query) {compiled : AggregationTree}
    (haggregation : (compiler.used uses').aggregation.1 = .ok (some compiled)) :
    (∃ aggregate, setup.request.aggregate = some aggregate ∧
      compiled.filters.length =
        (aggregate.outer :: aggregate.inner).countP (·.nestedPath.isSome)) ∧
    ∀ filter ∈ compiled.filters, ∀ document,
      query.holds document = true → filter.holds document = true := by
  have hstarted := Setup.started_of_ok hstart
  obtain ⟨md, hprogress⟩ := hstarted.progress_eq
  have hsettled := rootSettled_of_started hstarted hbare
  -- neither of them has a history
  obtain ⟨-, -, hagain, -⟩ := used_transparent hstart hbare uses
  obtain ⟨-, -, -, hagain', -⟩ := used_transparent hstart hbare uses'
  have hquery : (exec (rootQuery compiler.environment) compiler.progress).1 = .ok query :=
    hagain ▸ hquery
  have hfilters : (exec (aggregate compiler.environment) compiler.progress).1 = .ok (some compiled) :=
    hagain' ▸ haggregation
  obtain ⟨aggregate, haggregate, hcount, hcompiled⟩ := aggregate_filters hsettled hfilters
  refine ⟨⟨aggregate, ?_, hcount⟩, fun filter hfilter => ?_⟩
  · rw [hprogress] at haggregate
    exact haggregate
  · exact rootQuery_admits hsettled filter query (hcompiled filter hfilter) hquery

/-- Items with the tag `x`, and others with the tag `w` or without the tag `v`, of books that have the
word `y` in their title but not the word `z`. -/
def shelvedTree : Tree :=
  .conjunction [.word "tag" (.str "x"), .negation (.word "title" (.str "z")), .word "title" (.str "y"),
    .scope [.disjunction [.word "tag" (.str "w"), (Tree.word "tag" (.str "v")).withOperator .notEqual]]]

/-- A book with a title and one item, which has a tag. -/
def shelved (title tag : String) : Json :=
  .ofMembers [("title", .str title), ("items", .arr [.ofMembers [("tag", .str tag)]]), ("tag", .str tag)]

/-- The filter of the tags of these items holds wherever the query holds, which is somewhere, but also of
a book with the wrong title. -/
theorem filter_admits_shelvedTree : ∃ compiler query compiled filter,
    (itemSearch shelvedTree).start = .ok compiler ∧
    (compiler.used [.call .aggregation]).query.1 = .ok query ∧
    compiler.aggregation.1 = .ok (some compiled) ∧ compiled.filters = [filter] ∧
    query.holds (shelved "y" "x") = true ∧ filter.holds (shelved "z" "x") = true ∧
    query.holds (shelved "z" "x") = false ∧ filter.holds (shelved "y" "v") = false ∧
    ∀ document, query.holds document = true → filter.holds document = true := by
  have hrun : ((itemSearch shelvedTree).start.toOption.any fun compiler =>
      (compiler.used [.call .aggregation]).query.1.toOption.any fun query =>
        compiler.aggregation.1.toOption.any fun aggregation => aggregation.any fun compiled =>
          compiled.filters.head?.any fun filter =>
            query.holds (shelved "y" "x") && filter.holds (shelved "z" "x") &&
              !query.holds (shelved "z" "x") && !filter.holds (shelved "y" "v")) = true := by
    decide +kernel
  have hbare : ∀ tree, (itemSearch shelvedTree).request.query = some tree → tree.IsBare := by
    intro tree htree
    cases htree
    unfold Tree.IsBare
    decide
  simp only [Option.any_eq_true, toOption_eq_some, Bool.and_eq_true, Bool.not_eq_true'] at hrun
  obtain ⟨compiler, hstart, query, hquery, _, haggregation, compiled, rfl, filter, hfilter,
    ⟨⟨hhit, hwide⟩, hmiss⟩, hnarrow⟩ := hrun
  obtain ⟨⟨aggregate, haggregate, hcount⟩, hadmits⟩ :=
    filter_admits hstart hbare [.call .aggregation] [] hquery haggregation
  obtain rfl := Option.some.inj haggregate
  obtain ⟨rest, hrest⟩ := List.head?_eq_some_iff.mp hfilter
  rw [hrest] at hcount hadmits
  obtain rfl : rest = [] := List.length_eq_zero_iff.mp (Nat.succ.inj hcount)
  exact ⟨compiler, query, compiled, filter, hstart, hquery, haggregation, hrest, hhit, hwide, hmiss, hnarrow,
    hadmits filter List.mem_cons_self⟩

end Compiler

end LinkedSearch
