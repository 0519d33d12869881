import Mathlib.Data.Set.Subsingleton
import LinkedSearch.Proofs.Nesting
import LinkedSearch.Proofs.Sheltering

/-! # One nested object for everything in a scope

A scope that stands in no other scope looks at the nested paths of all leaves below it before it compiles
any of them. If there are different ones it fails; if there is one, whatever is in the scope is put below
it, once; and if there is none, nothing is.

* `scopePaths`: the nested paths of the leaves below a node.
* `sharedPath_spec`: the path of a scope is the only one of these, or there is a conflict.
* `exec_outermost`: an outermost scope is its children, compiled one scope deeper, under this path.
* `Clauses`: what the children of a scope are compiled to.
* `Compiler.scope_shared`: whatever a scope without expansions is compiled to. -/

namespace LinkedSearch

open Query (Arena Label NodeId Tree)

namespace Compile

variable {env : Environment} {p : Progress} {n : Nat}

/-! ## The path of a scope -/

/-- **The nested paths of a scope**: those of the leaves below it, as deep as they may stand. -/
def scopePaths (env : Environment) (p : Progress) (n : Nat) : Set String :=
  { path | ∃ x, p.draft.arena.Below n x ∧ (p.draft.arena.label x).kind.isLeaf = true ∧
    p.metadata.pathOf env.resolver (p.draft.arena.label x) = .ok (some path) }

/-- The labels of the leaves below a node. -/
def leafLabels (p : Progress) (n : Nat) : List Label :=
  ((p.draft.arena.descendants n).map p.draft.arena.label).filter (·.kind.isLeaf)

/-- The nested paths of a scope can be listed. -/
theorem mem_scopePaths (h : p.draft.arena.Ascending) {path : String} :
    path ∈ scopePaths env p n ↔
      ∃ label ∈ leafLabels p n, p.metadata.pathOf env.resolver label = .ok (some path) := by
  simp only [leafLabels, scopePaths, Set.mem_ofPred_eq, List.mem_filter, List.mem_map, h.mem_descendants]
  constructor
  · rintro ⟨x, hx, hleaf, hpath⟩
    exact ⟨_, ⟨⟨x, hx, rfl⟩, hleaf⟩, hpath⟩
  · rintro ⟨_, ⟨⟨x, hx, rfl⟩, hleaf⟩, hpath⟩
    exact ⟨x, hx, hleaf, hpath⟩

/-- One more leaf either keeps to the path shared so far, or has another one. -/
theorem sharePath_spec (hp : Sound env p) (hmapped : p.metadata.Mapped env.resolver)
    (shared : Option String) (label : Label) :
    wp (sharePath env shared label)
      (fun next q => Looked env p q ∧ ∀ x, next = some x ↔
        shared = some x ∨ p.metadata.pathOf env.resolver label = .ok (some x))
      (fun error _ => ∃ path active, error = .nestedPathConflict path active ∧ path ≠ active ∧
        p.metadata.pathOf env.resolver label = .ok (some path) ∧ shared = some active) p := by
  obtain ⟨q, hexec, hlooked⟩ := exec_nestedPathOf hp label
  obtain ⟨own, hown⟩ := hmapped.exists_pathOf label
  unfold sharePath
  rw [wp_bind, hown]
  rw [hown] at hexec
  refine (wp_of_ok hexec).mpr ?_
  cases own with
  | none => exact ⟨hlooked, by simp⟩
  | some path =>
    -- the first path is taken over, and every later one has to be the same
    cases shared with
    | none => exact ⟨hlooked, by simp⟩
    | some active =>
      simp only
      split
      · next hsame => exact ⟨hlooked, by simp [hsame]⟩
      · next hother => exact ⟨path, active, rfl, Ne.symm hother, rfl, rfl⟩

/-- **Some leaves share a path** if no two of them have different ones. -/
theorem sharing_spec (labels : List Label) (hp : Sound env p)
    (hmapped : p.metadata.Mapped env.resolver) (shared : Option String) {paths : Set String}
    (hpaths : ∀ x, x ∈ paths ↔ shared = some x ∨
      ∃ label ∈ labels, p.metadata.pathOf env.resolver label = .ok (some x)) :
    wp (labels.foldlM (sharePath env) shared) (fun path _ => ∀ x, path = some x ↔ x ∈ paths)
      (fun error _ => ∃ path active, error = .nestedPathConflict path active ∧ path ≠ active ∧
        path ∈ paths ∧ active ∈ paths) p := by
  induction labels generalizing p shared with
  | nil => exact fun x => by simp [hpaths]
  | cons label labels ih =>
    rw [List.foldlM_cons, wp_bind]
    refine wp_mono (sharePath_spec hp hmapped shared label) ?_ ?_
    · rintro next q ⟨hlooked, hnext⟩
      obtain ⟨md, hgrows, rfl⟩ := hlooked
      refine ih (p := { p with metadata := md }) ⟨hp.ascending, hgrows.faithful hp.faithful⟩
        (hmapped.grow hgrows) next fun x => ?_
      rw [hpaths, hnext]
      simp [hgrows.pathOf_eq, or_assoc]
    · rintro error _ ⟨path, active, rfl, hne, hown, rfl⟩
      exact ⟨path, active, rfl, hne, (hpaths path).mpr (.inr ⟨label, List.mem_cons_self, hown⟩),
        (hpaths active).mpr (.inl rfl)⟩

/-- **The path of a scope** is the only nested path of its leaves, if they have any; otherwise there are
two different ones, and a conflict between them. -/
theorem sharedPath_spec (hp : Sound env p) (hmapped : p.metadata.Mapped env.resolver) (n : Nat) :
    wp (sharedPath env n) (fun path _ => ∀ x, path = some x ↔ x ∈ scopePaths env p n)
      (fun error _ => ∃ path active, error = .nestedPathConflict path active ∧ path ≠ active ∧
        path ∈ scopePaths env p n ∧ active ∈ scopePaths env p n) p := by
  show wp ((leafLabels p n).foldlM (sharePath env) none) _ _ p
  refine sharing_spec _ hp hmapped none fun x => ?_
  rw [mem_scopePaths hp.ascending]
  simp

/-! ## Outermost scopes -/

/-- The state in which the children of a scope with some path are compiled. -/
def entering (p : Progress) (path : Option String) : Progress :=
  { p with scopeDepth := p.scopeDepth + 1, scopePath := path }

/-- The children of a bare node are compiled alike in all states that have drifted. -/
theorem children_timeless (fuel : Nat) (hp : Sound env p) (hbare : p.draft.arena.Bare n)
    (path : Option String) : ∀ c ∈ p.draft.arena.children n,
      Timeless env (nodeWithin env fuel c) (entering p path) := fun c hc =>
  nodeWithin_timeless fuel ⟨hp.ascending, hp.faithful⟩
    (hp.ascending.settled_of_bare (hp.ascending.child_lt n c hc) (hbare.child hc))

/-- A scope whose path is known is its children under this path. -/
theorem scopeClauses_outermost {s : Progress} {path : Option String} (fuel : Nat) (hp : Sound env p)
    (houter : p.scopeDepth = 0) (hbare : p.draft.arena.Bare n)
    (hs : Drifted env (entering p path) { s with scopeDepth := s.scopeDepth + 1 }) :
    (exec (scopeClauses (nodeWithin env fuel) (p.draft.arena.children n)) s).1 =
      (exec ((p.draft.arena.children n).mapM (nodeWithin env fuel)) (entering p path)).1.map
        (underPath path) := by
  -- what was looked up for the path makes no difference to the children
  obtain ⟨hsame, hdrift⟩ := Timeless.mapM (children_timeless fuel hp hbare path) _ hs
  rw [← hsame, exec_scopeClauses]
  rcases hall : exec ((p.draft.arena.children n).mapM (nodeWithin env fuel))
    { s with scopeDepth := s.scopeDepth + 1 } with ⟨error | clauses, u⟩
  · rfl
  · rw [hall] at hdrift
    have hdepth : ({ u with scopeDepth := u.scopeDepth - 1 } : Progress).scopeDepth = 0 := by
      show u.scopeDepth - 1 = 0
      rw [hdrift.scopeDepth_eq]
      exact houter
    have hpath : u.scopePath = path := hdrift.scopePath_eq.resolve_left (Nat.succ_ne_zero _)
    refine congrArg Except.ok ((closeScope_outermost clauses hdepth).trans ?_)
    rw [hpath]

/-- **An outermost scope** is compiled to its children, each compiled one scope deeper, under its path. -/
theorem exec_outermost (fuel : Nat) (hp : Sound env p) (houter : p.scopeDepth = 0)
    (hkind : (p.draft.arena.label n).kind = .scope) (hbare : p.draft.arena.Bare n) :
    (exec (nodeWithin env (fuel + 1) n) p).1 = (exec (sharedPath env n) p).1.bind fun path =>
      (exec ((p.draft.arena.children n).mapM (nodeWithin env fuel)) (entering p path)).1.map
        (underPath path) := by
  have hscope : exec (nodeWithin env (fuel + 1) n) p = exec (scope env (nodeWithin env fuel) n) p := by
    rw [nodeWithin, exec_node, hkind]
  obtain ⟨outcome, q, hshared, hlooked⟩ := sharedPath_looks hp n
  rw [hscope, exec_scope, if_pos houter, hshared]
  cases outcome with
  | error error => rfl
  | ok path =>
    obtain ⟨md, hgrows, rfl⟩ := hlooked
    exact scopeClauses_outermost fuel hp houter hbare ⟨hgrows, rfl, rfl, rfl, .inr rfl⟩

/-- **Every child of an outermost scope** suits it, if the scope has a path. -/
theorem suited_child {path : Option String} (hbare : p.draft.arena.Bare n)
    (hpath : ∀ x, path = some x ↔ x ∈ scopePaths env p n) {c : Nat}
    (hc : c ∈ p.draft.arena.children n) : Suited env (entering p path) c where
  bare := hbare.child hc
  suits := fun x hx hleaf own _ hown hactive =>
    Option.some.inj (hactive.symm.trans ((hpath own).mpr ⟨x, .of_child hc hx, hleaf, hown⟩))

/-- Nodes are compiled one after the other exactly if each of them is compiled in the state before. -/
theorem Timeless.mapM_ok_iff {α γ : Type} {f : γ → Compile α} {l : List γ} {as : List α}
    (h : ∀ c ∈ l, Timeless env (f c) p) :
    (exec (l.mapM f) p).1 = .ok as ↔ List.Forall₂ (fun c a => (exec (f c) p).1 = .ok a) l as := by
  refine ⟨Timeless.mapM_ok h, fun hall => ?_⟩
  induction hall with
  | nil => rfl
  | @cons c a l as ha _ ih =>
    have hrest : ∀ d ∈ l, Timeless env (f d) p := fun d hd => h d (List.mem_cons_of_mem c hd)
    have hpure : ∀ a, Timeless env (do return a :: (← l.mapM f)) p := fun a =>
      (Timeless.mapM hrest).bind fun as => .pure (a :: as)
    rw [List.mapM_cons]
    refine (Timeless.bind_ok (h c List.mem_cons_self) hpure).mpr ⟨a, ha, ?_⟩
    exact (Timeless.bind_ok (Timeless.mapM hrest) fun as => .pure (a :: as)).mpr ⟨as, ih hrest, rfl⟩

/-- **The clauses** that the children of a scope with some path are compiled to. -/
def Clauses (env : Environment) (fuel : Nat) (p : Progress) (n : Nat) (path : Option String)
    (clauses : List Fragment) : Prop :=
  List.Forall₂ (fun c clause => (exec (nodeWithin env fuel c) (entering p path)).1 = .ok clause)
    (p.draft.arena.children n) clauses

/-- **Whatever an outermost scope with a path is compiled to**: its clauses under this path, with nothing
nested inside of them. It fails harmlessly. -/
theorem outermost_spec (fuel : Nat) (hp : Sound env p) (hmapped : p.metadata.Mapped env.resolver)
    (houter : p.scopeDepth = 0) (hkind : (p.draft.arena.label n).kind = .scope)
    (hbare : p.draft.arena.Bare n) {path : Option String}
    (hshared : (exec (sharedPath env n) p).1 = .ok path)
    (hpath : ∀ x, path = some x ↔ x ∈ scopePaths env p n) :
    (∀ error, (exec (nodeWithin env (fuel + 1) n) p).1 = .error error → Harmless env error) ∧
      (∀ F, (exec (nodeWithin env (fuel + 1) n) p).1 = .ok F ↔
        ∃ clauses, Clauses env fuel p n path clauses ∧ F = underPath path clauses) ∧
      ∀ clauses, Clauses env fuel p n path clauses → ∀ clause ∈ clauses, clause.nestedPaths = [] := by
  have hinside : Inside env (entering p path) :=
    ⟨⟨hp.ascending, hp.faithful⟩, hmapped, Nat.succ_ne_zero _⟩
  have hcomplies := Complies.mapM
    (fun c hc => nodeWithin_complies fuel hinside (suited_child hbare hpath hc)) _ (.refl _)
  have hclauses : ∀ clauses, Clauses env fuel p n path clauses ↔ _ := fun clauses =>
    (Timeless.mapM_ok_iff (children_timeless fuel hp hbare path)).symm
  rw [exec_outermost fuel hp houter hkind hbare, hshared]
  simp only [Except.bind, hclauses]
  rcases hall : exec ((p.draft.arena.children n).mapM (nodeWithin env fuel)) (entering p path)
    with ⟨error | clauses, u⟩
  · refine ⟨fun error' herror => ?_, fun F => ?_, nofun⟩
    · rw [← Except.error.inj herror]
      exact (wp_of_error hall).mp hcomplies
    · simp [Except.map]
  · refine ⟨nofun, fun F => ?_, fun clauses' hsame => ?_⟩
    · simp [Except.map, eq_comm]
    · rw [← Except.ok.inj hsame]
      exact ((wp_of_ok hall).mp hcomplies).1

end Compile

/-- Only a custom analyzer fails. -/
theorem Setup.Started.exists_analyzer {setup : Setup} {compiler : Compiler}
    (h : setup.Started compiler) {field : String} {type : Option Schema.FieldType} {text : String}
    {error : Error} (hfails : compiler.environment.analyzer field type text = .error error) :
    ∃ analyzer, setup.analyzer = some analyzer ∧ analyzer field type text = .error error := by
  rw [h.analyzer_eq] at hfails
  cases hcustom : setup.analyzer with
  | none =>
    rw [hcustom] at hfails
    exact absurd hfails (by simp [TokenizerSettings.analyzer])
  | some analyzer =>
    rw [hcustom] at hfails
    exact ⟨analyzer, rfl, hfails⟩

namespace Compiler

open Compile

variable {setup : Setup} {compiler : Compiler}

/-- **A scope is about one nested object.** A scope without expansions, compiled outside of all other
scopes in any state of a compiler, fails with a conflict if the leaves below it have different nested
paths. Otherwise it fails with no such conflict, unless a custom analyzer answers with one. It is compiled
exactly if each of its children is, one scope deeper, and then to the condition that all of their fragments
hold, under the nested path if there is one. There is no nested fragment inside of these. -/
theorem scope_shared (hstart : setup.start = .ok compiler) {p : Progress}
    (hp : Sound compiler.environment p)
    (hgrows : compiler.progress.metadata.Grows compiler.environment.resolver p.metadata)
    (houter : p.scopeDepth = 0) {n : Nat} (hkind : (p.draft.arena.label n).kind = .scope)
    (hbare : p.draft.arena.Bare n) (fuel : Nat) :
    ((scopePaths compiler.environment p n).Nontrivial →
      ∃ path ∈ scopePaths compiler.environment p n, ∃ active ∈ scopePaths compiler.environment p n,
        path ≠ active ∧ (exec (nodeWithin compiler.environment (fuel + 1) n) p).1 =
          .error (.nestedPathConflict path active)) ∧
    ((scopePaths compiler.environment p n).Subsingleton →
      (∀ path active, (exec (nodeWithin compiler.environment (fuel + 1) n) p).1 =
          .error (.nestedPathConflict path active) →
        ∃ analyzer field type text, setup.analyzer = some analyzer ∧
          analyzer field type text = .error (.nestedPathConflict path active)) ∧
      ∃ path : Option String, (∀ x, path = some x ↔ x ∈ scopePaths compiler.environment p n) ∧
        (∀ F, (exec (nodeWithin compiler.environment (fuel + 1) n) p).1 = .ok F ↔
          ∃ clauses, Clauses compiler.environment fuel p n path clauses ∧
            F = match path with
              | some path => .nested path (.all clauses) none
              | none => .all clauses) ∧
        ∀ clauses, Clauses compiler.environment fuel p n path clauses →
          ∀ clause ∈ clauses, clause.nestedPaths = []) := by
  have hstarted := Setup.started_of_ok hstart
  have hmapped := hstarted.mapped.grow hgrows
  rcases hshared : exec (sharedPath compiler.environment n) p with ⟨error | path, q⟩
  · -- the leaves have different paths
    obtain ⟨path, active, rfl, hne, hpath, hactive⟩ :=
      (wp_of_error hshared).mp (sharedPath_spec hp hmapped n)
    refine ⟨fun _ => ⟨path, hpath, active, hactive, hne, ?_⟩,
      fun hsingle => absurd (hsingle hpath hactive) hne⟩
    rw [exec_outermost fuel hp houter hkind hbare, hshared]
    rfl
  · have hpath := (wp_of_ok hshared).mp (sharedPath_spec hp hmapped n)
    obtain ⟨hfails, hcompiled, hnone⟩ :=
      outermost_spec fuel hp hmapped houter hkind hbare (congrArg Prod.fst hshared) hpath
    refine ⟨fun ⟨x, hx, y, hy, hne⟩ => ?_,
      fun _ => ⟨fun own active hconflict => ?_, path, hpath, hcompiled, hnone⟩⟩
    · exact absurd (Option.some.inj (((hpath x).mpr hx).symm.trans ((hpath y).mpr hy))) hne
    · obtain ⟨field, type, text, hanswer⟩ := hfails _ hconflict own active rfl
      obtain ⟨analyzer, hcustom, hanswer⟩ := hstarted.exists_analyzer hanswer
      exact ⟨analyzer, field, type, text, hcustom, hanswer⟩

/-- **A request for a scope**: the scope is compiled outside of all other ones. -/
theorem outermost_of_started (h : setup.Started compiler) {children : List Tree}
    (hquery : setup.request.query = some (.scope children)) (hbare : (Tree.scope children).IsBare) :
    ∃ fuel, compiler.query.1 =
        (exec (nodeWithin compiler.environment (fuel + 1) 0) compiler.progress).1 ∧
      (compiler.progress.draft.arena.label 0).kind = .scope ∧ compiler.progress.scopeDepth = 0 ∧
      compiler.progress.draft.arena.Bare 0 := by
  obtain ⟨root, hroot, hheld, -⟩ := holds_of_started h hquery
  obtain rfl := h.root_eq_zero hroot
  obtain ⟨md, hprogress⟩ := h.progress_eq
  obtain ⟨fuel, hfuel⟩ : ∃ fuel, depthBound compiler.progress.draft.arena.size = fuel + 1 :=
    Nat.exists_eq_succ_of_ne_zero (Nat.ne_of_gt (Nat.mul_pos (Nat.succ_pos _) (Nat.succ_pos _)))
  refine ⟨fuel, ?_, ?_, by rw [hprogress], (h.sound.ascending.bare_iff hheld).mpr hbare⟩
  · rw [← hfuel]
    exact congrArg Prod.fst (exec_rootQuery hroot)
  · rw [(Arena.holds_node.mp hheld).1]

/-- Items with the tag `x` but not `y`, in a scope inside of a scope, next to a word on the title. -/
def nestedScopes : Tree :=
  .scope [.word "tag" (.str "x"), .conjunction [.word "title" (.str "t"),
    .scope [.negation (.word "tag" (.str "y"))]]]

/-- A scope with a tag of the items, and inside of a scope a tag that is said to be one of parts. -/
def mixedScopes : Tree :=
  .scope [.word "tag" (.str "x"), .scope [(Tree.word "tag" (.str "y")).withNestedPath "parts"]]

/-- Items are under their path once, and items and parts are a conflict. -/
theorem scope_shared_nestedScopes :
    (∃ compiler clauses, (itemSearch nestedScopes).start = .ok compiler ∧
      compiler.query.1 = .ok (.nested "items" (.all clauses) none) ∧ clauses.length = 2 ∧
      ∀ clause ∈ clauses, clause.nestedPaths = []) ∧
    ∃ compiler path active, (itemSearch mixedScopes).start = .ok compiler ∧
      compiler.query.1 = .error (.nestedPathConflict path active) := by
  have hbare : nestedScopes.IsBare ∧ mixedScopes.IsBare := by
    unfold Tree.IsBare
    decide
  constructor
  · have hrun : ((itemSearch nestedScopes).start.toOption.any fun compiler =>
        compiler.query.1.toOption.isSome && decide ((compiler.progress.draft.arena.children 0).length = 2) &&
          (leafLabels compiler.progress 0).any (compiler.hasPath (some "items")) &&
          (leafLabels compiler.progress 0).all fun label =>
            compiler.hasPath (some "items") label || compiler.hasPath none label) = true := by
      decide +kernel
    simp only [Option.any_eq_true, toOption_eq_some, Bool.and_eq_true, List.any_eq_true,
      List.all_eq_true, Bool.or_eq_true, decide_eq_true_eq, Option.isSome_iff_exists, hasPath_iff] at hrun
    obtain ⟨compiler, hstart, ⟨⟨⟨F, hF⟩, hchildren⟩, hitems⟩, hall⟩ := hrun
    have hstarted := Setup.started_of_ok hstart
    have hasc := hstarted.sound.ascending
    have hmem := (mem_scopePaths hasc).mpr hitems
    have honly : ∀ x ∈ scopePaths compiler.environment compiler.progress 0, x = "items" := by
      intro x hx
      obtain ⟨label, hlabel, hpath⟩ := (mem_scopePaths hasc).mp hx
      rcases hall label hlabel with hsame | hnone
      · simpa using hpath.symm.trans hsame
      · simpa using hpath.symm.trans hnone
    obtain ⟨fuel, hquery, hkind, houter, hbare⟩ := outermost_of_started hstarted rfl hbare.1
    obtain ⟨-, hshared⟩ := scope_shared hstart hstarted.sound (.refl _) houter hkind hbare fuel
    obtain ⟨-, path, hpath, hcompiled, hnone⟩ :=
      hshared fun x hx y hy => (honly x hx).trans (honly y hy).symm
    obtain rfl := (hpath "items").mpr hmem
    obtain ⟨clauses, hclauses, rfl⟩ := (hcompiled F).mp (hquery.symm.trans hF)
    exact ⟨compiler, clauses, hstart, hF, hclauses.length_eq.symm.trans hchildren, hnone clauses hclauses⟩
  · have hrun : ((itemSearch mixedScopes).start.toOption.any fun compiler =>
        (leafLabels compiler.progress 0).any (compiler.hasPath (some "items")) &&
          (leafLabels compiler.progress 0).any (compiler.hasPath (some "parts"))) = true := by
      decide +kernel
    simp only [Option.any_eq_true, toOption_eq_some, Bool.and_eq_true, List.any_eq_true,
      hasPath_iff] at hrun
    obtain ⟨compiler, hstart, hitems, hparts⟩ := hrun
    have hstarted := Setup.started_of_ok hstart
    have hasc := hstarted.sound.ascending
    obtain ⟨fuel, hquery, hkind, houter, hbare⟩ := outermost_of_started hstarted rfl hbare.2
    obtain ⟨hmixed, -⟩ := scope_shared hstart hstarted.sound (.refl _) houter hkind hbare fuel
    obtain ⟨path, -, active, -, -, hconflict⟩ := hmixed ⟨"items", (mem_scopePaths hasc).mpr hitems,
      "parts", (mem_scopePaths hasc).mpr hparts, by decide⟩
    exact ⟨compiler, path, active, hstart, hquery.trans hconflict⟩

end Compiler

end LinkedSearch
