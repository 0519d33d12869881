import LinkedSearch.Proofs.Standalone
import LinkedSearch.Proofs.Wrapping

/-! # Compiling inside of a scope

A scope puts whatever stands in it into one nested object. So nothing inside of a scope, however deep,
may be put into a nested object of its own, and a leaf only contradicts the scope if its nested path is
another one than that of the scope:

* `Fragment.nestedPaths`: the paths of all nested fragments inside of a fragment.
* `Inside`, `Suits`: states inside of a scope, and leaves that do not contradict it.
* `Complies`: computations that are in keeping with the scope around them.
* `nodeWithin_complies`: compilations of nodes of which all leaves suit the scope. -/

namespace LinkedSearch

open Query (Arena Kind Label NodeId)

/-! ## Nested fragments -/

mutual

/-- **Nested paths**: the paths of all nested fragments at or inside of a fragment. -/
def Fragment.nestedPaths : Fragment → List String
  | .bool must should mustNot _ _ =>
    Fragment.nestedPathsOf must ++ Fragment.nestedPathsOf should ++ Fragment.nestedPathsOf mustNot
  | .nested path query _ => path :: query.nestedPaths
  | .hasChild _ query _ => query.nestedPaths
  | .hasParent _ query _ => query.nestedPaths
  | .constantScore filter _ => filter.nestedPaths
  | .span condition => condition.nestedPaths
  | _ => []

/-- The nested paths of some fragments. -/
def Fragment.nestedPathsOf : List Fragment → List String
  | [] => []
  | fragment :: rest => fragment.nestedPaths ++ Fragment.nestedPathsOf rest

/-- The nested paths inside of a condition on word positions. -/
def Span.nestedPaths : Span → List String
  | .term .. => []
  | .multiTerm query => query.nestedPaths
  | .near clauses _ _ _ => Span.nestedPathsOf clauses

/-- The nested paths of some conditions on word positions. -/
def Span.nestedPathsOf : List Span → List String
  | [] => []
  | clause :: rest => clause.nestedPaths ++ Span.nestedPathsOf rest

end

namespace Span

theorem nestedPathsOf_eq_nil {clauses : List Span} :
    nestedPathsOf clauses = [] ↔ ∀ clause ∈ clauses, clause.nestedPaths = [] := by
  induction clauses with
  | nil => simp [nestedPathsOf]
  | cons clause rest ih => simp [nestedPathsOf, ih]

@[simp] theorem nestedPaths_boosted (factor : Number.Binary) (condition : Span) :
    (condition.boosted factor).nestedPaths = condition.nestedPaths := by
  cases condition <;> simp [boosted, nestedPaths]

end Span

namespace Fragment

theorem nestedPathsOf_eq_nil {fragments : List Fragment} :
    nestedPathsOf fragments = [] ↔ ∀ fragment ∈ fragments, fragment.nestedPaths = [] := by
  induction fragments with
  | nil => simp [nestedPathsOf]
  | cons fragment rest ih => simp [nestedPathsOf, ih]

@[simp] theorem nestedPaths_weighted (boost : Boost) (fragment : Fragment) :
    (fragment.weighted boost).nestedPaths = fragment.nestedPaths := by
  cases boost with
  | none => rfl
  | some factor => cases fragment <;> simp [weighted, boosted, nestedPaths]

/-- A connective has no nested fragment inside if its clauses have none. -/
theorem nestedPaths_connective (kind : Kind) {wrap : List Fragment → Fragment}
    (hwrap : kind.connective? = some wrap) {clauses : List Fragment}
    (h : ∀ clause ∈ clauses, clause.nestedPaths = []) : (wrap clauses).nestedPaths = [] := by
  have hnone := nestedPathsOf_eq_nil.mpr h
  cases kind with
  | conjunction | disjunction | negation =>
    obtain rfl := Option.some.inj hwrap
    simp [all, any, nestedPaths, nestedPathsOf, hnone]
  | _ => exact absurd hwrap (by simp [Kind.connective?])

/-- A join has the nested fragments of what is joined. -/
theorem nestedPaths_join (kind : Kind) {join : Fragment → Fragment} (hjoin : kind.join? = some join)
    (inner : Fragment) : (join inner).nestedPaths = inner.nestedPaths := by
  cases kind with
  | child typeName | parent typeName =>
    obtain rfl := Option.some.inj hjoin
    rw [nestedPaths]
  | _ => exact absurd hjoin (by simp [Kind.join?])

end Fragment

/-! ## Mapped metadata -/

namespace Metadata

variable {resolver : Resolver} {md md' : Metadata}

/-- What can be looked up can be looked up later. -/
theorem Mapped.grow (h : md.Mapped resolver) (hgrows : md.Grows resolver md') :
    md'.Mapped resolver := by
  unfold Mapped
  rw [hgrows.primary_eq, hgrows.origin_eq, hgrows.links_eq]
  exact h

/-- The mapping of the owner of a field. -/
theorem Mapped.exists_ownerMapping (h : md.Mapped resolver) (field : String) :
    ∃ mapping, md.ownerMapping resolver field = .ok mapping := by
  obtain ⟨link, hlink⟩ := h.exists_owner field
  unfold ownerMapping
  rw [hlink]
  exact h link (mem_of_owner hlink)

/-- Every predicate is known to have a nested path, or none. -/
theorem Mapped.exists_pathOf (h : md.Mapped resolver) (label : Label) :
    ∃ path, md.pathOf resolver label = .ok path := by
  unfold pathOf
  split
  · exact ⟨_, rfl⟩
  · exact ⟨_, rfl⟩
  · next field _ _ =>
    obtain ⟨mapping, hmapping⟩ := h.exists_ownerMapping field
    exact ⟨_, by rw [hmapping]; rfl⟩

end Metadata

namespace Compile

variable {α β : Type} {env : Environment} {p q s : Progress} {n : Nat} {label : Label}

/-! ## States inside of a scope -/

/-- **Inside** of a scope, at any depth, with everything there that lookups ask for. -/
structure Inside (env : Environment) (p : Progress) : Prop where
  sound : Sound env p
  mapped : p.metadata.Mapped env.resolver
  depth : p.scopeDepth ≠ 0

namespace Inside

theorem drift (h : Inside env p) (hs : Drifted env p s) : Inside env s :=
  ⟨hs.sound h.sound, h.mapped.grow hs.grows, hs.scopeDepth_eq ▸ h.depth⟩

/-- One scope deeper is inside as well. -/
theorem deeper (h : Inside env p) : Inside env { p with scopeDepth := p.scopeDepth + 1 } :=
  ⟨⟨h.sound.ascending, h.sound.faithful⟩, h.mapped, Nat.succ_ne_zero _⟩

theorem scopePath_eq (h : Inside env p) (hs : Drifted env p s) : s.scopePath = p.scopePath :=
  hs.scopePath_eq.resolve_left h.depth

end Inside

/-- **Suiting**: a predicate has no nested path, or the one of the scope around. -/
def Suits (env : Environment) (p : Progress) (label : Label) : Prop :=
  ∀ path active, p.metadata.pathOf env.resolver label = .ok (some path) →
    p.scopePath = some active → active = path

/-- **A bare node that suits the scope around**: no expansions, and no contradictory leaves. -/
structure Suited (env : Environment) (p : Progress) (n : Nat) : Prop where
  bare : p.draft.arena.Bare n
  suits : ∀ x, p.draft.arena.Below n x → (p.draft.arena.label x).kind.isLeaf = true →
    Suits env p (p.draft.arena.label x)

namespace Suited

theorem child (h : Suited env p n) {c : Nat} (hc : c ∈ p.draft.arena.children n) :
    Suited env p c :=
  ⟨h.bare.child hc, fun x hx => h.suits x (.of_child hc hx)⟩

/-- A scope inside of the scope has the same path. -/
theorem deeper (h : Suited env p n) : Suited env { p with scopeDepth := p.scopeDepth + 1 } n :=
  ⟨h.bare, h.suits⟩

end Suited

/-! ## Compliance -/

/-- **Harmless errors** are no conflicts between nested paths, but for those that the analyzer answers
with. -/
def Harmless (env : Environment) (error : Error) : Prop :=
  ∀ path active, error = .nestedPathConflict path active →
    ∃ field type text, env.analyzer field type text = .error error

/-- Errors about anything else are harmless. -/
theorem Harmless.of_category {error : Error} (h : decide (error.category = .nesting) = false) :
    Harmless env error := by
  rintro path active rfl
  exact absurd rfl (of_decide_eq_false h)

/-- **Compliance** with a scope: in every state that has drifted from a given one, a computation gives
a result with some property, in a state that has drifted as well, or it fails with a harmless error. -/
def Complies (env : Environment) (Q : α → Prop) (x : Compile α) (p : Progress) : Prop :=
  ∀ s, Drifted env p s → wp x (fun a q => Q a ∧ Drifted env p q) (fun error _ => Harmless env error) s

/-- Compliance of a compilation: no nested fragments. -/
abbrev Flattens (env : Environment) (x : Compile Fragment) (p : Progress) : Prop :=
  Complies env (fun F => F.nestedPaths = []) x p

namespace Complies

variable {Q : α → Prop} {R : β → Prop}

theorem pure {a : α} (h : Q a) : Complies env Q (pure a) p := fun _ hs => ⟨h, hs⟩

theorem throw {error : Error} (h : Harmless env error) :
    Complies env Q (throw error : Compile α) p := fun _ _ => h

theorem bind {x : Compile β} {f : β → Compile α} (hx : Complies env R x p)
    (hf : ∀ b, R b → Complies env Q (f b) p) : Complies env Q (x >>= f) p := by
  intro s hs
  rw [wp_bind]
  exact wp_mono (hx s hs) (fun b q hq => hf b hq.1 q hq.2) fun _ _ h => h

/-- Computations that start with a look at the state. -/
theorem get {f : Progress → Compile α} (h : ∀ s, Drifted env p s → Complies env Q (f s) p) :
    Complies env Q (MonadState.get >>= f) p := fun s hs => h s hs s hs

theorem ofExcept {outcome : Except Error α} (hok : ∀ a, outcome = .ok a → Q a)
    (herror : ∀ error, outcome = .error error → Harmless env error) :
    Complies env Q (ofExcept outcome) p := by
  cases outcome with
  | ok a => exact pure (hok a rfl)
  | error error => exact throw (herror error rfl)

/-- A lookup that has the same answer in all states. -/
theorem answer {x : Compile α} {a : α} (hQ : Q a)
    (h : ∀ s, Drifted env p s → ∃ q, exec x s = (.ok a, q) ∧ Looked env s q) :
    Complies env Q x p := by
  intro s hs
  obtain ⟨q, hexec, hlooked⟩ := h s hs
  exact (wp_of_ok hexec).mpr ⟨hQ, hs.trans (.looked hlooked)⟩

/-- Computations that start with the label of a node. -/
theorem labelOf {f : Label → Compile α} (hf : Complies env Q (f (p.draft.arena.label n)) p) :
    Complies env Q (labelOf n >>= f) p := by
  intro s hs
  rw [wp_bind, wp_labelOf, hs.draft_eq]
  exact hf s hs

/-- Computations that start with the children of a node. -/
theorem childrenOf {f : List NodeId → Compile α}
    (hf : Complies env Q (f (p.draft.arena.children n)) p) :
    Complies env Q (childrenOf n >>= f) p := by
  intro s hs
  rw [wp_bind, wp_childrenOf, hs.draft_eq]
  exact hf s hs

theorem mapM {γ : Type} {f : γ → Compile α} {l : List γ} (h : ∀ c ∈ l, Complies env Q (f c) p) :
    Complies env (fun as => ∀ a ∈ as, Q a) (l.mapM f) p := by
  induction l with
  | nil => exact pure (List.forall_mem_nil _)
  | cons c l ih =>
    rw [List.mapM_cons]
    refine (h c List.mem_cons_self).bind fun a ha => ?_
    refine (ih fun d hd => h d (List.mem_cons_of_mem c hd)).bind fun as has => ?_
    exact pure (List.forall_mem_cons.mpr ⟨ha, has⟩)

end Complies

/-! ## Predicates -/

section Inside

variable (hp : Inside env p)

include hp

theorem mappingOf_complies (field : String) :
    Complies env (fun _ => True) (mappingOf env field) p := by
  obtain ⟨mapping, hmapping⟩ := hp.mapped.exists_ownerMapping field
  refine .answer (a := mapping) trivial fun s hs => ?_
  rw [← hmapping, ← hs.grows.ownerMapping_eq]
  exact exec_mappingOf (hs.sound hp.sound) field

theorem nestedPathOf_complies (label : Label) :
    Complies env (fun path => p.metadata.pathOf env.resolver label = .ok path)
      (nestedPathOf env label) p := by
  obtain ⟨path, hpath⟩ := hp.mapped.exists_pathOf label
  refine .answer (a := path) hpath fun s hs => ?_
  rw [← hpath, ← hs.grows.pathOf_eq]
  exact exec_nestedPathOf (hs.sound hp.sound) label

/-- **A condition of a leaf that suits the scope** is left as it is, or admits everything. -/
theorem nest_complies (hlabel : Suits env p label) {G : Fragment} (hG : G.nestedPaths = []) :
    Flattens env (nest env label G) p := by
  refine (nestedPathOf_complies hp label).bind fun path hpath => ?_
  cases path with
  | none =>
    refine .get fun s _ => .pure ?_
    split
    · rfl
    · exact hG
  | some path =>
    -- inside of a scope, so that it is not nested; the scope may only have no path, or the same one
    refine .get fun s hs => ?_
    rw [if_neg (hp.drift hs).depth]
    split
    · next active hactive =>
      rw [if_pos (hlabel path active hpath ((hp.scopePath_eq hs).symm.trans hactive))]
      exact .pure hG
    · exact .pure hG

theorem standard_complies (hlabel : Suits env p label) {G : Fragment} (hG : G.nestedPaths = []) :
    Flattens env (standard env label G) p := by
  have hnest : ∀ {G : Fragment}, G.nestedPaths = [] → Flattens env (nest env label G) p :=
    nest_complies hp hlabel
  unfold standard
  simp only
  split
  case h_3 => exact hnest (by simp [Fragment.not, Fragment.nestedPaths, Fragment.nestedPathsOf, hG])
  case h_9 =>
    refine Complies.bind (R := fun F => F.nestedPaths = []) ?_ fun _ => hnest
    exact (mappingOf_complies hp _).bind fun _ _ => .pure rfl
  case h_10 => exact Complies.bind (R := fun _ => False) (.throw (.of_category rfl)) fun _ h => h.elim
  case h_1 | h_2 => exact hnest hG
  all_goals exact hnest rfl

omit hp in
theorem validateOperator_complies (label : Label) :
    Complies env (fun _ => True) (validateOperator label) p := by
  unfold validateOperator
  split
  case h_4 => exact .throw (.of_category rfl)
  all_goals exact .pure trivial

omit hp in
theorem arrayData_complies (key : String) : Complies env (fun _ => True) (arrayData key) p := by
  refine .get fun s _ => ?_
  split
  · exact .pure trivial
  · exact .throw (.of_category rfl)

theorem plainLeaf_complies (hlabel : Suits env p label) : Flattens env (plainLeaf env label) p := by
  have hvalidated : ∀ {G : Fragment}, G.nestedPaths = [] →
      Flattens env (do validateOperator label; standard env label G) p := fun hG =>
    (validateOperator_complies label).bind fun _ _ => standard_complies hp hlabel hG
  unfold plainLeaf
  simp only
  split
  case h_1 => exact standard_complies hp hlabel rfl
  case h_2 => exact standard_complies hp hlabel rfl
  case h_9 =>
    refine (mappingOf_complies hp _).bind fun mapping _ => ?_
    split
    · exact .pure rfl
    · exact hvalidated rfl
  case h_11 =>
    refine (validateOperator_complies label).bind fun _ _ => ?_
    exact (arrayData_complies _).bind fun _ _ => standard_complies hp hlabel rfl
  case h_12 => exact .pure rfl
  case h_13 => exact .throw (.of_category rfl)
  all_goals exact hvalidated rfl

/-! ## Phrases and proximities -/

omit hp in
theorem spanOfLeaf_complies (outer : Query.Operator) (field : String) (label : Label) :
    Complies env (fun S => S.nestedPaths = []) (spanOfLeaf outer field label) p := by
  unfold spanOfLeaf
  split
  · next S hS =>
    refine .pure ?_
    unfold spanOfLeaf? at hS
    split at hS
    case h_1 =>
      split at hS <;>
      · obtain rfl := Option.some.inj hS
        rfl
    case h_9 => exact absurd hS (by simp)
    all_goals
      obtain rfl := Option.some.inj hS
      rfl
  · exact .throw (.of_category rfl)

/-- The analyzer may fail with whatever it likes. -/
theorem phraseTokens_complies (label : Label) :
    Complies env (fun _ => True) (phraseTokens env label) p := by
  refine (mappingOf_complies hp _).bind fun mapping _ => ?_
  refine Complies.bind (R := fun _ => True) ?_ fun _ _ => .pure trivial
  exact .ofExcept (fun _ _ => trivial) fun error herror _ _ _ => ⟨_, _, _, herror⟩

theorem phrase_complies (hlabel : Suits env p label) : Flattens env (phrase env label) p := by
  have hstandard : ∀ {G : Fragment}, G.nestedPaths = [] → Flattens env (standard env label G) p :=
    standard_complies hp hlabel
  unfold phrase
  simp only
  split
  · exact hstandard rfl
  · refine (phraseTokens_complies hp label).bind fun tokens _ => ?_
    split
    · exact hstandard rfl
    · next token =>
      split
      · -- the only token has the field and the path of the phrase
        have htoken : Suits env p (Query.Phrase.tokenLabel label token) := hlabel
        exact plainLeaf_complies hp htoken
      · exact hstandard rfl
    · split
      · refine (Complies.mapM fun token _ => spanOfLeaf_complies _ _ _).bind fun clauses h => .pure ?_
        rw [Fragment.nestedPaths, Span.nestedPaths, Span.nestedPathsOf_eq_nil]
        exact h
      · exact hstandard rfl

/-- A predicate that suits the scope. -/
theorem leaf_complies (hlabel : Suits env p label) : Flattens env (leaf env label) p := by
  unfold leaf
  split
  · exact phrase_complies hp hlabel
  · exact plainLeaf_complies hp hlabel

theorem spanOfPhrase_complies (outer label : Label) :
    Complies env (fun S => S.nestedPaths = []) (spanOfPhrase env outer label) p := by
  unfold spanOfPhrase
  split
  · exact .pure rfl
  · refine (phraseTokens_complies hp label).bind fun tokens _ => ?_
    refine (Complies.mapM fun token _ => spanOfLeaf_complies _ _ _).bind fun clauses h => ?_
    split
    · exact .pure (h _ List.mem_cons_self)
    · refine .pure ?_
      rw [Span.nestedPaths, Span.nestedPathsOf_eq_nil]
      exact h

theorem nearWithin_complies (fuel : Nat) (label : Label) (n : Nat) :
    Complies env (fun S => S.nestedPaths = []) (nearWithin env fuel label n) p := by
  induction fuel generalizing label n with
  | zero => exact .throw (.of_category rfl)
  | succ fuel ih =>
    refine .childrenOf ?_
    refine (Complies.mapM (Q := fun S => S.nestedPaths = []) fun c _ => ?_).bind
      fun clauses h => .pure (Span.nestedPathsOf_eq_nil.mpr h)
    refine .labelOf ?_
    have hboosted : ∀ S : Span, S.nestedPaths = [] → Complies env (fun S => S.nestedPaths = [])
        (pure ((p.draft.arena.label c).boost.elim S S.boosted)) p := by
      intro S hS
      refine .pure ?_
      cases (p.draft.arena.label c).boost with
      | none => exact hS
      | some factor => exact (S.nestedPaths_boosted factor).trans hS
    simp only
    split
    · exact (spanOfPhrase_complies hp label _).bind hboosted
    · exact (ih _ _).bind hboosted
    · exact (spanOfLeaf_complies _ _ _).bind hboosted

/-- A proximity, whatever its leaves. -/
theorem proximity_complies (label : Label) (n : Nat) :
    Flattens env (weightedProximity env label n) p := by
  refine Complies.bind (R := fun F => F.nestedPaths = []) ?_ fun F hF =>
    .pure ((F.nestedPaths_weighted _).trans hF)
  refine .get fun s _ => ?_
  refine (nearWithin_complies hp _ label n).bind fun S hS => .pure ?_
  rw [Fragment.nestedPaths]
  exact hS

end Inside

/-! ## Nodes -/

section Node

variable {recur : NodeId → Compile Fragment}

/-- **A scope inside of a scope** is no nested fragment of its own. -/
theorem scope_complies (hp : Inside env p)
    (h : ∀ c ∈ p.draft.arena.children n,
      Flattens env (recur c) { p with scopeDepth := p.scopeDepth + 1 }) :
    Flattens env (scope env recur n) p := by
  intro s hs
  have hpath := hp.scopePath_eq hs
  have hentered : Drifted env { p with scopeDepth := p.scopeDepth + 1 }
      { s with scopeDepth := s.scopeDepth + 1 } :=
    ⟨hs.grows, hs.draft_eq, hs.aggregating_eq, congrArg (· + 1) hs.scopeDepth_eq, .inr hpath⟩
  have hall := Complies.mapM h _ hentered
  -- the path was found by the outermost scope, and is not looked for again
  have hchildren : s.draft.arena.children n = p.draft.arena.children n := by rw [hs.draft_eq]
  unfold wp
  rw [exec_scope, if_neg (hp.drift hs).depth, exec_scopeClauses, hchildren]
  rcases hexec : exec ((p.draft.arena.children n).mapM recur) { s with scopeDepth := s.scopeDepth + 1 }
    with ⟨error | clauses, u⟩
  · exact (wp_of_error hexec).mp hall
  · obtain ⟨hclauses, hdrift⟩ := (wp_of_ok hexec).mp hall
    have hleft : Drifted env p { u with scopeDepth := u.scopeDepth - 1 } := hdrift.leave
    refine ⟨?_, hleft.trans (closeScope_drifted ..)⟩
    have hdepth : 0 < ({ u with scopeDepth := u.scopeDepth - 1 } : Progress).scopeDepth :=
      Nat.pos_of_ne_zero (hp.drift hleft).depth
    simp only [closeScope, if_pos hdepth]
    exact Fragment.nestedPaths_connective .conjunction rfl hclauses

/-- **One level of a compilation** inside of a scope. -/
theorem node_complies (hp : Inside env p) (hn : Suited env p n)
    (h : ∀ c q, Inside env q → Suited env q c → Flattens env (recur c) q) :
    Flattens env (node env recur n) p := by
  have hhere : ∀ c ∈ p.draft.arena.children n, Flattens env (recur c) p := fun c hc =>
    h c p hp (hn.child hc)
  -- the three connectives differ in what they wrap their clauses with, and the two joins in what joins
  have hconnective : ∀ (kind : Kind) {wrap : List Fragment → Fragment},
      kind.connective? = some wrap →
      Flattens env (do return wrap (← (← childrenOf n).mapM recur)) p := fun kind _ hwrap =>
    .childrenOf ((Complies.mapM hhere).bind fun _ hclauses =>
      .pure (Fragment.nestedPaths_connective kind hwrap hclauses))
  have hjoined : ∀ (kind : Kind) {join : Fragment → Fragment}, kind.join? = some join →
      Flattens env (joined env recur join n) p := by
    intro kind join hjoin
    refine .childrenOf ?_
    split
    · exact .pure rfl
    · next child rest hchildren =>
      refine (hhere child (by simp [hchildren])).bind fun F hF => .pure ?_
      split
      · exact (Fragment.nestedPaths_join kind hjoin F).trans hF
      · exact hF
  unfold node
  refine .labelOf ?_
  split
  · exact hconnective .conjunction rfl
  · exact hconnective .disjunction rfl
  · refine .get fun s _ => ?_
    split
    · exact .pure rfl
    · exact hconnective .negation rfl
  · -- the children of an inner scope suit it as they suit the outermost one
    exact scope_complies hp fun c hc => h c _ hp.deeper (hn.child hc).deeper
  · next typeName _ => exact hjoined (.child typeName) rfl
  · next typeName _ =>
    refine .get fun s _ => ?_
    split
    · exact .pure rfl
    · exact hjoined (.parent typeName) rfl
  · next link generated hkind =>
    have hbare := hn.bare n (.refl n)
    rw [hkind] at hbare
    exact absurd hbare (by simp [Kind.isExpansion])
  · exact proximity_complies hp _ n
  · refine (leaf_complies hp (hn.suits n (.refl n) ?_)).bind fun F hF =>
      .pure ((F.nestedPaths_weighted _).trans hF)
    cases hkind : (p.draft.arena.label n).kind <;> simp_all [Kind.isLeaf]

end Node

/-- **Whatever suits a scope complies with it**, by induction on how deep a compilation may go. The depth of
scopes is any but zero, since it grows on the way to the scopes inside of the scope. -/
theorem nodeWithin_complies (fuel : Nat) (hp : Inside env p) (hn : Suited env p n) :
    Flattens env (nodeWithin env fuel n) p := by
  induction fuel generalizing n p with
  | zero => exact .throw (.of_category rfl)
  | succ fuel ih => exact node_complies hp hn fun _ _ hq hc => ih hq hc

end Compile

end LinkedSearch
