import LinkedSearch.Proofs.Accounting
import LinkedSearch.Proofs.Sheltering
import LinkedSearch.Proofs.Weighting

/-! # The clauses of a proximity

A proximity is compiled to a condition on word positions with one clause per child. What the clause of a
child is, and whether there is one, is a function of the tree below it and of the tokens of its phrases:

* `Kind.isPositional`: what may be met below a proximity.
* `Tree.clause?`, `Tree.clauses?`: the clauses.
* `Tree.met`: the nodes that are met, each with the proximity around it; `Tree.isSome_clauses?`: there are
  clauses if all of them are fine.
* `outcome?_spanOfChild`: these are the clauses that are compiled, by one recursion over the tree.
* `Compiler.proximity_clauses`: what any proximity is compiled to. -/

namespace LinkedSearch

open Query (Arena Kind Label NodeId Tree)

/-! ## What is met below a proximity -/

namespace Query

/-- **Positional** kinds: those that may stand below a proximity. -/
def Kind.isPositional : Kind → Bool
  | .word _ | .number _ | .boolean _ | .null | .notNull | .fuzzy .. | .leading _ | .wildcard _
  | .phrase .. | .proximity .. => true
  | _ => false

/-- The boost of a node as the boost of what had none: once, in single precision. -/
def Label.weight (label : Label) : Boost := label.boost.map (·.convert .single)

namespace Tree

mutual

/-- **Met nodes**: the labels of those below a proximity that no other kind of node lies above, each with
the label of the proximity around it. -/
def met : Tree → List (Label × Label)
  | node label children => metBelow label children

/-- The nodes met in some children of a proximity. -/
def metBelow (outer : Label) : List Tree → List (Label × Label)
  | [] => []
  | tree :: rest =>
    (outer, tree.label) :: ((if tree.label.kind.isProximity then tree.met else []) ++ metBelow outer rest)

end

@[simp] theorem met_node (label : Label) (children : List Tree) :
    (node label children).met = metBelow label children := by
  rw [met]

@[simp] theorem metBelow_nil (outer : Label) : metBelow outer [] = [] := by
  rw [metBelow]

@[simp] theorem metBelow_cons (outer : Label) (tree : Tree) (rest : List Tree) :
    metBelow outer (tree :: rest) =
      (outer, tree.label)
        :: ((if tree.label.kind.isProximity then tree.met else []) ++ metBelow outer rest) := by
  rw [metBelow]

end Tree

end Query

/-! ## Clauses -/

namespace Compile

/-- The words that match the text of a predicate as a pattern. -/
def patternClause (label : Label) : Span :=
  .multiTerm (.regexp label.fieldName label.sourceText none)

/-- The clause for a predicate that stands for single words. -/
def wordClause (field : String) (label : Label) (weight : Boost) : Span :=
  match label.kind with
  | .fuzzy text fuzziness => .multiTerm (.fuzzy field text (exactLength fuzziness) none)
  | .leading text => .multiTerm (.leading field text none)
  | .wildcard pattern => .multiTerm (.wildcard field pattern none)
  | .notNull => .multiTerm (.wildcard field "*" none)
  | _ => .term field label.text weight

/-- The clause for a phrase with some tokens: the only one of them, or all of them next to each other. -/
def phraseClause (field : String) (phrase : Label) (tokens : List (List Char)) : Span :=
  match tokens with
  | [token] => wordClause field (Query.Phrase.tokenLabel phrase token) phrase.weight
  | _ =>
    .near (tokens.map fun token => wordClause field (Query.Phrase.tokenLabel phrase token) none) 0 true
      phrase.weight

end Compile

namespace Query.Tree

open Compile

variable (tokens : Label → Option (List (List Char)))

mutual

/-- **Clause** of a tree below a proximity with some label, given the tokens of phrases. -/
def clause? (outer : Label) : Tree → Option Span
  | node label children =>
    match label.kind with
    | .proximity distance ordered =>
      (clauses? label children).map fun clauses => .near clauses distance ordered label.weight
    | .phrase .. =>
      if outer.operator = .regex then some (patternClause label)
      else (tokens label).map (phraseClause outer.fieldName label)
    | .word _ =>
      some (if outer.operator = .regex then patternClause label
        else wordClause outer.fieldName label label.weight)
    | .number _ | .boolean _ | .null | .notNull | .fuzzy .. | .leading _ | .wildcard _ =>
      some (wordClause outer.fieldName label label.weight)
    | _ => none

/-- The clauses of some children of a proximity. -/
def clauses? (outer : Label) : List Tree → Option (List Span)
  | [] => some []
  | tree :: rest =>
    (clause? outer tree).bind fun clause => (clauses? outer rest).map (clause :: ·)

end

variable {tokens}

theorem clause?_proximity {label : Label} {distance : Nat} {ordered : Bool}
    (hkind : label.kind = .proximity distance ordered) (outer : Label) (children : List Tree) :
    (node label children).clause? tokens outer =
      (clauses? tokens label children).map fun clauses => .near clauses distance ordered label.weight := by
  rw [clause?, hkind]

theorem clause?_phrase {label : Label} (hkind : label.kind.isPhrase = true) (outer : Label)
    (children : List Tree) : (node label children).clause? tokens outer =
      if outer.operator = .regex then some (patternClause label)
      else (tokens label).map (phraseClause outer.fieldName label) := by
  rw [clause?]
  cases hk : label.kind <;> simp_all [Kind.isPhrase]

@[simp] theorem clauses?_nil (outer : Label) : clauses? tokens outer [] = some [] := by
  rw [clauses?]

theorem clauses?_cons (outer : Label) (tree : Tree) (rest : List Tree) :
    clauses? tokens outer (tree :: rest) =
      (tree.clause? tokens outer).bind fun clause => (clauses? tokens outer rest).map (clause :: ·) := by
  rw [clauses?]

/-- **One clause per child**, in their order. -/
theorem forall₂_of_clauses? {outer : Label} {trees : List Tree} {clauses : List Span}
    (h : clauses? tokens outer trees = some clauses) :
    List.Forall₂ (fun tree clause => tree.clause? tokens outer = some clause) trees clauses := by
  induction trees generalizing clauses with
  | nil =>
    obtain rfl : [] = clauses := Option.some.inj ((clauses?_nil outer).symm.trans h)
    exact .nil
  | cons tree rest ih =>
    rw [clauses?_cons, Option.bind_eq_some_iff] at h
    obtain ⟨clause, hclause, h⟩ := h
    obtain ⟨later, hlater, rfl⟩ := Option.map_eq_some_iff.mp h
    exact .cons hclause (ih hlater)

/-- Whether a met node has a clause, as far as it is up to the node itself. -/
def Passes (tokens : Label → Option (List (List Char))) (pair : Label × Label) : Prop :=
  pair.2.kind.isPositional = true ∧
    (pair.2.kind.isPhrase = true → pair.1.operator ≠ .regex → (tokens pair.2).isSome = true)

mutual

/-- A child has a clause if it passes, and all nodes do that are met below it if it is a proximity. -/
theorem isSome_clause? (outer : Label) : ∀ tree : Tree, (tree.clause? tokens outer).isSome = true ↔
    Passes tokens (outer, tree.label) ∧
      ∀ pair ∈ (if tree.label.kind.isProximity then tree.met else []), Passes tokens pair
  | node label children => by
    have hinner := isSome_clauses? label children
    rw [clause?, label_node, met_node]
    unfold Passes
    cases hkind : label.kind with
    | proximity distance ordered =>
      simp [Kind.isPositional, Kind.isPhrase, Kind.isProximity, hinner]
      rfl
    | phrase text escaped distance ordered =>
      by_cases hregex : outer.operator = .regex
      all_goals simp [hregex, Kind.isPositional, Kind.isPhrase, Kind.isProximity]
    | _ => simp [Kind.isPositional, Kind.isPhrase, Kind.isProximity]

/-- **All children have clauses** if all nodes that are met pass. -/
theorem isSome_clauses? (outer : Label) : ∀ trees : List Tree, (clauses? tokens outer trees).isSome = true ↔
    ∀ pair ∈ metBelow outer trees, Passes tokens pair
  | [] => by simp
  | tree :: rest => by
    have hfirst := isSome_clause? outer tree
    have hlater := isSome_clauses? outer rest
    have hboth : (clauses? tokens outer (tree :: rest)).isSome = true ↔
        (tree.clause? tokens outer).isSome = true ∧ (clauses? tokens outer rest).isSome = true := by
      rw [clauses?_cons]
      cases tree.clause? tokens outer with
      | none => simp
      | some clause => simp
    rw [hboth, hfirst, hlater, metBelow_cons, List.forall_mem_cons, List.forall_mem_append, and_assoc]

end

end Query.Tree

namespace Compile

variable {α β : Type} {env : Environment} {p : Progress} {n : Nat} {label outer : Label}

/-! ## Boosts on clauses -/

/-- A clause with the boost of a node, if it carries one. -/
def weigh (label : Label) (clause : Span) : Span := label.boost.elim clause clause.boosted

/-- One times the boost of a node is its weight. -/
theorem times_none (label : Label) :
    label.boost.elim none (fun factor => Boost.times factor none) = label.weight := by
  unfold Label.weight
  cases label.boost with
  | none => rfl
  | some factor => exact congrArg some (Number.Binary.one_mul .single factor)

@[simp] theorem weigh_term (label : Label) (field text : String) :
    weigh label (.term field text none) = .term field text label.weight := by
  rw [← times_none, weigh]
  cases label.boost <;> rfl

@[simp] theorem weigh_near (label : Label) (clauses : List Span) (slop : Nat) (ordered : Bool) :
    weigh label (.near clauses slop ordered none) = .near clauses slop ordered label.weight := by
  rw [← times_none, weigh]
  cases label.boost <;> rfl

@[simp] theorem weigh_multiTerm (label : Label) (query : Fragment) :
    weigh label (.multiTerm query) = .multiTerm query := by
  rw [weigh]
  cases label.boost <;> rfl

theorem weigh_wordClause (label word : Label) (field : String) :
    weigh label (wordClause field word none) = wordClause field word label.weight := by
  unfold wordClause
  split <;> simp

/-- The clause of a predicate that is no phrase. -/
theorem clause?_plain {tokens : Label → Option (List (List Char))}
    (hphrase : ∀ text escaped distance ordered, label.kind ≠ .phrase text escaped distance ordered)
    (hproximity : ∀ distance ordered, label.kind ≠ .proximity distance ordered) (children : List Tree) :
    Query.Tree.clause? tokens outer (.node label children) =
      (spanOfLeaf? outer.operator outer.fieldName label).map (weigh label) := by
  rw [Query.Tree.clause?, spanOfLeaf?]
  cases hkind : label.kind with
  | word value =>
    by_cases hregex : outer.operator = .regex
    all_goals simp [hregex, wordClause, patternClause, hkind]
  | phrase text escaped distance ordered => exact absurd hkind (hphrase text escaped distance ordered)
  | proximity distance ordered => exact absurd hkind (hproximity distance ordered)
  | _ => simp [wordClause, hkind]

/-- The clause for a token of a phrase. -/
theorem spanOfLeaf?_token {operator : Query.Operator} (hregex : operator ≠ .regex) (field : String)
    (phrase : Label) (token : List Char) :
    spanOfLeaf? operator field (Query.Phrase.tokenLabel phrase token) =
      some (wordClause field (Query.Phrase.tokenLabel phrase token) none) := by
  have hlabel : (Query.Phrase.tokenLabel phrase token).kind = Query.Phrase.tokenKind token := rfl
  unfold spanOfLeaf? wordClause
  rw [hlabel]
  rcases tokenKind_sorts token with ⟨_, h⟩ | ⟨_, h⟩ | ⟨_, h⟩ | ⟨_, _, h⟩ <;> rw [h]
  exact if_neg hregex

/-- The clause for a predicate that stands for single words has no other boost than the given one. -/
theorem boost?_wordClause {field : String} {weight boost : Boost}
    (h : (wordClause field label weight).boost? = some boost) : boost = weight := by
  unfold wordClause at h
  split at h
  case h_5 => exact (Option.some.inj h).symm
  all_goals exact nomatch h

/-- **The boost of a clause** is the one of its tree. -/
theorem boost?_of_clause? {tokens : Label → Option (List (List Char))} {tree : Tree} {clause : Span}
    (h : tree.clause? tokens outer = some clause) {boost : Boost} (hboost : clause.boost? = some boost) :
    boost = tree.label.weight := by
  obtain ⟨label, children⟩ := tree
  rw [Query.Tree.clause?] at h
  rw [Query.Tree.label_node]
  split at h
  · obtain ⟨clauses, -, rfl⟩ := Option.map_eq_some_iff.mp h
    exact (Option.some.inj hboost).symm
  · split at h
    · obtain rfl := Option.some.inj h
      exact nomatch hboost
    · obtain ⟨words, -, rfl⟩ := Option.map_eq_some_iff.mp h
      unfold phraseClause at hboost
      split at hboost
      · exact boost?_wordClause hboost
      · exact (Option.some.inj hboost).symm
  · obtain rfl := Option.some.inj h
    split at hboost
    · exact nomatch hboost
    · exact boost?_wordClause hboost
  case h_11 => exact nomatch h
  all_goals
    obtain rfl := Option.some.inj h
    exact boost?_wordClause hboost

/-! ## Outcomes -/

/-- The value that a computation ends with, if it succeeds. -/
def outcome? (x : Compile α) (p : Progress) : Option α := (exec x p).1.toOption

theorem outcome?_eq_some {x : Compile α} {a : α} : outcome? x p = some a ↔ (exec x p).1 = .ok a :=
  toOption_eq_some

/-- What is made of a result. -/
theorem outcome?_map (x : Compile β) (f : β → α) :
    outcome? (do return f (← x)) p = (outcome? x p).map f := by
  unfold outcome?
  rw [exec_return]
  cases (exec x p).1 <;> rfl

/-- Timeless computations one after the other succeed if both do in the state before. -/
theorem Timeless.outcome?_bind {x : Compile β} {f : β → Compile α} (hx : Timeless env x p)
    (hf : ∀ b, Timeless env (f b) p) :
    outcome? (x >>= f) p = (outcome? x p).bind fun b => outcome? (f b) p := by
  refine Option.ext fun a => ?_
  simp only [outcome?_eq_some, Option.bind_eq_some_iff, hx.bind_ok hf]

/-- The tokens of a phrase, if its field can be looked up and it can be analyzed. -/
theorem outcome?_phraseTokens (hp : Sound env p) (label : Label) :
    outcome? (phraseTokens env label) p = tokens? env p.metadata label := by
  obtain ⟨q, hexec, -⟩ := exec_mappingOf hp label.fieldName
  unfold outcome? phraseTokens tokens?
  simp only
  rw [exec_bind, hexec]
  rcases p.metadata.ownerMapping env.resolver label.fieldName with error | mapping
  · rfl
  · simp only
    rw [exec_bind]
    rcases hanalyzed : env.analyzer label.fieldName (mapping.type? label.fieldName)
      (String.ofList (Query.Phrase.mark label.sourceText.toList)) with error | analyzed
    all_goals
      simp only [Except.toOption, Option.bind_eq_bind, Option.bind_some, hanalyzed]
      rfl

/-- A phrase has tokens if the analyzer answers for it, since every field can be looked up. -/
theorem isSome_tokens?_iff (hmapped : p.metadata.Mapped env.resolver) (label : Label) :
    (tokens? env p.metadata label).isSome = true ↔ ∀ mapping,
      p.metadata.ownerMapping env.resolver label.fieldName = .ok mapping →
        ∃ analyzed, env.analyzer label.fieldName (mapping.type? label.fieldName)
          (String.ofList (Query.Phrase.mark label.sourceText.toList)) = .ok analyzed := by
  obtain ⟨mapping, hmapping⟩ := hmapped.exists_ownerMapping label.fieldName
  unfold tokens?
  rw [hmapping]
  rcases hanalyzed : env.analyzer label.fieldName (mapping.type? label.fieldName)
    (String.ofList (Query.Phrase.mark label.sourceText.toList)) with error | analyzed
  all_goals simp [Except.toOption, hanalyzed]

/-- **The clause of a phrase** is the one of its tokens. -/
theorem outcome?_spanOfPhrase (hp : Sound env p) (outer label : Label) :
    (outcome? (spanOfPhrase env outer label) p).map (weigh label) =
      if outer.operator = .regex then some (patternClause label)
      else (tokens? env p.metadata label).map (phraseClause outer.fieldName label) := by
  unfold spanOfPhrase
  split
  · exact congrArg some (weigh_multiTerm label _)
  · next hregex =>
    have hword : ∀ token, spanOfLeaf outer.operator outer.fieldName (Query.Phrase.tokenLabel label token) =
        pure (wordClause outer.fieldName (Query.Phrase.tokenLabel label token) none) := by
      intro token
      rw [spanOfLeaf, spanOfLeaf?_token hregex]
    rw [← outcome?_phraseTokens hp, ← outcome?_map, ← outcome?_map]
    simp only [hword, List.mapM_pure, bind_assoc, pure_bind]
    refine congrArg (outcome? · p) (bind_congr fun tokens => ?_)
    match tokens with
    | [] => simp only [List.map_nil, pure_bind, phraseClause, weigh_near]
    | [token] =>
      simp only [List.map_cons, List.map_nil, pure_bind, phraseClause, weigh_wordClause]
    | first :: second :: rest => simp only [List.map_cons, pure_bind, phraseClause, weigh_near]

/-! ## Children -/

mutual

/-- **The clause of a child** is the one of the tree that stands there. -/
theorem outcome?_spanOfChild (hp : Sound env p) : ∀ (tree : Tree) (outer : Label) {n k : Nat},
    p.draft.arena.Holds n tree → Reaches p.draft.arena k n →
    outcome? (spanOfChild env (nearWithin env k) outer n) p =
      tree.clause? (tokens? env p.metadata) outer
  | .node label children, outer, n, k, hheld, hreach => by
    obtain ⟨hlabel, hchildren⟩ := Arena.holds_node.mp hheld
    have hread : exec (labelOf n) p = (.ok label, p) := by
      rw [← hlabel]
      rfl
    unfold outcome? spanOfChild
    rw [exec_bind, hread]
    simp only
    split
    · next hkind =>
      refine (outcome?_map (spanOfPhrase env outer label) (weigh label)).trans ?_
      rw [outcome?_spanOfPhrase hp, Query.Tree.clause?_phrase (by rw [hkind]; rfl)]
    · next distance ordered hkind =>
      -- the bound reaches the children, since they come later in the arena
      obtain ⟨k, rfl⟩ : ∃ j, k = j + 1 := ⟨k - 1, by have := hreach.1; have := hreach.2; omega⟩
      have hbelow : ∀ c ∈ p.draft.arena.children n, Reaches p.draft.arena k c := fun c hc =>
        hreach.child hp.ascending hc
      refine (outcome?_map (nearWithin env (k + 1) label n) (weigh label)).trans ?_
      rw [outcome?_nearWithin hp children label hchildren hbelow, Option.map_map,
        Query.Tree.clause?_proximity hkind, hkind]
      exact congrArg (Option.map · _) (funext fun clauses => weigh_near label clauses distance ordered)
    · next hphrase hproximity =>
      refine (outcome?_map (spanOfLeaf outer.operator outer.fieldName label) (weigh label)).trans ?_
      rw [clause?_plain hphrase hproximity, spanOfLeaf]
      cases spanOfLeaf? outer.operator outer.fieldName label <;> rfl

/-- **The condition for a proximity** has the clauses of its children. -/
theorem outcome?_nearWithin (hp : Sound env p) (children : List Tree) (label : Label) {n k : Nat}
    (hheld : p.draft.arena.HoldsAll (p.draft.arena.children n) children)
    (hreach : ∀ c ∈ p.draft.arena.children n, Reaches p.draft.arena k c) :
    outcome? (nearWithin env (k + 1) label n) p =
      (Query.Tree.clauses? (tokens? env p.metadata) label children).map fun clauses =>
        .near clauses (proximityDistance label.kind).1 (proximityDistance label.kind).2 none := by
  rw [← outcome?_spansOfChildren hp children label hheld hreach, ← outcome?_map]
  rfl

/-- The clauses of some children. -/
theorem outcome?_spansOfChildren (hp : Sound env p) : ∀ (trees : List Tree) (outer : Label)
    {ids : List NodeId} {k : Nat}, p.draft.arena.HoldsAll ids trees →
    (∀ n ∈ ids, Reaches p.draft.arena k n) →
    outcome? (ids.mapM (spanOfChild env (nearWithin env k) outer)) p =
      Query.Tree.clauses? (tokens? env p.metadata) outer trees
  | [], outer, ids, k, hheld, _ => by
    rw [Arena.holdsAll_nil.mp hheld, Query.Tree.clauses?_nil]
    rfl
  | tree :: rest, outer, ids, k, hheld, hreach => by
    obtain ⟨n, later, rfl, hn, hrest⟩ := Arena.holdsAll_cons.mp hheld
    have hlater : ∀ c ∈ later, Reaches p.draft.arena k c := fun c hc =>
      hreach c (List.mem_cons_of_mem n hc)
    have htimeless : ∀ c ∈ n :: later,
        Timeless env (spanOfChild env (nearWithin env k) outer c) p := fun c hc =>
      spanOfChild_timeless hp outer (hreach c hc)
    have hall : Timeless env (later.mapM (spanOfChild env (nearWithin env k) outer)) p :=
      .mapM fun c hc => htimeless c (List.mem_cons_of_mem n hc)
    rw [List.mapM_cons, (htimeless n List.mem_cons_self).outcome?_bind fun clause =>
      hall.bind fun clauses => .pure (clause :: clauses),
      outcome?_spanOfChild hp tree outer hn (hreach n List.mem_cons_self), Query.Tree.clauses?_cons]
    simp only [outcome?_map, outcome?_spansOfChildren hp rest outer hrest hlater]

end

/-- **A compiled proximity** has the clauses of its children, and the boost of its node. -/
theorem outcome?_proximity (hp : Sound env p) {distance : Nat} {ordered : Bool}
    (hkind : (p.draft.arena.label n).kind = .proximity distance ordered) (fuel : Nat) :
    outcome? (nodeWithin env (fuel + 1) n) p =
      (Query.Tree.clauses? (tokens? env p.metadata) (p.draft.arena.label n)
        (p.draft.arena.treeAt n).children).map fun clauses =>
          .span (.near clauses distance ordered (p.draft.arena.label n).weight) := by
  have hlt : n < p.draft.arena.size := by
    by_contra hge
    rw [Arena.label_of_size_le (Nat.le_of_not_lt hge)] at hkind
    exact nomatch hkind
  obtain ⟨k, hk⟩ : ∃ k, p.draft.arena.size = k + 1 := ⟨p.draft.arena.size - 1, by omega⟩
  have hreach : ∀ c ∈ p.draft.arena.children n, Reaches p.draft.arena k c := fun c hc =>
    Reaches.child hp.ascending ⟨by omega, hlt⟩ hc
  -- a proximity is compiled from the clauses of its children, and weighted as a whole
  have hcompiled : outcome? (nodeWithin env (fuel + 1) n) p =
      (outcome? (nearWithin env (k + 1) (p.draft.arena.label n) n) p).map fun span =>
        (Fragment.span span).weighted (p.draft.arena.label n).boost := by
    have hnear : outcome? (proximity env (p.draft.arena.label n) n) p =
        (outcome? (nearWithin env (k + 1) (p.draft.arena.label n) n) p).map .span := by
      rw [← hk, ← outcome?_map]
      rfl
    have hnode : outcome? (nodeWithin env (fuel + 1) n) p =
        outcome? (weightedProximity env (p.draft.arena.label n) n) p := by
      unfold outcome?
      rw [nodeWithin, exec_node, hkind]
    rw [hnode, weightedProximity, outcome?_map, hnear, Option.map_map]
    rfl
  rw [hcompiled, outcome?_nearWithin hp _ _ (hp.ascending.holds_treeAt n).children hreach, Option.map_map,
    hkind]
  refine congrArg (Option.map · _) (funext fun clauses => ?_)
  rw [← weigh_near, weigh]
  cases (p.draft.arena.label n).boost <;> rfl

end Compile

namespace Compiler

open Compile

variable {setup : Setup} {compiler : Compiler}

/-- **A proximity is compiled clause by clause.** A proximity in any state of a compiler is compiled exactly
if every node met below it, through any number of proximities, is positional, and the analyzer answers for
every phrase among them that stands in a proximity with another operator than the one for regular
expressions. It is then compiled to a condition on word positions with its own distance and order, and with
one clause per child: the clause of the tree that stands there, which has the boost of the child if it
carries one. -/
theorem proximity_clauses (hstart : setup.start = .ok compiler) {p : Progress}
    (hp : Sound compiler.environment p)
    (hgrows : compiler.progress.metadata.Grows compiler.environment.resolver p.metadata) {n : Nat}
    {distance : Nat} {ordered : Bool}
    (hkind : (p.draft.arena.label n).kind = .proximity distance ordered) (fuel : Nat) :
    let env := compiler.environment
    let tree := p.draft.arena.treeAt n
    p.draft.arena.Holds n tree ∧
    ((∃ F, (exec (nodeWithin env (fuel + 1) n) p).1 = .ok F) ↔
      ∀ pair ∈ tree.met, pair.2.kind.isPositional = true ∧
        (pair.2.kind.isPhrase = true → pair.1.operator ≠ .regex → ∀ mapping,
          p.metadata.ownerMapping env.resolver pair.2.fieldName = .ok mapping →
          ∃ analyzed, env.analyzer pair.2.fieldName (mapping.type? pair.2.fieldName)
            (String.ofList (Query.Phrase.mark pair.2.sourceText.toList)) = .ok analyzed)) ∧
    ∀ F, (exec (nodeWithin env (fuel + 1) n) p).1 = .ok F →
      ∃ clauses, F = .span (.near clauses distance ordered tree.label.weight) ∧
        List.Forall₂ (fun child clause =>
            child.clause? (tokens? env p.metadata) tree.label = some clause ∧
            ∀ boost, clause.boost? = some boost → boost = child.label.weight)
          tree.children clauses := by
  intro env tree
  have hmapped : p.metadata.Mapped env.resolver := (Setup.started_of_ok hstart).mapped.grow hgrows
  have hlabel : tree.label = p.draft.arena.label n := (hp.ascending.holds_treeAt n).label_eq.symm
  have hcompiled := outcome?_proximity hp hkind fuel
  rw [← hlabel] at hcompiled
  refine ⟨hp.ascending.holds_treeAt n, ?_, fun F hF => ?_⟩
  · have hsome : (∃ F, (exec (nodeWithin env (fuel + 1) n) p).1 = .ok F) ↔
        (Query.Tree.clauses? (tokens? env p.metadata) tree.label tree.children).isSome = true := by
      rw [← Option.isSome_map, ← hcompiled, Option.isSome_iff_exists]
      simp only [outcome?_eq_some]
      rfl
    have hmet : tree.met = Query.Tree.metBelow tree.label tree.children := by
      obtain ⟨label, children⟩ := tree
      exact Query.Tree.met_node label children
    rw [hsome, Query.Tree.isSome_clauses?, hmet]
    simp only [Query.Tree.Passes, isSome_tokens?_iff hmapped]
  · rw [← outcome?_eq_some, hcompiled] at hF
    obtain ⟨clauses, hclauses, rfl⟩ := Option.map_eq_some_iff.mp hF
    exact ⟨clauses, rfl, (Query.Tree.forall₂_of_clauses? hclauses).imp fun _ _ h =>
      ⟨h, fun _ => boost?_of_clause? h⟩⟩

/-- Two words next to each other, some value, and a phrase with a boost, in a title. -/
def nearbyWords : Tree :=
  .proximity "title" 4 false [.proximity "title" 1 true [.word "title" (.str "a"), .word "title" (.str "b")],
    .notNull "title", (Query.Tree.phrase "title" "c d").withBoost (.ofInt .single 2)]

/-- All of them have clauses, and those of the nested proximity are inside of its own one. -/
theorem proximity_clauses_nearbyWords : ∃ compiler clauses,
    (itemSearch nearbyWords).start = .ok compiler ∧
    compiler.query.1 = .ok (.span (.near clauses 4 false none)) ∧
    List.Forall₂ (fun child clause => child.clause? (tokens? compiler.environment compiler.progress.metadata)
      nearbyWords.label = some clause) nearbyWords.children clauses := by
  have hrun : ((itemSearch nearbyWords).start.toOption.any fun compiler =>
      compiler.query.1.toOption.isSome) = true := by
    decide +kernel
  simp only [Option.any_eq_true, toOption_eq_some, Option.isSome_iff_exists] at hrun
  obtain ⟨compiler, hstart, F, hF⟩ := hrun
  have hstarted := Setup.started_of_ok hstart
  obtain ⟨root, hroot, hheld, -⟩ := holds_of_started hstarted rfl
  have htree := (hstarted.sound.ascending.holds_treeAt root).unique hheld
  obtain ⟨fuel, hfuel⟩ : ∃ fuel, depthBound compiler.progress.draft.arena.size = fuel + 1 :=
    Nat.exists_eq_succ_of_ne_zero (Nat.ne_of_gt (Nat.mul_pos (Nat.succ_pos _) (Nat.succ_pos _)))
  have hquery : compiler.query.1 =
      (exec (nodeWithin compiler.environment (fuel + 1) root) compiler.progress).1 := by
    rw [← hfuel]
    exact congrArg Prod.fst (exec_rootQuery hroot)
  obtain ⟨-, -, hcompiled⟩ := proximity_clauses hstart hstarted.sound (.refl _) (n := root)
    (by rw [hheld.label_eq]; rfl) fuel
  obtain ⟨clauses, rfl, hclauses⟩ := hcompiled F (hquery.symm.trans hF)
  rw [htree] at hF hclauses
  exact ⟨compiler, clauses, hstart, hF, hclauses.imp fun _ _ h => h.1⟩

end Compiler

end LinkedSearch
