import LinkedSearch.Proofs.Nesting

/-! # Predicates with the operator for "not equal"

A predicate with the operator for "not equal" is meant to be the negation of the same predicate with the
one for "equal". Most predicates are negated where their operator becomes a condition; some never get
there, and are compiled to the same condition with either operator:

* `ignoresOperator`: scripts, the presence of a primary key, and positional phrases.
* `plainLeaf_negated`, `phrase_negated`: the two kinds of compiled predicates.
* `nodeWithin_negated`: a node with the one and with the other operator. -/

namespace LinkedSearch

open Query (Kind Label Tree)

namespace Query

/-- Whether a kind is an array of values. -/
def Kind.isArray : Kind → Bool
  | .array .. => true
  | _ => false

/-- The same predicate with the operator for "not equal". -/
def Label.negated (label : Label) : Label := { label with operator := .notEqual }

end Query

/-- No fragment is its own negation. -/
theorem Fragment.not_ne (F : Fragment) : F.not ≠ F := by
  intro h
  have hsize := congrArg sizeOf h
  simp only [Fragment.not, Fragment.bool.sizeOf_spec, List.cons.sizeOf_spec, List.nil.sizeOf_spec] at hsize
  omega

namespace Compile

variable {env : Environment} {p q : Progress} {label : Label} {base F : Fragment} {n fuel : Nat}

/-- **Ignoring the operator**: scripts, the presence of a primary key, and phrases that become conditions
on word positions. -/
def ignoresOperator (env : Environment) (md : Metadata) (label : Label) : Bool :=
  match label.kind with
  | .script _ => true
  | .notNull => (md.ownerMapping env.resolver label.fieldName).toOption.any fun mapping =>
      decide (mapping.primaryKey.map Char.toLower = label.fieldName.map Char.toLower)
  | _ => isPositional env md label

/-- Predicates that are neither scripts nor ask for any value, and are no phrases, heed the operator. -/
theorem ignoresOperator_eq_false (md : Metadata) (hscript : ∀ source, label.kind ≠ .script source)
    (hnotNull : label.kind ≠ .notNull) (hphrase : label.kind.isPhrase = false) :
    ignoresOperator env md label = false := by
  unfold ignoresOperator
  split
  · next source hkind => exact absurd hkind (hscript source)
  · next hkind => exact absurd hkind hnotNull
  · rw [isPositional, hphrase]
    rfl

/-! ## Conditions -/

/-- **Bare** predicates: outside of the filters of aggregates and without a nested path. -/
structure Bare (env : Environment) (p : Progress) (label : Label) : Prop where
  sound : Sound env p
  mode : p.aggregating = false
  path : p.metadata.pathOf env.resolver label = .ok none

namespace Bare

theorem looked (h : Bare env p label) (hlooked : Looked env p q) : Bare env q label := by
  have hsound := (hlooked.evolves h.sound).sound
  obtain ⟨md, hgrows, rfl⟩ := hlooked
  exact ⟨hsound, h.mode, (hgrows.pathOf_eq label).trans h.path⟩

/-- The operator has nothing to do with it. -/
theorem negated (h : Bare env p label) : Bare env p label.negated := ⟨h.sound, h.mode, h.path⟩

/-- The word of a phrase has the field and the path of the phrase. -/
theorem token (h : Bare env p label) (token : List Char) :
    Bare env p (Query.Phrase.tokenLabel label token) := ⟨h.sound, h.mode, h.path⟩

/-- A condition without a nested path stays as it is. -/
theorem nest (h : Bare env p label) (base : Fragment) : (exec (nest env label base) p).1 = .ok base := by
  obtain ⟨_, hexec, md, -, rfl⟩ := exec_nestedPathOf h.sound label
  unfold Compile.nest
  rw [exec_bind, hexec, h.path]
  show Except.ok (if p.aggregating then Fragment.matchAll none else base) = _
  rw [h.mode]
  rfl

/-- The condition for equality. -/
theorem standard_equal (h : Bare env p label) (hequal : label.operator = .equal) (base : Fragment) :
    (exec (standard env label base) p).1 = .ok base := by
  unfold standard
  rw [hequal]
  exact h.nest base

end Bare

/-- **The condition for "not equal"** is the negation of the one for equality. -/
theorem standard_negated (h : Bare env p label) (hequal : label.operator = .equal)
    (hF : (exec (standard env label base) p).1 = .ok F) :
    (exec (standard env label.negated base) p).1 = .ok F.not := by
  rw [h.standard_equal hequal] at hF
  obtain rfl := Except.ok.inj hF
  exact h.negated.nest base.not

/-- Both operators are valid for every kind. -/
theorem validateOperator_equal (hequal : label.operator = .equal) : validateOperator label = pure () := by
  unfold validateOperator
  rw [hequal]

theorem validateOperator_negated (label : Label) : validateOperator label.negated = pure () := rfl

/-! ## Predicates -/

/-- Asking for a value: everything has one of the primary key, whatever the operator is. -/
theorem notNull_negated (h : Bare env p label) (hequal : label.operator = .equal)
    (hkind : label.kind = .notNull) (hF : (exec (plainLeaf env label) p).1 = .ok F) :
    (exec (plainLeaf env label.negated) p).1 =
      .ok (if ignoresOperator env p.metadata label then F else F.not) := by
  obtain ⟨q, hexec, hlooked⟩ := exec_mappingOf h.sound label.fieldName
  have hignores : ignoresOperator env p.metadata label =
      (p.metadata.ownerMapping env.resolver label.fieldName).toOption.any fun mapping =>
        decide (mapping.primaryKey.map Char.toLower = label.fieldName.map Char.toLower) := by
    simp [ignoresOperator, hkind]
  unfold plainLeaf at hF ⊢
  rw [hkind] at hF
  rw [hignores, show label.negated.kind = .notNull from hkind]
  simp only at hF ⊢
  rw [show label.negated.fieldName = label.fieldName from rfl, exec_bind, hexec]
  rw [exec_bind, hexec] at hF
  rcases hmapping : p.metadata.ownerMapping env.resolver label.fieldName with error | mapping
  · rw [hmapping] at hF
    exact absurd hF (by simp)
  rw [hmapping] at hF
  simp only [Except.toOption, Option.any_some, decide_eq_true_eq] at hF ⊢
  split
  · next hkey =>
    rw [if_pos hkey] at hF
    exact hF
  · next hkey =>
    rw [if_neg hkey, validateOperator_equal hequal, pure_bind] at hF
    exact standard_negated (h.looked hlooked) hequal hF

/-- A block of values, which is looked up before the condition is made. -/
theorem arrayData_negated (h : Bare env p label) (hequal : label.operator = .equal) {key : String}
    (hkind : label.kind = .arrayData key) (hF : (exec (plainLeaf env label) p).1 = .ok F) :
    (exec (plainLeaf env label.negated) p).1 = .ok F.not := by
  have hstays : (exec (arrayData key) p).2 = p := by
    unfold arrayData
    rw [exec_get_bind]
    split <;> rfl
  unfold plainLeaf at hF ⊢
  rw [hkind] at hF
  rw [show label.negated.kind = .arrayData key from hkind]
  simp only at hF ⊢
  rw [validateOperator_equal hequal, pure_bind, exec_bind] at hF
  rw [validateOperator_negated, pure_bind, exec_bind]
  rcases hdata : exec (arrayData key) p with ⟨error | values, q⟩
  · rw [hdata] at hF
    exact absurd hF (by simp)
  · rw [hdata] at hF hstays
    obtain rfl : q = p := hstays
    exact standard_negated h hequal hF

/-- **Predicates that are no phrases** are negated, unless they ignore the operator. -/
theorem plainLeaf_negated (h : Bare env p label) (hequal : label.operator = .equal)
    (harray : label.kind.isArray = false) (hF : (exec (plainLeaf env label) p).1 = .ok F) :
    (exec (plainLeaf env label.negated) p).1 =
      .ok (if ignoresOperator env p.metadata label then F else F.not) := by
  -- only scripts, tests for any value and phrases may ignore the operator
  have hheeds : (∀ source, label.kind ≠ .script source) → label.kind ≠ .notNull →
      label.kind.isPhrase = false →
      (if ignoresOperator env p.metadata label then F else F.not) = F.not := by
    intro hscript hnotNull hphrase
    rw [ignoresOperator_eq_false _ hscript hnotNull hphrase]
    rfl
  cases hkind : label.kind with
  | array =>
    rw [hkind] at harray
    exact absurd harray (by simp [Kind.isArray])
  | notNull => exact notNull_negated h hequal hkind hF
  | arrayData key =>
    rw [hheeds (by simp [hkind]) (by simp [hkind]) (by rw [hkind]; rfl)]
    exact arrayData_negated h hequal hkind hF
  | script source =>
    unfold plainLeaf at hF ⊢
    rw [hkind] at hF
    rw [show ignoresOperator env p.metadata label = true by simp [ignoresOperator, hkind],
      show label.negated.kind = .script source from hkind]
    exact hF
  | word value | number value =>
    unfold plainLeaf at hF ⊢
    rw [hkind] at hF
    rw [hheeds (by simp [hkind]) (by simp [hkind]) (by rw [hkind]; rfl),
      show label.negated.kind = _ from hkind]
    exact standard_negated h hequal hF
  | boolean | range | wildcard | fuzzy | leading | null =>
    unfold plainLeaf at hF ⊢
    rw [hkind] at hF
    rw [hheeds (by simp [hkind]) (by simp [hkind]) (by rw [hkind]; rfl),
      show label.negated.kind = _ from hkind]
    simp only at hF ⊢
    rw [validateOperator_equal hequal, pure_bind] at hF
    exact standard_negated h hequal hF
  | _ =>
    unfold plainLeaf at hF
    rw [hkind] at hF
    exact absurd hF (by simp [exec])

/-! ## Phrases -/

/-- The words of phrases heed the operator. -/
theorem token_heeds (env : Environment) (md : Metadata) (label : Label) (token : List Char) :
    (Query.Phrase.tokenLabel label token).kind.isArray = false ∧
      ignoresOperator env md (Query.Phrase.tokenLabel label token) = false := by
  have hkind : (Query.Phrase.tokenLabel label token).kind = Query.Phrase.tokenKind token := rfl
  have hsorts := tokenKind_sorts token
  rw [← hkind] at hsorts
  constructor
  · rcases hsorts with ⟨_, h⟩ | ⟨_, h⟩ | ⟨_, h⟩ | ⟨_, _, h⟩ <;> rw [h] <;> rfl
  · apply ignoresOperator_eq_false
    · exact tokenKind_ne_script token
    · rcases hsorts with ⟨_, h⟩ | ⟨_, h⟩ | ⟨_, h⟩ | ⟨_, _, h⟩ <;> rw [h] <;> simp
    · rcases hsorts with ⟨_, h⟩ | ⟨_, h⟩ | ⟨_, h⟩ | ⟨_, _, h⟩ <;> rw [h] <;> rfl

/-- The clause for a single word does not say which of the two operators its phrase has. -/
theorem spanOfLeaf_negated {outer : Query.Operator} (houter : outer ≠ .regex) (field : String)
    (label : Label) : spanOfLeaf .notEqual field label.negated = spanOfLeaf outer field label := by
  have hclause : spanOfLeaf? .notEqual field label.negated = spanOfLeaf? outer field label := by
    unfold spanOfLeaf?
    rw [show label.negated.kind = label.kind from rfl, if_neg (by simp), if_neg houter]
    rfl
  unfold spanOfLeaf
  rw [hclause]
  rfl

/-- A phrase ignores the operator where it is positional. -/
theorem ignoresOperator_of_isPhrase (md : Metadata) (hphrase : label.kind.isPhrase = true) :
    ignoresOperator env md label = isPositional env md label := by
  unfold ignoresOperator
  split
  · next hkind => rw [hkind] at hphrase; exact absurd hphrase (by simp [Kind.isPhrase])
  · next hkind => rw [hkind] at hphrase; exact absurd hphrase (by simp [Kind.isPhrase])
  · rfl

/-- **Phrases** are negated, unless they are positional. -/
theorem phrase_negated (h : Bare env p label) (hequal : label.operator = .equal)
    (hphrase : label.kind.isPhrase = true) (hF : (exec (phrase env label) p).1 = .ok F) :
    (exec (phrase env label.negated) p).1 =
      .ok (if ignoresOperator env p.metadata label then F else F.not) := by
  have hregex : label.operator ≠ .regex := by simp [hequal]
  have hlooks : Looks env (phraseTokens env label) p :=
    .of_agrees (phraseTokens_agrees (Sound.peers h.sound) rfl hphrase)
  obtain ⟨outcome, q, hexec, hlooked⟩ := hlooks
  unfold phrase at hF ⊢
  simp only at hF ⊢
  rw [if_neg hregex, exec_bind, hexec] at hF
  rw [if_neg (by simp [Label.negated]), exec_bind, show phraseTokens env label.negated = phraseTokens env label from rfl,
    hexec]
  rcases outcome with error | tokens
  · exact absurd hF (by simp)
  have hpositional := isPositional_of_exec h.sound hphrase hregex (congrArg Prod.fst hexec)
  rw [ignoresOperator_of_isPhrase _ hphrase]
  have hq := h.looked hlooked
  have hplain : ∀ {base : Fragment}, isPositional env p.metadata label = false →
      (exec (standard env label base) q).1 = .ok F →
      (exec (standard env label.negated base) q).1 =
        .ok (if isPositional env p.metadata label then F else F.not) := by
    intro base hwords hbase
    rw [hwords]
    exact standard_negated hq hequal hbase
  rcases tokens with _ | ⟨first, _ | ⟨second, rest⟩⟩
  · exact hplain (by rw [hpositional]; rfl) hF
  · have hsingle : isPositional env p.metadata label = false := by rw [hpositional]; rfl
    simp only at hF ⊢
    split at hF
    · next hwords =>
      -- the only word has its own kind, which heeds the operator
      rw [show (label.negated.kind) = label.kind from rfl, if_pos hwords, hsingle]
      obtain ⟨harray, hheeds⟩ := token_heeds env q.metadata label first
      have hword := plainLeaf_negated (hq.token first) hequal harray hF
      rw [hheeds] at hword
      exact hword
    · next hwords =>
      rw [show (label.negated.kind) = label.kind from rfl, if_neg hwords]
      exact hplain hsingle hF
  · have hpositional : isPositional env p.metadata label = (decide (0 < (phraseDistance label.kind).1) ||
        !(phraseDistance label.kind).2 || (first :: second :: rest).any Query.Phrase.isMultiTerm) := by
      rw [hpositional]
      simp
    simp only at hF ⊢
    split at hF
    · next hwords =>
      -- the clauses for single words do not say whether they are negated
      rw [show (label.negated.kind) = label.kind from rfl, if_pos hwords, hpositional, if_pos hwords]
      have hclauses : ∀ token, spanOfLeaf label.negated.operator label.negated.fieldName
          (Query.Phrase.tokenLabel label.negated token) =
            spanOfLeaf label.operator label.fieldName (Query.Phrase.tokenLabel label token) := by
        intro token
        exact spanOfLeaf_negated hregex label.fieldName (Query.Phrase.tokenLabel label token)
      simp only [hclauses]
      exact hF
    · next hwords =>
      rw [show (label.negated.kind) = label.kind from rfl, if_neg hwords]
      exact hplain (by rw [hpositional]; exact Bool.eq_false_iff.mpr hwords) hF

/-- **Compiled predicates** are negated, unless they ignore the operator. -/
theorem leaf_negated (h : Bare env p label) (hequal : label.operator = .equal)
    (harray : label.kind.isArray = false) (hF : (exec (leaf env label) p).1 = .ok F) :
    (exec (leaf env label.negated) p).1 =
      .ok (if ignoresOperator env p.metadata label then F else F.not) := by
  unfold leaf at hF ⊢
  rw [show label.negated.kind = label.kind from rfl]
  cases hkind : label.kind with
  | phrase =>
    rw [hkind] at hF
    exact phrase_negated h hequal (by rw [hkind]; rfl) hF
  | _ =>
    rw [hkind] at hF
    exact plainLeaf_negated h hequal harray hF

/-! ## Nodes -/

/-- The same state with the operator for "not equal" at a node. -/
def negatedAt (n : Nat) (p : Progress) : Progress :=
  { p with draft := { p.draft with arena := p.draft.arena.modifyLabel n Label.negated } }

/-- **When a predicate with the operator for "not equal" is compiled to the negation** of what it is
compiled to with the one for "equal". At any moment of any compilation of a query, inside of scopes and
outside of them, for every analyzer, and for every predicate without a nested path and without a boost
that is no array of values: it is unless the predicate is a script, asks for a value of the primary key, or
is a phrase of several words that asks for their positions. These are compiled to the same fragment with
both operators. -/
theorem nodeWithin_negated (hp : Sound env p) (hn : n < p.draft.arena.size)
    (hmode : p.aggregating = false) (hleaf : (p.draft.arena.label n).kind.isLeaf = true)
    (harray : (p.draft.arena.label n).kind.isArray = false)
    (hequal : (p.draft.arena.label n).operator = .equal)
    (hboost : (p.draft.arena.label n).boost = none)
    (hpath : p.metadata.pathOf env.resolver (p.draft.arena.label n) = .ok none)
    (hF : (exec (nodeWithin env fuel n) p).1 = .ok F) :
    (exec (nodeWithin env fuel n) (negatedAt n p)).1 =
        .ok (if ignoresOperator env p.metadata (p.draft.arena.label n) then F else F.not) ∧
      ((exec (nodeWithin env fuel n) (negatedAt n p)).1 = .ok F.not ↔
        ignoresOperator env p.metadata (p.draft.arena.label n) = false) := by
  have hlabel : (negatedAt n p).draft.arena.label n = (p.draft.arena.label n).negated := by
    show (p.draft.arena.modifyLabel n Label.negated).label n = _
    rw [Query.Arena.label_modifyLabel _ _ _ hn, if_pos rfl]
  cases fuel with
  | zero => exact absurd hF (by simp [nodeWithin, exec])
  | succ fuel =>
    have hunweighted : ∀ label : Label, label.boost = none → predicate env label = leaf env label := by
      intro label hnone
      unfold predicate
      rw [hnone]
      exact bind_pure _
    have hbefore : exec (nodeWithin env (fuel + 1) n) p =
        exec (leaf env (p.draft.arena.label n)) p := by
      rw [← hunweighted _ hboost]
      exact exec_node_predicate hleaf
    have hafter : exec (nodeWithin env (fuel + 1) n) (negatedAt n p) =
        exec (leaf env (p.draft.arena.label n).negated) (negatedAt n p) := by
      rw [← hunweighted (p.draft.arena.label n).negated hboost, ← hlabel]
      exact exec_node_predicate (by rw [hlabel]; exact hleaf)
    -- a predicate does not look at the arena
    have hpeers : Peers env p (negatedAt n p) := ⟨hp.faithful, hp.faithful, rfl, rfl, .inr rfl, rfl⟩
    have hsame : (exec (leaf env (p.draft.arena.label n).negated) (negatedAt n p)).1 =
        (exec (leaf env (p.draft.arena.label n).negated) p).1 := by
      obtain ⟨outcome, _, _, hleft, hright, -⟩ := leaf_agrees hpeers rfl _ _ (.refl _) (.refl _)
      have hleft : exec (leaf env (p.draft.arena.label n).negated) p = _ := hleft
      have hright : exec (leaf env (p.draft.arena.label n).negated) (negatedAt n p) = _ := hright
      rw [hleft, hright]
    rw [hbefore] at hF
    have hnegated := leaf_negated ⟨hp, hmode, hpath⟩ hequal harray hF
    rw [hafter, hsame, hnegated]
    refine ⟨rfl, ?_⟩
    cases ignoresOperator env p.metadata (p.draft.arena.label n) with
    | true => simpa using fun h => Fragment.not_ne F h.symm
    | false => simp

/-- A word in the title, and two words in it with a distance. -/
def titleTree : Tree :=
  .conjunction [(Tree.word "title" (.str "a")).withOperator .equal,
    (Tree.proximityPhrase "title" "a b" 2 true).withOperator .equal]

/-- Whether all that is asked of a predicate holds of a node. -/
def isNegatable (compiler : Compiler) (n : Nat) : Bool :=
  let label := compiler.progress.draft.arena.label n
  decide (n < compiler.progress.draft.arena.size) && !compiler.progress.aggregating && label.kind.isLeaf &&
    !label.kind.isArray && decide (label.operator = .equal) && decide (label.boost = none) &&
    compiler.hasPath none label

/-- With "not equal" the word becomes a negation, and the two words stay what they are. -/
theorem nodeWithin_negated_titleTree : ∃ compiler F G,
    (Compiler.itemSearch titleTree).start = .ok compiler ∧
    (exec (nodeWithin compiler.environment 1 1) compiler.progress).1 = .ok F ∧
    (exec (nodeWithin compiler.environment 1 1) (negatedAt 1 compiler.progress)).1 = .ok F.not ∧
    (exec (nodeWithin compiler.environment 1 2) compiler.progress).1 = .ok G ∧
    (exec (nodeWithin compiler.environment 1 2) (negatedAt 2 compiler.progress)).1 = .ok G := by
  have hrun : ((Compiler.itemSearch titleTree).start.toOption.any fun compiler =>
      (exec (nodeWithin compiler.environment 1 1) compiler.progress).1.toOption.any fun _ =>
        (exec (nodeWithin compiler.environment 1 2) compiler.progress).1.toOption.any fun _ =>
          isNegatable compiler 1 && isNegatable compiler 2 &&
          !ignoresOperator compiler.environment compiler.progress.metadata
            (compiler.progress.draft.arena.label 1) &&
          ignoresOperator compiler.environment compiler.progress.metadata
            (compiler.progress.draft.arena.label 2)) = true := by
    decide +kernel
  simp only [Option.any_eq_true, toOption_eq_some, Bool.and_eq_true, Bool.not_eq_true', isNegatable,
    decide_eq_true_eq] at hrun
  obtain ⟨compiler, hstart, F, hF, G, hG, ⟨⟨hfirst, hsecond⟩, hheeds⟩, hignores⟩ := hrun
  have hsound := (Setup.started_of_ok hstart).sound
  obtain ⟨⟨⟨⟨⟨⟨hlt, hmode⟩, hleaf⟩, harray⟩, hequal⟩, hboost⟩, hpath⟩ := hfirst
  obtain ⟨⟨⟨⟨⟨⟨hlt', -⟩, hleaf'⟩, harray'⟩, hequal'⟩, hboost'⟩, hpath'⟩ := hsecond
  have hnegated := (nodeWithin_negated hsound hlt hmode hleaf harray hequal hboost
    (Compiler.hasPath_iff.mp hpath) hF).1
  have hsame := (nodeWithin_negated hsound hlt' hmode hleaf' harray' hequal' hboost'
    (Compiler.hasPath_iff.mp hpath') hG).1
  rw [hheeds] at hnegated
  rw [hignores] at hsame
  exact ⟨compiler, F, G, hstart, hF, hnegated, hG, hsame⟩

/-- **Two words in the title with a distance**: the query for books without them is the query for books with
them, a condition on word positions. -/
theorem not_negated_titleTree : ∃ compiler compiler' F G,
    (Compiler.itemSearch ((Tree.proximityPhrase "title" "a b" 2 true).withOperator .equal)).start =
      .ok compiler ∧ compiler.query.1 = .ok F ∧
    (Compiler.itemSearch ((Tree.proximityPhrase "title" "a b" 2 true).withOperator .notEqual)).start =
      .ok compiler' ∧ compiler'.query.1 = .ok G ∧
    compiler.hasPath none (Tree.proximityPhrase "title" "a b" 2 true).label = true ∧
    G.kind = "span_near" ∧ G ≠ F.not := by
  have hrun : ((Compiler.itemSearch
        ((Tree.proximityPhrase "title" "a b" 2 true).withOperator .equal)).start.toOption.any fun compiler =>
      (Compiler.itemSearch
        ((Tree.proximityPhrase "title" "a b" 2 true).withOperator .notEqual)).start.toOption.any fun compiler' =>
        compiler.query.1.toOption.any fun _ => compiler'.query.1.toOption.any fun G =>
          compiler.hasPath none (Tree.proximityPhrase "title" "a b" 2 true).label &&
            decide (G.kind = "span_near")) = true := by
    decide +kernel
  simp only [Option.any_eq_true, toOption_eq_some, Bool.and_eq_true, decide_eq_true_eq] at hrun
  obtain ⟨compiler, hstart, compiler', hstart', F, hF, G, hG, hpath, hkind⟩ := hrun
  refine ⟨compiler, compiler', F, G, hstart, hF, hstart', hG, hpath, hkind, ?_⟩
  rintro rfl
  exact absurd hkind (by simp [Fragment.not, Fragment.kind])

end Compile

end LinkedSearch
