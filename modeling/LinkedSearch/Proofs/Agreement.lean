import Mathlib.Data.List.Forall2
import LinkedSearch.Compile.Proximity
import LinkedSearch.Proofs.Ownership

/-! # Predicates and what they consult

A predicate is compiled with a look at the mapping of its field, and at nothing else that two
compilations could disagree on:

* `Facts`: what a mapping says about a field, and `Label.consulted`: the part of it that matters for
  a predicate.
* `Agrees`: two computations end with the same outcome when they are started in two given states, or
  in states that have looked up more, and change nothing but what was looked up.
* `leaf_agrees`: a predicate compiles to the same fragment in two states in which the facts that it
  consults are the same. -/

namespace LinkedSearch

open Query (Kind Label Operator)
open Schema (FieldType Mapping)

/-- What the mapping of the owner of a field says about the field. -/
structure Facts where
  nestedPath : Option String
  type : Option FieldType
  /-- The field is the primary key, up to case. -/
  isKey : Bool
  deriving DecidableEq

/-- **Facts** about a field. -/
def Schema.Mapping.facts (mapping : Mapping) (field : String) : Facts where
  nestedPath := mapping.nestedPath? field
  type := mapping.type? field
  isKey := mapping.primaryKey.map Char.toLower == field.map Char.toLower

namespace Query

/-- Whether a kind is a phrase. -/
def Kind.isPhrase : Kind → Bool
  | .phrase .. => true
  | _ => false

/-- Whether a kind asks for any value. -/
def Kind.isNotNull : Kind → Bool
  | .notNull => true
  | _ => false

/-- **Consulted facts**: the nested path where the predicate does not say it itself, the type of the
field for phrases and similarities, and the primary key where any value is asked for. -/
def Label.consulted (label : Label) (facts : Facts) : Facts where
  nestedPath := if label.nestedPath.isNone then facts.nestedPath else none
  type := if label.kind.isPhrase || label.operator == .concept then facts.type else none
  isKey := label.kind.isNotNull && facts.isKey

end Query

namespace Metadata

variable {resolver : Resolver} {md md' : Metadata}

/-- **Facts about a field** according to its owner. -/
def factsOf (resolver : Resolver) (md : Metadata) (field : String) : Except Error Facts :=
  (md.ownerMapping resolver field).map (·.facts field)

/-- Growth does not change the facts. -/
theorem Grows.factsOf_eq (h : md.Grows resolver md') (field : String) :
    md'.factsOf resolver field = md.factsOf resolver field := by
  unfold factsOf
  rw [h.ownerMapping_eq]

end Metadata

namespace Compile

variable {α β : Type} {env : Environment} {p q : Progress} {label : Label}

/-! ## Agreement -/

/-- **Agreement** of two computations started in two states: whatever was looked up in between, the
outcomes are the same, and nothing changes but what was looked up. -/
def Agrees (env : Environment) (x y : Compile α) (p q : Progress) : Prop :=
  ∀ md md', p.metadata.Grows env.resolver md → q.metadata.Grows env.resolver md' →
    ∃ outcome md₁ md₁', exec x { p with metadata := md } = (outcome, { p with metadata := md₁ }) ∧
      exec y { q with metadata := md' } = (outcome, { q with metadata := md₁' }) ∧
      md.Grows env.resolver md₁ ∧ md'.Grows env.resolver md₁'

namespace Agrees

/-- Computations that end at once. -/
theorem of_outcome {x y : Compile α} (outcome : Except Error α)
    (hx : ∀ s, exec x s = (outcome, s)) (hy : ∀ s, exec y s = (outcome, s)) :
    Agrees env x y p q := fun md md' _ _ =>
  ⟨outcome, md, md', hx _, hy _, .refl md, .refl md'⟩

theorem pure (a : α) : Agrees env (pure a) (pure a) p q :=
  of_outcome (.ok a) (fun _ => rfl) fun _ => rfl

theorem throw (e : Error) : Agrees env (throw e : Compile α) (throw e) p q :=
  of_outcome (.error e) (fun _ => rfl) fun _ => rfl

theorem ofExcept (outcome : Except Error α) :
    Agrees env (ofExcept outcome) (Compile.ofExcept outcome) p q := by
  cases outcome with
  | error e => exact throw e
  | ok a => exact pure a

/-- **Sequences** agree if their parts do. -/
theorem bind {x y : Compile β} {f g : β → Compile α} (hx : Agrees env x y p q)
    (hf : ∀ b, Agrees env (f b) (g b) p q) : Agrees env (x >>= f) (y >>= g) p q := by
  intro md md' hmd hmd'
  obtain ⟨outcome, md₁, md₁', hx₁, hy₁, hg₁, hg₁'⟩ := hx md md' hmd hmd'
  rw [exec_bind, exec_bind, hx₁, hy₁]
  cases outcome with
  | error e => exact ⟨.error e, md₁, md₁', rfl, rfl, hg₁, hg₁'⟩
  | ok b =>
    obtain ⟨outcome, md₂, md₂', hx₂, hy₂, hg₂, hg₂'⟩ :=
      hf b md₁ md₁' (hmd.trans hg₁) (hmd'.trans hg₁')
    exact ⟨outcome, md₂, md₂', hx₂, hy₂, hg₁.trans hg₂, hg₁'.trans hg₂'⟩

theorem map {x y : Compile β} (f : β → α) (hx : Agrees env x y p q) :
    Agrees env (f <$> x) (f <$> y) p q := by
  rw [map_eq_pure_bind, map_eq_pure_bind]
  exact hx.bind fun b => pure (f b)

/-- Computations that start with a look at the state agree if they agree on what they do with it. -/
theorem get {f g : Progress → Compile α}
    (h : ∀ md md', Agrees env (f { p with metadata := md }) (g { q with metadata := md' }) p q) :
    Agrees env (get >>= f) (MonadState.get >>= g) p q := by
  intro md md' hmd hmd'
  rw [exec_bind, exec_bind]
  exact h md md' md md' hmd hmd'

/-- **Loops** over lists whose items are handled alike. -/
theorem mapM {γ δ : Type} {f : γ → Compile α} {g : δ → Compile α} {l : List γ} {l' : List δ}
    (h : List.Forall₂ (fun a b => Agrees env (f a) (g b) p q) l l') :
    Agrees env (l.mapM f) (l'.mapM g) p q := by
  induction h with
  | nil => exact pure []
  | cons ha _ ih =>
    rw [List.mapM_cons, List.mapM_cons]
    exact ha.bind fun a => ih.bind fun as => pure (a :: as)

/-- Loops over the same list. -/
theorem mapM_same {γ : Type} {f g : γ → Compile α} {l : List γ}
    (h : ∀ a ∈ l, Agrees env (f a) (g a) p q) : Agrees env (l.mapM f) (l.mapM g) p q :=
  mapM (List.forall₂_same.mpr h)

/-- Folds over the same list. -/
theorem foldlM {γ : Type} {f g : α → γ → Compile α} {l : List γ} {a : α}
    (h : ∀ c ∈ l, ∀ a, Agrees env (f a c) (g a c) p q) :
    Agrees env (l.foldlM f a) (l.foldlM g a) p q := by
  induction l generalizing a with
  | nil => exact pure a
  | cons c l ih =>
    rw [List.foldlM_cons, List.foldlM_cons]
    exact (h c List.mem_cons_self a).bind fun b =>
      ih fun c' hc' => h c' (List.mem_cons_of_mem c hc')

end Agrees

/-! ## States in which a predicate compiles alike -/

/-- **Peers**: two states that only differ in their arenas and in what they know about the indexes,
as far as predicates are concerned. -/
structure Peers (env : Environment) (p q : Progress) : Prop where
  faithful_left : p.metadata.Faithful env.resolver
  faithful_right : q.metadata.Faithful env.resolver
  aggregating_eq : q.aggregating = p.aggregating
  scopeDepth_eq : q.scopeDepth = p.scopeDepth
  scopePath_eq : p.scopeDepth = 0 ∨ q.scopePath = p.scopePath
  arrayData_eq : q.draft.arrayData = p.draft.arrayData

/-- The facts that a predicate consults are the same in two states. -/
def SameFacts (env : Environment) (p q : Progress) (label : Label) : Prop :=
  (q.metadata.factsOf env.resolver label.fieldName).map label.consulted =
    (p.metadata.factsOf env.resolver label.fieldName).map label.consulted

/-- Tokens of a phrase consult nothing that the phrase does not consult. -/
theorem SameFacts.tokenLabel (h : SameFacts env p q label) (token : List Char) :
    SameFacts env p q (Query.Phrase.tokenLabel label token) := by
  -- tokens are neither phrases nor tests for null, which are the kinds that ask for most facts
  have hkind : ∀ token, (Query.Phrase.plainKind token).isPhrase = false ∧
      (Query.Phrase.plainKind token).isNotNull = false := by
    intro token
    unfold Query.Phrase.plainKind
    split
    · exact ⟨rfl, rfl⟩
    · split <;> exact ⟨rfl, rfl⟩
    · exact ⟨rfl, rfl⟩
  have htoken : (Query.Phrase.tokenKind token).isPhrase = false ∧
      (Query.Phrase.tokenKind token).isNotNull = false := by
    unfold Query.Phrase.tokenKind
    split
    · split
      · exact ⟨rfl, rfl⟩
      · exact hkind token
    · exact hkind token
  -- so whatever a token looks at, its phrase has looked at
  have hweaker : (Query.Phrase.tokenLabel label token).consulted =
      (Query.Phrase.tokenLabel label token).consulted ∘ label.consulted := by
    funext facts
    simp only [Function.comp, Label.consulted, Query.Phrase.tokenLabel, htoken.1, htoken.2]
    by_cases hpath : label.nestedPath.isNone = true <;>
      by_cases hconcept : (label.operator == .concept) = true <;> simp [hpath, hconcept]
  unfold SameFacts at h ⊢
  rw [hweaker]
  have hmap : ∀ outcome : Except Error Facts,
      outcome.map ((Query.Phrase.tokenLabel label token).consulted ∘ label.consulted) =
        (outcome.map label.consulted).map (Query.Phrase.tokenLabel label token).consulted := by
    intro outcome
    cases outcome <;> rfl
  rw [hmap, hmap]
  exact congrArg _ h

/-- **Looking up the mapping of a field**: computations agree if they agree on what they do with two
mappings whose facts look the same to the predicate. -/
theorem Agrees.mappingOf {f g : Mapping → Compile α} (hp : Peers env p q)
    (hs : SameFacts env p q label)
    (h : ∀ m m' : Mapping, label.consulted (m'.facts label.fieldName) =
      label.consulted (m.facts label.fieldName) → Agrees env (f m) (g m') p q) :
    Agrees env (mappingOf env label.fieldName >>= f) (Compile.mappingOf env label.fieldName >>= g)
      p q := by
  intro md md' hmd hmd'
  -- a lookup returns what the owner of the field says, and no state matters beyond the metadata
  have hlook : ∀ (s : Progress) (md : Metadata), md.Faithful env.resolver →
      ∃ md₁, exec (Compile.mappingOf env label.fieldName) { s with metadata := md } =
        (md.ownerMapping env.resolver label.fieldName, { s with metadata := md₁ }) ∧
        md.Grows env.resolver md₁ := by
    intro s md hf
    obtain ⟨md₁, hexec, hgrows⟩ := Metadata.exec_mappingOf hf label.fieldName
    refine ⟨md₁, ?_, hgrows⟩
    rw [Compile.mappingOf, exec_look, hexec]
  obtain ⟨md₁, hx, hg⟩ := hlook p md (hmd.faithful hp.faithful_left)
  obtain ⟨md₁', hx', hg'⟩ := hlook q md' (hmd'.faithful hp.faithful_right)
  rw [exec_bind, exec_bind, hx, hx', hmd.ownerMapping_eq, hmd'.ownerMapping_eq]
  unfold SameFacts Metadata.factsOf at hs
  cases hl : p.metadata.ownerMapping env.resolver label.fieldName with
  | error e =>
    rw [hl] at hs
    cases hr : q.metadata.ownerMapping env.resolver label.fieldName with
    | error e' =>
      rw [hr] at hs
      obtain rfl : e' = e := by simpa [Except.map] using hs
      exact ⟨.error e', md₁, md₁', rfl, rfl, hg, hg'⟩
    | ok m' =>
      rw [hr] at hs
      exact absurd hs (by simp [Except.map])
  | ok m =>
    rw [hl] at hs
    cases hr : q.metadata.ownerMapping env.resolver label.fieldName with
    | error e' =>
      rw [hr] at hs
      exact absurd hs (by simp [Except.map])
    | ok m' =>
      rw [hr] at hs
      have hfacts : label.consulted (m'.facts label.fieldName) =
          label.consulted (m.facts label.fieldName) := by simpa [Except.map] using hs
      obtain ⟨outcome, md₂, md₂', h₂, h₂', hg₂, hg₂'⟩ :=
        h m m' hfacts md₁ md₁' (hmd.trans hg) (hmd'.trans hg')
      exact ⟨outcome, md₂, md₂', h₂, h₂', hg.trans hg₂, hg'.trans hg₂'⟩

/-! ## Predicates -/

section Predicates

variable (hp : Peers env p q) (hs : SameFacts env p q label)

include hp hs

/-- The nested path of a predicate is one of the facts it consults. -/
theorem nestedPathOf_agrees : Agrees env (nestedPathOf env label) (nestedPathOf env label) p q := by
  unfold nestedPathOf
  split
  · exact .pure _
  · exact .pure _
  · next field hpath hfield =>
    have hname : field = label.fieldName := by rw [Label.fieldName, hfield, Option.getD_some]
    rw [hname]
    refine .mappingOf hp hs fun m m' hfacts => ?_
    have hnested : m'.nestedPath? label.fieldName = m.nestedPath? label.fieldName := by
      simpa [Label.consulted, Mapping.facts, hpath] using congrArg Facts.nestedPath hfacts
    rw [hnested]
    exact .pure _

theorem nest_agrees (fragment : Fragment) :
    Agrees env (nest env label fragment) (nest env label fragment) p q := by
  refine (nestedPathOf_agrees hp hs).bind fun path => ?_
  cases path with
  | none =>
    refine .get fun md md' => ?_
    simp only [hp.aggregating_eq]
    exact .pure _
  | some path =>
    refine .get fun md md' => ?_
    simp only [hp.scopeDepth_eq]
    split
    · exact .pure _
    · next hdepth =>
      simp only [hp.scopePath_eq.resolve_left hdepth]
      split
      · split
        · exact .pure _
        · exact .throw _
      · exact .pure _

/-- The analyzer of the field is part of its type. -/
theorem similarity_agrees (hoperator : label.operator = .concept) :
    Agrees env (similarity env label) (similarity env label) p q := by
  refine .mappingOf hp hs fun m m' hfacts => ?_
  have htype : m'.type? label.fieldName = m.type? label.fieldName := by
    simpa [Label.consulted, Mapping.facts, hoperator] using congrArg Facts.type hfacts
  simp only [Mapping.analyzer?, htype]
  exact .pure _

theorem standard_agrees (base : Fragment) :
    Agrees env (standard env label base) (standard env label base) p q := by
  have hnest : ∀ fragment, Agrees env (nest env label fragment) (nest env label fragment) p q :=
    nest_agrees hp hs
  unfold standard
  simp only
  split
  case h_9 hoperator => exact (similarity_agrees hp hs hoperator).bind hnest
  case h_10 => exact (Agrees.throw _).bind hnest
  all_goals exact (Agrees.pure _).bind hnest

omit hs in
theorem arrayData_agrees (key : String) : Agrees env (arrayData key) (arrayData key) p q := by
  refine .get fun md md' => ?_
  simp only [hp.arrayData_eq]
  split
  · exact .pure _
  · exact .throw _

omit hp hs in
theorem validateOperator_agrees : Agrees env (validateOperator label) (validateOperator label) p q := by
  unfold validateOperator
  split
  case h_4 => exact .throw _
  all_goals exact .pure _

/-- A checked operator, and then the condition for it. -/
theorem validated_agrees (base : Fragment) :
    Agrees env (do validateOperator label; standard env label base)
      (do validateOperator label; standard env label base) p q :=
  validateOperator_agrees.bind fun _ => standard_agrees hp hs base

/-- A predicate that is no phrase. -/
theorem plainLeaf_agrees : Agrees env (plainLeaf env label) (plainLeaf env label) p q := by
  unfold plainLeaf
  simp only
  split
  case h_1 => exact standard_agrees hp hs _
  case h_2 => exact standard_agrees hp hs _
  case h_9 hkind =>
    refine .mappingOf hp hs fun m m' hfacts => ?_
    have hkey : (m'.primaryKey.map Char.toLower == label.fieldName.map Char.toLower) =
        (m.primaryKey.map Char.toLower == label.fieldName.map Char.toLower) := by
      simpa [Label.consulted, Mapping.facts, Query.Kind.isNotNull, hkind] using congrArg Facts.isKey hfacts
    have hkey' : m'.primaryKey.map Char.toLower = label.fieldName.map Char.toLower ↔
        m.primaryKey.map Char.toLower = label.fieldName.map Char.toLower := by
      rw [← beq_iff_eq, hkey, beq_iff_eq]
    simp only [hkey']
    split
    · exact .pure _
    · exact validated_agrees hp hs _
  case h_11 =>
    refine validateOperator_agrees.bind fun _ => ?_
    exact (arrayData_agrees hp _).bind fun values => standard_agrees hp hs _
  case h_12 => exact .pure _
  case h_13 => exact .throw _
  all_goals exact validated_agrees hp hs _

/-- The type of the field decides how a phrase is analyzed. -/
theorem phraseTokens_agrees (hphrase : label.kind.isPhrase = true) :
    Agrees env (phraseTokens env label) (phraseTokens env label) p q := by
  refine .mappingOf hp hs fun m m' hfacts => ?_
  have htype : m'.type? label.fieldName = m.type? label.fieldName := by
    simpa [Label.consulted, Mapping.facts, hphrase] using congrArg Facts.type hfacts
  simp only [htype]
  exact (Agrees.ofExcept _).bind fun tokens => .pure _

omit hp hs in
theorem spanOfLeaf_agrees (outer : Operator) (field : String) :
    Agrees env (spanOfLeaf outer field label) (spanOfLeaf outer field label) p q := by
  unfold spanOfLeaf
  split
  · exact .pure _
  · exact .throw _

/-- A phrase is a condition on word positions, a single word, or a run of text. -/
theorem phrase_agrees (hphrase : label.kind.isPhrase = true) :
    Agrees env (phrase env label) (phrase env label) p q := by
  unfold phrase
  simp only
  split
  · exact standard_agrees hp hs _
  · refine (phraseTokens_agrees hp hs hphrase).bind fun tokens => ?_
    split
    · exact standard_agrees hp hs _
    · split
      · exact plainLeaf_agrees hp (hs.tokenLabel _)
      · exact standard_agrees hp hs _
    · split
      · exact (Agrees.mapM_same fun token _ => spanOfLeaf_agrees _ _).bind fun clauses => .pure _
      · exact standard_agrees hp hs _

/-- **Predicates** compile alike where the facts they consult are the same. -/
theorem leaf_agrees : Agrees env (leaf env label) (leaf env label) p q := by
  unfold leaf
  split
  · next hkind => exact phrase_agrees hp hs (by rw [hkind]; rfl)
  · exact plainLeaf_agrees hp hs

end Predicates

end Compile

end LinkedSearch
