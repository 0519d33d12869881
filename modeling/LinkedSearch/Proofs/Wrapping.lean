import LinkedSearch.Proofs.Primitives
import LinkedSearch.Proofs.Transparency

/-! # Predicates on nested objects

A predicate on a field of nested objects has to be put below a nested fragment with the path of these
objects. Most predicates are, each on its own or with the scope that it stands in; conditions on word
positions and scripts are left as they are:

* `Metadata.pathOf`: the nested path of a predicate.
* `isPositional`, `isLoose`: phrases that become conditions on word positions, and predicates that are
  never put below a nested fragment of their own.
* `Wrapped`, `leaf_routed`: what becomes of all other predicates, and that there are no more cases. -/

namespace LinkedSearch

open Query (Kind Label NodeId Tree)
open Schema (Mapping)

/-- **Nested path of a predicate**: its own, or else the one that its field lives in. -/
def Metadata.pathOf (resolver : Resolver) (md : Metadata) (label : Label) :
    Except Error (Option String) :=
  match label.nestedPath, label.field with
  | some path, _ => .ok (some path)
  | none, none => .ok none
  | none, some field => (md.ownerMapping resolver field).map (·.nestedPath? field)

/-- Growth does not change the nested path of a predicate. -/
theorem Metadata.Grows.pathOf_eq {resolver : Resolver} {md md' : Metadata} (h : md.Grows resolver md')
    (label : Label) : md'.pathOf resolver label = md.pathOf resolver label := by
  unfold Metadata.pathOf
  split
  · rfl
  · rfl
  · rw [h.ownerMapping_eq]

namespace Compile

variable {α β : Type} {env : Environment} {base p q s t : Progress} {n : Nat} {label : Label}
  {F : Fragment}

/-! ## Outcomes of timeless computations -/

/-- A sequence of timeless computations succeeds if both succeed in the state it starts in. -/
theorem Timeless.bind_ok {x : Compile β} {f : β → Compile α} {a : α} (hx : Timeless env x p)
    (hf : ∀ b, Timeless env (f b) p) :
    (exec (x >>= f) p).1 = .ok a ↔ ∃ b, (exec x p).1 = .ok b ∧ (exec (f b) p).1 = .ok a := by
  obtain ⟨-, hdrift⟩ := hx p (.refl p)
  rw [exec_bind]
  rcases hxp : exec x p with ⟨e | b, p'⟩
  · exact ⟨fun h => absurd h (by simp), fun ⟨b, hb, _⟩ => absurd hb (by simp)⟩
  · rw [hxp] at hdrift
    have hsame := (hf b p' hdrift).1
    constructor
    · exact fun h => ⟨b, rfl, hsame.symm.trans h⟩
    · rintro ⟨b', hb', h⟩
      obtain rfl := Except.ok.inj hb'
      exact hsame.trans h

/-- A loop of timeless computations succeeds if all of them succeed in the state it starts in. -/
theorem Timeless.mapM_ok {γ : Type} {f : γ → Compile α} {l : List γ} {as : List α}
    (h : ∀ c ∈ l, Timeless env (f c) p) (hall : (exec (l.mapM f) p).1 = .ok as) :
    List.Forall₂ (fun c a => (exec (f c) p).1 = .ok a) l as := by
  induction l generalizing as with
  | nil =>
    obtain rfl : [] = as := Except.ok.inj hall
    exact .nil
  | cons c l ih =>
    have hrest : ∀ d ∈ l, Timeless env (f d) p := fun d hd => h d (List.mem_cons_of_mem c hd)
    rw [List.mapM_cons] at hall
    obtain ⟨a, ha, hall⟩ := (Timeless.bind_ok (h c List.mem_cons_self) fun a =>
      (Timeless.mapM hrest).bind fun as => .pure (a :: as)).mp hall
    obtain ⟨as', has, hpure⟩ := (Timeless.bind_ok (Timeless.mapM hrest) fun as => .pure (a :: as)).mp hall
    obtain rfl := Except.ok.inj hpure
    exact .cons ha (ih hrest has)

/-- Computations that agree in peers with the same facts are timeless. -/
theorem Timeless.of_peers {x : Compile α} (hp : Sound env p)
    (h : ∀ s, Peers env s p → (∀ label, SameFacts env s p label) → Agrees env x x s p) :
    Timeless env x p :=
  .of_agrees fun s hs => h s (hs.facing hp).1 (hs.facing hp).2

/-! ## Loose predicates -/

/-- The tokens of a phrase, if its field can be looked up and it can be analyzed. -/
def tokens? (env : Environment) (md : Metadata) (label : Label) : Option (List (List Char)) := do
  let mapping ← (md.ownerMapping env.resolver label.fieldName).toOption
  let tokens ← (env.analyzer label.fieldName (mapping.type? label.fieldName)
    (String.ofList (Query.Phrase.mark label.sourceText.toList))).toOption
  return (tokens.map fun token => Query.Phrase.unmark token.toList).filter (· ≠ ['\\'])

/-- **Positional phrases** have several words, of which the distance or the order matters or one stands
for many. -/
def isPositional (env : Environment) (md : Metadata) (label : Label) : Bool :=
  label.kind.isPhrase && label.operator != .regex && (tokens? env md label).any fun tokens =>
    decide (2 ≤ tokens.length) && (decide (0 < (phraseDistance label.kind).1) ||
      !(phraseDistance label.kind).2 || tokens.any Query.Phrase.isMultiTerm)

/-- **Loose predicates** are never put below a nested fragment of their own: scripts and positional
phrases. -/
def isLoose (env : Environment) (md : Metadata) (label : Label) : Bool :=
  (match label.kind with
    | .script _ => true
    | _ => false) || isPositional env md label

end Compile

/-- **Loose pieces**: those of loose predicates, and everything below a proximity. -/
def Piece.isLoose (env : Environment) (md : Metadata) (piece : Piece) : Bool :=
  piece.near || Compile.isLoose env md piece.leaf

namespace Compile

variable {α β : Type} {env : Environment} {base p q s t : Progress} {n : Nat} {label : Label}
  {F : Fragment}

/-! ## Wrapped predicates -/

/-- **Wrapping**: the conditions of a compiled predicate lie below its nested path, outside of scopes;
the filter of an aggregate admits everything that has no nested path. -/
structure Wrapped (env : Environment) (p : Progress) (label : Label) (F : Fragment) : Prop where
  paths : ∀ x ∈ F.primitives, ∃ path, p.metadata.pathOf env.resolver label = .ok path ∧
    x.1 = if p.scopeDepth = 0 then path.toList else []
  admitted : p.aggregating = true → p.metadata.pathOf env.resolver label = .ok none →
    F.isMatchAll = true

namespace Wrapped

theorem matchAll : Wrapped env p label (.matchAll none) :=
  ⟨fun _ hx => absurd hx (by simp [Fragment.primitives]), fun _ _ => rfl⟩

/-- It depends on the mode, on what is known of the field, and on whether there is a scope around. -/
theorem congr (h : Wrapped env q label F) (hgrows : p.metadata.Grows env.resolver q.metadata)
    (hmode : q.aggregating = p.aggregating) (hscope : q.scopeDepth = 0 ↔ p.scopeDepth = 0) :
    Wrapped env p label F := by
  obtain ⟨hpaths, hadmitted⟩ := h
  rw [hgrows.pathOf_eq] at hpaths hadmitted
  rw [hmode] at hadmitted
  simp only [hscope] at hpaths
  exact ⟨hpaths, hadmitted⟩

/-- What is looked up changes nothing about it. -/
theorem looked (h : Wrapped env q label F) (hlooked : Looked env p q) : Wrapped env p label F := by
  obtain ⟨md, hgrows, rfl⟩ := hlooked
  exact h.congr hgrows rfl .rfl

/-- The word of a phrase has the path of the phrase. -/
theorem token {token : List Char} (h : Wrapped env p (Query.Phrase.tokenLabel label token) F) :
    Wrapped env p label F :=
  ⟨h.paths, h.admitted⟩

/-- A boost changes nothing about it. -/
theorem weighted (h : Wrapped env p label F) (boost : Boost) :
    Wrapped env p label (F.weighted boost) where
  paths := (Fragment.forall_paths_weighted boost (P := fun paths => ∃ path,
    p.metadata.pathOf env.resolver label = .ok path ∧
      paths = if p.scopeDepth = 0 then path.toList else [])).mpr h.paths
  admitted := fun hfilter hpath => by
    rw [Fragment.isMatchAll_weighted]
    exact h.admitted hfilter hpath

end Wrapped

/-- The words of phrases are words, prefixes, patterns, or fuzzy. -/
theorem tokenKind_sorts (token : List Char) :
    (∃ value, Query.Phrase.tokenKind token = .word value) ∨
      (∃ text, Query.Phrase.tokenKind token = .leading text) ∨
      (∃ pattern, Query.Phrase.tokenKind token = .wildcard pattern) ∨
      ∃ text fuzziness, Query.Phrase.tokenKind token = .fuzzy text fuzziness := by
  have hplain : (∃ value, Query.Phrase.plainKind token = .word value) ∨
      (∃ text, Query.Phrase.plainKind token = .leading text) ∨
      ∃ pattern, Query.Phrase.plainKind token = .wildcard pattern := by
    unfold Query.Phrase.plainKind
    split
    · exact .inl ⟨_, rfl⟩
    · split
      · exact .inr (.inl ⟨_, rfl⟩)
      · exact .inr (.inr ⟨_, rfl⟩)
    · exact .inr (.inr ⟨_, rfl⟩)
  unfold Query.Phrase.tokenKind
  split
  · split
    · exact .inr (.inr (.inr ⟨_, _, rfl⟩))
    · exact hplain.imp_right fun h => h.imp_right .inl
  · exact hplain.imp_right fun h => h.imp_right .inl

/-- So they are no scripts. -/
theorem tokenKind_ne_script (token : List Char) (source : String) :
    Query.Phrase.tokenKind token ≠ .script source := by
  rcases tokenKind_sorts token with ⟨_, h⟩ | ⟨_, h⟩ | ⟨_, h⟩ | ⟨_, _, h⟩ <;> rw [h] <;> simp

section Predicates

variable (hp : Sound env p)

include hp

/-- The nested path of a predicate is looked up. -/
theorem exec_nestedPathOf (label : Label) : ∃ q, exec (nestedPathOf env label) p =
    (p.metadata.pathOf env.resolver label, q) ∧ Looked env p q := by
  unfold nestedPathOf Metadata.pathOf
  cases label.nestedPath with
  | some path => exact ⟨p, rfl, .refl p⟩
  | none =>
    cases label.field with
    | none => exact ⟨p, rfl, .refl p⟩
    | some field =>
      obtain ⟨q, hexec, hlooked⟩ := exec_mappingOf hp field
      refine ⟨q, ?_, hlooked⟩
      simp only
      rw [exec_bind, hexec]
      cases p.metadata.ownerMapping env.resolver field <;> rfl

/-- A flat fragment is put below the nested path of its predicate. -/
theorem nest_wrapped {G : Fragment} (hG : G.IsFlat) (h : (exec (nest env label G) p).1 = .ok F) :
    Wrapped env p label F := by
  obtain ⟨_, hexec, md, -, rfl⟩ := exec_nestedPathOf hp label
  unfold nest at h
  rw [exec_bind, hexec] at h
  rcases hpath : p.metadata.pathOf env.resolver label with error | path
  · rw [hpath] at h
    exact absurd h (by simp)
  rw [hpath] at h
  cases path with
  | none =>
    have hF : (if p.aggregating then Fragment.matchAll none else G) = F := Except.ok.inj h
    refine ⟨fun x hx => ⟨none, hpath, ?_⟩, fun hfilter _ => ?_⟩
    · rw [← hF] at hx
      split at hx
      · exact absurd hx (by simp [Fragment.primitives])
      · rw [hG x hx]
        split <;> rfl
    · rw [← hF, if_pos hfilter]
      rfl
  | some path =>
    refine ⟨fun x hx => ⟨some path, hpath, ?_⟩, fun _ hnone => absurd (hpath.symm.trans hnone) (by simp)⟩
    have h : (exec (if p.scopeDepth = 0 then _ else _) { p with metadata := md }).1 = .ok F := h
    split at h
    · next hzero =>
      obtain rfl := Except.ok.inj h
      rw [Fragment.primitives] at hx
      obtain ⟨y, hy, rfl⟩ := List.mem_map.mp hx
      rw [if_pos hzero, hG y hy]
      rfl
    · next hdepth =>
      rw [if_neg hdepth]
      -- inside of a scope a predicate is left as it is, or contradicts the scope
      split at h
      · split at h
        · obtain rfl := Except.ok.inj h
          exact hG x hx
        · exact absurd h (by simp [exec])
      · obtain rfl := Except.ok.inj h
        exact hG x hx

theorem nest_timeless (label : Label) (G : Fragment) : Timeless env (nest env label G) p :=
  .of_peers hp fun _ hs hfacts => nest_agrees hs (hfacts label) G

theorem standard_timeless (label : Label) (G : Fragment) : Timeless env (standard env label G) p :=
  .of_peers hp fun _ hs hfacts => standard_agrees hs (hfacts label) G

/-- The similarity to a text is flat. -/
theorem isFlat_similarity (h : (exec (similarity env label) p).1 = .ok F) : F.IsFlat := by
  obtain ⟨q, hexec, -⟩ := exec_mappingOf hp label.fieldName
  unfold similarity at h
  simp only at h
  rw [exec_bind, hexec] at h
  rcases hmapping : p.metadata.ownerMapping env.resolver label.fieldName with error | mapping
  · rw [hmapping] at h
    exact absurd h (by simp)
  · rw [hmapping] at h
    obtain rfl := Except.ok.inj h
    exact Fragment.isFlat_of_primitives rfl

/-- **The condition for an operator** is wrapped. -/
theorem standard_wrapped {G : Fragment} (hG : G.IsFlat)
    (h : (exec (standard env label G) p).1 = .ok F) : Wrapped env p label F := by
  unfold standard at h
  simp only at h
  split at h
  case h_9 hoperator =>
    have hsimilarity : Timeless env (similarity env label) p :=
      .of_peers hp fun _ hs hfacts => similarity_agrees hs (hfacts label) hoperator
    obtain ⟨G', hG', h⟩ := (hsimilarity.bind_ok fun G => nest_timeless hp label G).mp h
    exact nest_wrapped hp (isFlat_similarity hp hG') h
  case h_10 => exact absurd h (by simp [exec])
  case h_3 => exact nest_wrapped hp hG.not h
  case h_1 | h_2 => exact nest_wrapped hp hG h
  all_goals exact nest_wrapped hp (Fragment.isFlat_of_primitives rfl) h

/-- A checked operator, and then the condition for it. -/
theorem validated_wrapped {G : Fragment} (hG : G.IsFlat)
    (h : (exec (do validateOperator label; standard env label G) p).1 = .ok F) :
    Wrapped env p label F := by
  have hvalidate : Timeless env (validateOperator label) p :=
    .of_peers hp fun _ _ _ => validateOperator_agrees
  obtain ⟨_, -, h⟩ := (hvalidate.bind_ok fun _ => standard_timeless hp label G).mp h
  exact standard_wrapped hp hG h

/-- **A predicate that is neither a phrase nor a script** is wrapped, unless it asks for the primary key,
which is always there. -/
theorem plainLeaf_wrapped (hscript : ∀ source, label.kind ≠ .script source)
    (h : (exec (plainLeaf env label) p).1 = .ok F) : Wrapped env p label F := by
  unfold plainLeaf at h
  simp only at h
  split at h
  case h_1 => exact standard_wrapped hp (Fragment.isFlat_of_primitives rfl) h
  case h_2 => exact standard_wrapped hp (Fragment.isFlat_of_primitives rfl) h
  -- the key itself is never absent; every other field is tested for
  case h_9 hkind =>
    have hrest : ∀ mapping : Mapping, Timeless env
        (if mapping.primaryKey.map Char.toLower = label.fieldName.map Char.toLower then
          return Fragment.matchAll none
        else do
          validateOperator label
          standard env label (.present label.fieldName)) p := by
      intro mapping
      split
      · exact .pure _
      · exact .of_peers hp fun _ hs hfacts => validated_agrees hs (hfacts label) _
    obtain ⟨mapping, -, h⟩ := ((mappingOf_timeless hp _).bind_ok hrest).mp h
    split at h
    · obtain rfl := Except.ok.inj h
      exact .matchAll
    · exact validated_wrapped hp (Fragment.isFlat_of_primitives rfl) h
  -- the values of an array are found under its key, after the operator has been validated
  case h_11 =>
    have hvalidate : Timeless env (validateOperator label) p :=
      .of_peers hp fun _ _ _ => validateOperator_agrees
    have hdata : ∀ key, Timeless env (arrayData key) p := fun key =>
      .of_peers hp fun _ hs _ => arrayData_agrees hs key
    have hrest : ∀ values : List String, Timeless env
        (standard env label (.terms label.fieldName (values.map .str) none none)) p := fun values =>
      standard_timeless hp label _
    obtain ⟨_, -, h⟩ := (hvalidate.bind_ok fun _ => (hdata _).bind hrest).mp h
    obtain ⟨values, -, h⟩ := ((hdata _).bind_ok hrest).mp h
    exact standard_wrapped hp (Fragment.isFlat_of_primitives rfl) h
  case h_12 source hkind => exact absurd hkind (hscript source)
  case h_13 => exact absurd h (by simp [exec])
  all_goals exact validated_wrapped hp (Fragment.isFlat_of_primitives rfl) h

/-! ## Phrases -/

/-- The tokens of a phrase are those that its field and the analyzer give. -/
theorem tokens?_of_exec {tokens : List (List Char)}
    (h : (exec (phraseTokens env label) p).1 = .ok tokens) :
    tokens? env p.metadata label = some tokens := by
  obtain ⟨q, hexec, -⟩ := exec_mappingOf hp label.fieldName
  unfold phraseTokens at h
  simp only at h
  rw [exec_bind, hexec] at h
  unfold tokens?
  rcases hmapping : p.metadata.ownerMapping env.resolver label.fieldName with error | mapping
  · rw [hmapping] at h
    exact absurd h (by simp)
  rw [hmapping] at h
  simp only at h
  rcases hanalyzed : env.analyzer label.fieldName (mapping.type? label.fieldName)
    (String.ofList (Query.Phrase.mark label.sourceText.toList)) with error | analyzed
  · rw [hanalyzed] at h
    have h : (Except.error error : Except Error (List (List Char))) = .ok tokens := h
    exact absurd h (by simp)
  · rw [hanalyzed] at h
    obtain rfl := Except.ok.inj h
    simp [hanalyzed, Except.toOption]

/-- Whether a phrase is positional is decided by its tokens. -/
theorem isPositional_of_exec {tokens : List (List Char)} (hkind : label.kind.isPhrase = true)
    (hregex : label.operator ≠ .regex) (h : (exec (phraseTokens env label) p).1 = .ok tokens) :
    isPositional env p.metadata label = (decide (2 ≤ tokens.length) &&
      (decide (0 < (phraseDistance label.kind).1) || !(phraseDistance label.kind).2 ||
        tokens.any Query.Phrase.isMultiTerm)) := by
  unfold isPositional
  rw [hkind, tokens?_of_exec hp h]
  simp [bne, hregex]

/-- **How a predicate is compiled**: it is loose and flat, or wrapped. -/
inductive Routed (env : Environment) (p : Progress) (label : Label) (F : Fragment) : Prop where
  | loose (hloose : isLoose env p.metadata label = true) (hflat : F.IsFlat)
      (hopen : F.isMatchAll = false)
  | wrapped (hwrapped : isLoose env p.metadata label = false) (h : Wrapped env p label F)

omit hp in
/-- A predicate that is neither a positional phrase nor a script is not loose. -/
theorem isLoose_eq_false (env : Environment) (md : Metadata) {label : Label}
    (hscript : ∀ source, label.kind ≠ .script source) (hphrase : isPositional env md label = false) :
    isLoose env md label = false := by
  unfold isLoose
  rw [hphrase, Bool.or_false]
  split
  · next source hkind => exact absurd hkind (hscript source)
  · rfl

/-- **Phrases**: positional ones are loose. -/
theorem phrase_routed (hkind : label.kind.isPhrase = true)
    (h : (exec (phrase env label) p).1 = .ok F) : Routed env p label F := by
  have hscript : ∀ source, label.kind ≠ .script source := by
    intro source heq
    rw [heq] at hkind
    exact absurd hkind (by simp [Kind.isPhrase])
  have hplain : ∀ {q : Progress} {G : Fragment}, Looked env p q → G.primitives = [([], G)] →
      isPositional env p.metadata label = false → (exec (standard env label G) q).1 = .ok F →
      Routed env p label F := fun hq hG hwords h =>
    .wrapped (isLoose_eq_false env _ hscript hwords)
      ((standard_wrapped (hq.evolves hp).sound (Fragment.isFlat_of_primitives hG) h).looked hq)
  unfold phrase at h
  simp only at h
  split at h
  · next hregex =>
    refine hplain (.refl p) rfl ?_ h
    simp [isPositional, hregex]
  next hregex =>
  have hlooks : Looks env (phraseTokens env label) p :=
    .of_agrees (phraseTokens_agrees (Sound.peers hp) rfl hkind)
  obtain ⟨outcome, q, hexec, hlooked⟩ := hlooks
  rw [exec_bind, hexec] at h
  rcases outcome with error | tokens
  · exact absurd h (by simp)
  have hpositional := isPositional_of_exec hp hkind hregex (congrArg Prod.fst hexec)
  simp only at h
  split at h
  · exact hplain hlooked rfl (by rw [hpositional]; rfl) h
  · next token =>
    have hsingle : isPositional env p.metadata label = false := by rw [hpositional]; rfl
    split at h
    · -- the only token has the field and the path of the phrase
      have htoken : ∀ source, (Query.Phrase.tokenLabel label token).kind ≠ .script source :=
        fun source => tokenKind_ne_script token source
      exact .wrapped (isLoose_eq_false env _ hscript hsingle)
        ((plainLeaf_wrapped (hlooked.evolves hp).sound htoken h).token.looked hlooked)
    · exact hplain hlooked rfl hsingle h
  · next hnil hsingle =>
    have hmany : 2 ≤ tokens.length := by
      rcases tokens with _ | ⟨first, _ | ⟨second, rest⟩⟩
      · exact absurd rfl hnil
      · exact absurd rfl (hsingle first)
      · simp
    split at h
    · next hwords =>
      have hloose : isLoose env p.metadata label = true := by
        unfold isLoose
        rw [hpositional, hwords, decide_eq_true hmany, Bool.and_self, Bool.or_true]
      rw [exec_bind] at h
      rcases hclauses : exec (tokens.mapM fun token => spanOfLeaf label.operator label.fieldName
        (Query.Phrase.tokenLabel label token)) q with ⟨error | clauses, s⟩
      · rw [hclauses] at h
        exact absurd h (by simp)
      · rw [hclauses] at h
        obtain rfl := Except.ok.inj h
        exact .loose hloose (Fragment.isFlat_span _) rfl
    · next hwords =>
      refine hplain hlooked rfl ?_ h
      rw [hpositional, Bool.eq_false_iff.mpr hwords, Bool.and_false]

/-- **Predicates** are loose, or wrapped. -/
theorem leaf_routed (h : (exec (leaf env label) p).1 = .ok F) : Routed env p label F := by
  unfold leaf at h
  split at h
  · next hkind => exact phrase_routed hp (by rw [hkind]; rfl) h
  · next hphrase =>
    have hwords : isPositional env p.metadata label = false := by
      unfold isPositional
      cases hk : label.kind with
      | phrase text escaped distance ordered => exact absurd hk (hphrase text escaped distance ordered)
      | _ => rfl
    by_cases hscript : ∃ source, label.kind = .script source
    · obtain ⟨source, hsource⟩ := hscript
      unfold plainLeaf at h
      rw [hsource] at h
      obtain rfl := Except.ok.inj h
      refine .loose ?_ (Fragment.isFlat_of_primitives rfl) rfl
      simp [isLoose, hsource]
    · have hscript : ∀ source, label.kind ≠ .script source := fun source heq => hscript ⟨source, heq⟩
      exact .wrapped (isLoose_eq_false env _ hscript hwords) (plainLeaf_wrapped hp hscript h)

end Predicates

end Compile

end LinkedSearch
