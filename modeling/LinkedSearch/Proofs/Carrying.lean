import Mathlib.Data.List.Forall2
import LinkedSearch.Proofs.Outcome
import LinkedSearch.Proofs.Unweighted

/-! # Compilations in changed states

A compilation may be started in a state that was changed in a way that does not concern it much: then it
does what it would have done without the change, and the change can as well be made afterwards.

* `Carries`: two computations, one started in a state and one in the changed state, have related results
  or the same error, and leave states that differ by the same change.
* `Carries.bind`, `Carries.mapM`, `Carries.within`, …: the statements of a computation one by one.
* `Spares`: changes that lookups do not notice.
* `leaf_carries`: a compiled predicate is as it was up to what happens where it is put below its nested
  path. -/

namespace LinkedSearch

open Query (Label NodeId)

namespace Compile

variable {α β γ δ : Type} {change : Progress → Progress} {p : Progress}

/-- **Carrying** a change of the state over from the start of a computation to its end. -/
def Carries (change : Progress → Progress) (R : α → β → Prop) (x : Compile α) (y : Compile β)
    (p : Progress) : Prop :=
  wp x (fun a q => ∃ b, exec y (change p) = (.ok b, change q) ∧ R a b)
    (fun e q => exec y (change p) = (.error e, change q)) p

/-- The same result, which has a property. -/
def Kept (P : α → Prop) (a b : α) : Prop := P a ∧ a = b

/-- The same results, each of which has a property. -/
theorem forall₂_kept {P : α → Prop} {l l' : List α} :
    List.Forall₂ (Kept P) l l' ↔ (∀ a ∈ l, P a) ∧ l = l' := by
  unfold Kept
  rw [List.forall₂_and_left, List.forall₂_eq_eq_eq]

namespace Carries

variable {R : α → β → Prop} {S : γ → δ → Prop}

theorem pure {a : α} {b : β} (h : R a b) : Carries change R (pure a) (pure b) p := ⟨b, rfl, h⟩

theorem throw (e : Error) : Carries change R (throw e) (throw e) p := rfl

theorem ofExcept {outcome : Except Error α} {R : α → α → Prop} (h : ∀ a, outcome = .ok a → R a a) :
    Carries change R (ofExcept outcome) (Compile.ofExcept outcome) p := by
  cases outcome with
  | error e => exact throw e
  | ok a => exact pure (h a rfl)

/-- A weaker relation of the results. -/
theorem mono {R' : α → β → Prop} {x : Compile α} {y : Compile β} (h : Carries change R x y p)
    (hR : ∀ a b, R a b → R' a b) : Carries change R' x y p :=
  wp_mono h (fun a _ ⟨b, hb, hab⟩ => ⟨b, hb, hR a b hab⟩) fun _ _ he => he

/-- **Sequences**: what comes next is started in states that differ by the change again. -/
theorem bind {x : Compile α} {y : Compile β} {f : α → Compile γ} {g : β → Compile δ}
    (hx : Carries change R x y p) (hf : ∀ a b q, R a b → Carries change S (f a) (g b) q) :
    Carries change S (x >>= f) (y >>= g) p := by
  unfold Carries at hx ⊢
  rw [wp_bind]
  refine wp_mono hx (fun a q ⟨b, hy, hab⟩ => ?_) fun e q hy => ?_
  · have hnext : Carries change S (f a) (g b) q := hf a b q hab
    unfold Carries at hnext
    rw [exec_bind, hy]
    exact hnext
  · rw [exec_bind, hy]

/-- Sequences whose first parts have the same result. -/
theorem bindSame {x y : Compile α} {f : α → Compile γ} {g : α → Compile δ} (hx : Carries change Eq x y p)
    (hf : ∀ a q, Carries change S (f a) (g a) q) : Carries change S (x >>= f) (y >>= g) p :=
  hx.bind fun a _ q hsame => hsame ▸ hf a q

/-- Computations that start with a look at the state. -/
theorem get {f : Progress → Compile γ} {g : Progress → Compile δ}
    (h : Carries change S (f p) (g (change p)) p) :
    Carries change S (get >>= f) (MonadState.get >>= g) p := h

/-- Computations that look at nothing in the state that is changed. -/
theorem getSame {f : Progress → Compile γ} {S : γ → γ → Prop} (hsame : f (change p) = f p)
    (h : Carries change S (f p) (f p) p) : Carries change S (MonadState.get >>= f) (MonadState.get >>= f) p :=
  get (hsame ▸ h)

/-- Computations that start with a look at the arena. -/
theorem arena {f : Query.Arena → Compile γ} {g : Query.Arena → Compile δ}
    (h : Carries change S (f p.draft.arena) (g (change p).draft.arena) p) :
    Carries change S (arena >>= f) (Compile.arena >>= g) p := h

/-- Computations that start with the label of a node. -/
theorem labelOf {n : NodeId} {f : Label → Compile γ} {g : Label → Compile δ}
    (h : Carries change S (f (p.draft.arena.label n)) (g ((change p).draft.arena.label n)) p) :
    Carries change S (labelOf n >>= f) (Compile.labelOf n >>= g) p := h

/-- Computations that start with the children of a node. -/
theorem childrenOf {n : NodeId} {f : List NodeId → Compile γ} {g : List NodeId → Compile δ}
    (h : Carries change S (f (p.draft.arena.children n)) (g ((change p).draft.arena.children n)) p) :
    Carries change S (childrenOf n >>= f) (Compile.childrenOf n >>= g) p := h

/-- A further change of the state. -/
theorem modify {f g : Progress → Progress} (h : g (change p) = change (f p)) :
    Carries change Eq (modify f : Compile PUnit) (modify g : Compile PUnit) p :=
  ⟨⟨⟩, congrArg (Except.ok PUnit.unit, ·) h, rfl⟩

/-- **Scopes** that are entered and left alike. -/
theorem within {x : Compile α} {y : Compile β} {enter leave enter' leave' : Progress → Progress}
    (henter : enter' (change p) = change (enter p))
    (hleave : ∀ q, leave' (change q) = change (leave q)) (hx : Carries change R x y (enter p)) :
    Carries change R (within enter leave x) (Compile.within enter' leave' y) p := by
  have hwithin : exec (Compile.within enter' leave' y) (change p) =
      ((exec y (enter' (change p))).1, leave' (exec y (enter' (change p))).2) := rfl
  unfold Carries at hx ⊢
  rw [wp_within, hwithin, henter]
  refine wp_mono hx (fun a q ⟨b, hy, hab⟩ => ⟨b, ?_, hab⟩) fun e q hy => ?_
  · rw [hy, ← hleave]
  · rw [hy, ← hleave]

/-- **Loops** over the same list. -/
theorem mapM {ι : Type} {f : ι → Compile α} {g : ι → Compile β} {l : List ι}
    (h : ∀ i ∈ l, ∀ q, Carries change R (f i) (g i) q) :
    Carries change (List.Forall₂ R) (l.mapM f) (l.mapM g) p := by
  induction l generalizing p with
  | nil => exact pure .nil
  | cons i l ih =>
    rw [List.mapM_cons, List.mapM_cons]
    refine (h i List.mem_cons_self p).bind fun a b q hab => ?_
    refine (ih fun j hj => h j (List.mem_cons_of_mem i hj)).bind fun as bs _ hall => ?_
    exact pure (.cons hab hall)

/-- Loops over the same list for their effect. -/
theorem forM {ι : Type} {f g : ι → Compile PUnit} {l : List ι}
    (h : ∀ i ∈ l, ∀ q, Carries change Eq (f i) (g i) q) :
    Carries change Eq (l.forM f) (l.forM g) p := by
  induction l generalizing p with
  | nil => exact pure rfl
  | cons i l ih =>
    show Carries change Eq (f i >>= fun _ => l.forM f) (g i >>= fun _ => l.forM g) p
    exact (h i List.mem_cons_self p).bind fun _ _ _ _ => ih fun j hj => h j (List.mem_cons_of_mem i hj)

/-- Folds over the same list. -/
theorem foldlM {ι : Type} {f : α → ι → Compile α} {g : β → ι → Compile β} {l : List ι} {a : α} {b : β}
    (hab : R a b) (h : ∀ i ∈ l, ∀ a b q, R a b → Carries change R (f a i) (g b i) q) :
    Carries change R (l.foldlM f a) (l.foldlM g b) p := by
  induction l generalizing a b p with
  | nil => exact pure hab
  | cons i l ih =>
    rw [List.foldlM_cons, List.foldlM_cons]
    exact (h i List.mem_cons_self a b p hab).bind fun a' b' q hab' =>
      ih hab' fun j hj => h j (List.mem_cons_of_mem i hj)

end Carries

/-! ## Lookups -/

/-- **Sparing** what lookups read: the metadata and the blocks of values beside the query. -/
structure Spares (change : Progress → Progress) : Prop where
  metadata : ∀ p, (change p).metadata = p.metadata
  looked : ∀ p md, change { p with metadata := md } = { change p with metadata := md }
  arrayData : ∀ p, (change p).draft.arrayData = p.draft.arrayData

section Lookups

variable {env : Environment} (h : Spares change)

include h

/-- Lookups have the answers that they had. -/
theorem look_carries (lookup : Lookup α) (p : Progress) :
    Carries change Eq (look lookup) (look lookup) p := by
  unfold Carries
  rw [wp, exec_look, exec_look, h.metadata, ← h.looked]
  rcases exec lookup p.metadata with ⟨e | a, md⟩
  · rfl
  · exact ⟨a, rfl, rfl⟩

theorem nestedPathOf_carries (label : Label) (p : Progress) :
    Carries change Eq (nestedPathOf env label) (nestedPathOf env label) p := by
  unfold nestedPathOf
  split
  · exact .pure rfl
  · exact .pure rfl
  · refine (look_carries h _ p).bind fun mapping _ q hsame => ?_
    exact .pure (by rw [hsame])

theorem sharePath_carries (shared : Option String) (label : Label) (p : Progress) :
    Carries change Eq (sharePath env shared label) (sharePath env shared label) p := by
  unfold sharePath
  refine (nestedPathOf_carries h label p).bind fun path _ q hsame => ?_
  subst hsame
  split
  · exact .pure rfl
  · exact .pure rfl
  · split
    · exact .pure rfl
    · exact .throw _

theorem phraseTokens_carries (label : Label) (p : Progress) :
    Carries change Eq (phraseTokens env label) (phraseTokens env label) p := by
  unfold phraseTokens
  refine (look_carries h _ p).bind fun mapping _ q hsame => ?_
  subst hsame
  refine (Carries.ofExcept fun _ _ => rfl).bind fun tokens _ r hsame => ?_
  exact .pure (by rw [hsame])

theorem arrayData_carries (key : String) (p : Progress) :
    Carries change Eq (arrayData key) (arrayData key) p := by
  unfold arrayData
  refine .getSame (by rw [h.arrayData]) ?_
  split
  · exact .pure rfl
  · exact .throw _

/-- The similarity to a text, which has no boost. -/
theorem similarity_carries (label : Label) (p : Progress) :
    Carries change (Kept Fragment.IsUnweighted) (similarity env label) (similarity env label) p := by
  unfold similarity
  refine (look_carries h _ p).bind fun mapping _ q hsame => ?_
  subst hsame
  exact .pure ⟨rfl, rfl⟩

end Lookups

/-! ## Predicates -/

theorem validateOperator_carries (label : Label) (p : Progress) :
    Carries change Eq (validateOperator label) (validateOperator label) p := by
  unfold validateOperator
  split
  · exact .pure rfl
  · exact .pure rfl
  · exact .pure rfl
  · exact .throw _

/-- The clauses for single words have no boosts. -/
theorem spanOfLeaf?_isUnweighted {outer : Query.Operator} {field : String} {label : Label} {clause : Span}
    (h : spanOfLeaf? outer field label = some clause) : clause.unweighted = clause := by
  unfold spanOfLeaf? at h
  split at h
  · split at h
    all_goals
      obtain rfl := Option.some.inj h
      rfl
  case h_9 => exact absurd h (by simp)
  all_goals
    obtain rfl := Option.some.inj h
    rfl

theorem spanOfLeaf_carries (outer : Query.Operator) (field : String) (label : Label) (p : Progress) :
    Carries change (Kept fun clause => clause.unweighted = clause) (spanOfLeaf outer field label)
      (spanOfLeaf outer field label) p := by
  unfold spanOfLeaf
  split
  · next clause hclause => exact .pure ⟨spanOfLeaf?_isUnweighted hclause, rfl⟩
  · exact .throw _

section Leaf

variable {env : Environment} {S : Fragment → Fragment → Prop} (h : Spares change)
  (hnest : ∀ (label : Label) (base : Fragment) (p : Progress), base.IsUnweighted →
    Carries change S (nest env label base) (nest env label base) p)

include h hnest

theorem standard_carries (label : Label) {base : Fragment} (hbase : base.IsUnweighted) (p : Progress) :
    Carries change S (standard env label base) (standard env label base) p := by
  unfold standard
  simp only
  split
  case h_9 =>
    refine (similarity_carries h label p).bind fun fragment _ q hkept => ?_
    obtain ⟨hplain, rfl⟩ := hkept
    exact hnest label fragment q hplain
  case h_10 => exact .throw _
  case h_3 => exact hnest label _ p hbase.not
  case h_1 | h_2 => exact hnest label _ p hbase
  all_goals exact hnest label _ p (by exact rfl)

/-- A checked operator, and then the condition for it. -/
theorem validated_carries (label : Label) {base : Fragment} (hbase : base.IsUnweighted)
    (p : Progress) :
    Carries change S (do validateOperator label; standard env label base)
      (do validateOperator label; standard env label base) p :=
  (validateOperator_carries label p).bind fun _ _ q _ => standard_carries h hnest label hbase q

variable (hkept : ∀ base : Fragment, base.IsUnweighted → S base base)

include hkept

/-- **Predicates that are no phrases.** -/
theorem plainLeaf_carries (label : Label) (p : Progress) :
    Carries change S (plainLeaf env label) (plainLeaf env label) p := by
  unfold plainLeaf
  simp only
  split
  case h_1 | h_2 => exact standard_carries h hnest label (by exact rfl) p
  case h_9 =>
    refine (look_carries h _ p).bind fun mapping _ q hsame => ?_
    subst hsame
    split
    · exact .pure (hkept _ rfl)
    · exact validated_carries h hnest label (by exact rfl) q
  case h_11 key _ =>
    refine (validateOperator_carries label p).bind fun _ _ q _ => ?_
    refine (arrayData_carries h key q).bind fun values _ r hsame => ?_
    subst hsame
    exact standard_carries h hnest label (by exact rfl) r
  case h_12 => exact .pure (hkept _ rfl)
  case h_13 => exact .throw _
  all_goals exact validated_carries h hnest label (by exact rfl) p

/-- **Phrases.** -/
theorem phrase_carries (label : Label) (p : Progress) :
    Carries change S (phrase env label) (phrase env label) p := by
  unfold phrase
  simp only
  split
  · exact standard_carries h hnest label (by exact rfl) p
  refine (phraseTokens_carries h label p).bind fun tokens _ q hsame => ?_
  subst hsame
  split
  · exact standard_carries h hnest label (by exact rfl) q
  · split
    · exact plainLeaf_carries h hnest hkept _ q
    · exact standard_carries h hnest label (by exact rfl) q
  · split
    · refine (Carries.mapM fun token _ r => spanOfLeaf_carries _ _ _ r).bind fun clauses _ r hall => ?_
      obtain ⟨hplain, rfl⟩ := forall₂_kept.mp hall
      refine .pure (hkept _ ?_)
      simp [Fragment.IsUnweighted, Fragment.unweighted, Span.unweighted, List.map_congr_left hplain]
    · exact standard_carries h hnest label (by exact rfl) q

/-- **Compiled predicates** are as they were, up to what becomes of a condition when it is put below
its nested path. -/
theorem leaf_carries (label : Label) (p : Progress) :
    Carries change S (leaf env label) (leaf env label) p := by
  unfold leaf
  split
  · exact phrase_carries h hnest hkept label p
  · exact plainLeaf_carries h hnest hkept label p

end Leaf

end Compile

end LinkedSearch
