import LinkedSearch.Proofs.Agreement

/-! # Computations in step

Two computations that are started in related states are in step if they end with the same outcome, and in
related states again. Which states are related is up to the application: they may have different drafts, and
different things may have been looked up in them.

* `InStep`: computations in step, started in two given states.
* `InStep.bind`, `InStep.mapM`, `InStep.within`, …: the statements of a computation one by one.
* `InStep.withinRight`, `InStep.bindRight`: statements of one computation that leave no trace. -/

namespace LinkedSearch.Compile

open Query (Arena Label NodeId)

variable {α β : Type} {S : Progress → Progress → Prop} {env : Environment} {p q : Progress}

/-- **In step**: the same outcome, and states that are related again. -/
def InStep (S : Progress → Progress → Prop) (x y : Compile α) (p q : Progress) : Prop :=
  (exec x p).1 = (exec y q).1 ∧ S (exec x p).2 (exec y q).2

namespace InStep

theorem pure (h : S p q) (a : α) : InStep S (pure a) (pure a) p q := ⟨rfl, h⟩

theorem throw (h : S p q) (e : Error) : InStep S (throw e : Compile α) (throw e) p q := ⟨rfl, h⟩

theorem ofExcept (h : S p q) (outcome : Except Error α) :
    InStep S (ofExcept outcome) (Compile.ofExcept outcome) p q := ⟨rfl, h⟩

/-- **Sequences**: what comes next is started in related states again. -/
theorem bind {x y : Compile β} {f g : β → Compile α} (hx : InStep S x y p q)
    (hf : ∀ b s t, S s t → InStep S (f b) (g b) s t) : InStep S (x >>= f) (y >>= g) p q := by
  obtain ⟨houtcome, hstates⟩ := hx
  unfold InStep
  rw [exec_bind, exec_bind]
  rcases hexec : exec x p with ⟨outcome, s⟩
  rcases hexec' : exec y q with ⟨outcome', t⟩
  rw [hexec, hexec'] at houtcome hstates
  obtain rfl : outcome = outcome' := houtcome
  cases outcome with
  | error e => exact ⟨rfl, hstates⟩
  | ok b => exact hf b s t hstates

/-- Computations that start with a look at the state. -/
theorem get {f g : Progress → Compile α} (h : InStep S (f p) (g q) p q) :
    InStep S (get >>= f) (MonadState.get >>= g) p q := h

/-- Computations that start with a look at the arena. -/
theorem arena {f g : Arena → Compile α} (h : InStep S (f p.draft.arena) (g q.draft.arena) p q) :
    InStep S (arena >>= f) (Compile.arena >>= g) p q := h

/-- Computations that start with the label of a node. -/
theorem labelOf {n : NodeId} {f g : Label → Compile α}
    (h : InStep S (f (p.draft.arena.label n)) (g (q.draft.arena.label n)) p q) :
    InStep S (labelOf n >>= f) (Compile.labelOf n >>= g) p q := h

/-- Computations that start with the children of a node. -/
theorem childrenOf {n : NodeId} {f g : List NodeId → Compile α}
    (h : InStep S (f (p.draft.arena.children n)) (g (q.draft.arena.children n)) p q) :
    InStep S (childrenOf n >>= f) (Compile.childrenOf n >>= g) p q := h

/-- Changes of related states. -/
theorem modify {f g : Progress → Progress} (h : S (f p) (g q)) :
    InStep S (modify f : Compile PUnit) (modify g) p q := ⟨rfl, h⟩

/-- **Scopes** that are entered and left alike. -/
theorem within {x y : Compile α} {enter leave enter' leave' : Progress → Progress}
    (hleave : ∀ s t, S s t → S (leave s) (leave' t)) (hx : InStep S x y (enter p) (enter' q)) :
    InStep S (within enter leave x) (Compile.within enter' leave' y) p q :=
  ⟨hx.1, hleave _ _ hx.2⟩

/-- A scope that makes no difference to what states are related to. -/
theorem withinRight {x y : Compile α} {enter leave : Progress → Progress}
    (hleave : ∀ s t, S s t → S s (leave t)) (hx : InStep S x y p (enter q)) :
    InStep S x (Compile.within enter leave y) p q :=
  ⟨hx.1, hleave _ _ hx.2⟩

/-- Further statements that only look things up and give back what there was. -/
theorem bindRight {x y : Compile α} {g : α → Compile α} (hx : InStep S x y p q)
    (hg : ∀ a s t, S s t → (exec (g a) t).1 = .ok a ∧ S s (exec (g a) t).2) :
    InStep S x (y >>= g) p q := by
  obtain ⟨houtcome, hstates⟩ := hx
  unfold InStep
  rw [exec_bind]
  rcases hexec : exec y q with ⟨outcome, t⟩
  rw [hexec] at houtcome hstates
  cases outcome with
  | error e => exact ⟨houtcome, hstates⟩
  | ok a =>
    obtain ⟨hsame, hrelated⟩ := hg a _ t hstates
    exact ⟨houtcome.trans hsame.symm, hrelated⟩

/-- **Loops** over the same list. -/
theorem mapM {ι : Type} {f g : ι → Compile α} {l : List ι} (h : S p q)
    (hf : ∀ i ∈ l, ∀ s t, S s t → InStep S (f i) (g i) s t) : InStep S (l.mapM f) (l.mapM g) p q := by
  induction l generalizing p q with
  | nil => exact pure h []
  | cons i l ih =>
    rw [List.mapM_cons, List.mapM_cons]
    refine (hf i List.mem_cons_self p q h).bind fun a s t hst => ?_
    exact (ih hst fun j hj => hf j (List.mem_cons_of_mem i hj)).bind fun as s t hst => .pure hst (a :: as)

/-- Loops over the same list for their effect. -/
theorem forM {ι : Type} {f g : ι → Compile PUnit} {l : List ι} (h : S p q)
    (hf : ∀ i ∈ l, ∀ s t, S s t → InStep S (f i) (g i) s t) : InStep S (l.forM f) (l.forM g) p q := by
  induction l generalizing p q with
  | nil => exact pure h PUnit.unit
  | cons i l ih =>
    show InStep S (f i >>= fun _ => l.forM f) (g i >>= fun _ => l.forM g) p q
    exact (hf i List.mem_cons_self p q h).bind fun _ s t hst =>
      ih hst fun j hj => hf j (List.mem_cons_of_mem i hj)

/-- Computations that agree are in step, if lookups make no difference to what states are related to. -/
theorem of_agrees {x y : Compile α} (h : Agrees env x y p q)
    (hgrow : ∀ md md', p.metadata.Grows env.resolver md → q.metadata.Grows env.resolver md' →
      S { p with metadata := md } { q with metadata := md' }) : InStep S x y p q := by
  obtain ⟨outcome, md, md', hx, hy, hleft, hright⟩ := h _ _ (.refl _) (.refl _)
  unfold InStep
  rw [show exec x p = _ from hx, show exec y q = _ from hy]
  exact ⟨rfl, hgrow md md' hleft hright⟩

end InStep

end LinkedSearch.Compile
