import LinkedSearch.Compile.Aggregate
import LinkedSearch.Proofs.Preservation

/-! # Compiling aggregates

Besides compiling the query of the draft as a filter, the compilation of an aggregate only looks
things up. So whatever holds of lookups and of that query holds of the aggregate:

* `Discipline`: relations between the states before and after a computation, one for success and one
  for failure, that lookups satisfy and that carry over from one computation to the next.
* `Compile.Obeys`: a computation that satisfies them.
* `levels_obeys`, `aggregate_obeys`: aggregates obey every discipline that the query obeys. -/

namespace LinkedSearch

open Query (AggregateLevel)
open Schema (Mapping)

/-- **Discipline**: what holds before a computation, after its success, and after its failure. -/
structure Discipline (env : Environment) (I : Progress → Prop) (R E : Progress → Progress → Prop) :
    Prop where
  sound : ∀ p, I p → Sound env p
  keep : ∀ p q, I p → R p q → I q
  looked : ∀ p q, I p → Compile.Looked env p q → R p q ∧ E p q
  trans : ∀ p q s, R p q → R q s → R p s
  fail : ∀ p q s, R p q → E q s → E p s

/-- Looking up the mapping of the primary index. -/
theorem Metadata.exec_primaryMapping {resolver : Resolver} {md : Metadata}
    (hf : md.Faithful resolver) :
    ∃ md', exec (primaryMapping resolver) md = (resolver.mapping md.primary.index, md') ∧
      md.Grows resolver md' :=
  exec_mapping hf md.primary.index

namespace Compile

variable {α β : Type} {env : Environment} {p q : Progress}

/-! ## Levels look things up -/

theorem Looks.ofExcept (outcome : Except Error α) : Looks env (ofExcept outcome) p := by
  cases outcome with
  | error e => exact .throw e
  | ok a => exact .pure a

/-- The aggregation of a level. -/
theorem aggregation_looks (hp : Sound env p) (level : AggregateLevel) :
    Looks env (aggregation env level) p := by
  unfold aggregation
  split
  · next stem maxTerms order _ =>
    refine (mappingOf_looks hp _).bind fun mapping q _ => ?_
    split
    · split
      · exact .pure _
      · exact .throw _
    · exact .pure _
  · next text _ =>
    refine (mappingOf_looks hp _).bind fun mapping q _ => ?_
    split <;> exact (Looks.ofExcept _).bind fun _ _ _ => .pure _
  · next stem maxTerms _ =>
    have hprimary : Looks env (look (Metadata.primaryMapping env.resolver)) p :=
      ⟨_, exec_look_of (Metadata.exec_primaryMapping hp.faithful)⟩
    exact hprimary.bind fun _ _ _ => .pure _
  · exact .pure _

/-- The check of an inner level. -/
theorem checkInner_looks (hp : Sound env p) (outer inner : AggregateLevel)
    (compiled : Aggregation) : Looks env (checkInner env outer compiled inner) p := by
  have howner : ∀ q, Sound env q → Looks env (do
      let owner ← ownerOf env inner.field
      if owner.index ≠ (← MonadState.get).metadata.primary.index then
        throw Error.foreignSubAggregate : Compile Unit) q := by
    intro q hq
    refine Looks.bind ⟨_, exec_ownerOf hq inner.field⟩ fun owner s _ => ?_
    refine Looks.bind (x := MonadState.get) ⟨_, s, rfl, .refl s⟩ fun _ t _ => ?_
    split
    · exact .throw _
    · exact .pure _
  unfold checkInner
  simp only
  split
  · exact (Looks.throw _).bind fun _ q hq => howner q (hq.evolves hp).sound
  · exact howner p hp

/-! ## Disciplines -/

/-- **Obeying**: a computation that satisfies a discipline, whatever its outcome. -/
def Obeys (I : Progress → Prop) (R E : Progress → Progress → Prop) (x : Compile α) : Prop :=
  ∀ p, I p → wp x (fun _ q => R p q) (fun _ q => E p q) p

section Obeys

variable {I : Progress → Prop} {R E : Progress → Progress → Prop} (hd : Discipline env I R E)

include hd

theorem Obeys.of_looks {x : Compile α} (h : ∀ p, Sound env p → Looks env x p) :
    Obeys I R E x := by
  intro p hp
  obtain ⟨outcome, q, hexec, hlooked⟩ := h p (hd.sound p hp)
  obtain ⟨hR, hE⟩ := hd.looked p q hp hlooked
  cases outcome with
  | error e => exact (wp_of_error hexec).mpr hE
  | ok a => exact (wp_of_ok hexec).mpr hR

theorem Obeys.bind {x : Compile β} {f : β → Compile α} (hx : Obeys I R E x)
    (hf : ∀ b, Obeys I R E (f b)) : Obeys I R E (x >>= f) := by
  intro p hp
  rw [wp_bind]
  refine wp_mono (hx p hp) ?_ fun _ _ h => h
  intro b q hpq
  exact wp_mono (hf b q (hd.keep p q hp hpq)) (fun _ s => hd.trans p q s hpq)
    fun _ s => hd.fail p q s hpq

variable (hroot : Obeys I R E (rootQuery env))

include hroot

/-- A tree of aggregations in the scope of a level. -/
theorem inScope_obeys (level : AggregateLevel) (tree : AggregationTree) :
    Obeys I R E (inScope env level tree) := by
  unfold inScope
  split
  · exact .of_looks hd fun _ _ => .pure _
  · exact .bind hd hroot fun _ => .of_looks hd fun _ _ => .pure _

/-- **Chains of aggregates** obey what the query obeys. -/
theorem levels_obeys (outer : AggregateLevel) (inner : List AggregateLevel) :
    Obeys I R E (levels env outer inner) := by
  induction inner generalizing outer with
  | nil =>
    rw [levels]
    exact .bind hd (.of_looks hd fun _ hp => aggregation_looks hp outer) fun _ =>
      inScope_obeys hd hroot outer _
  | cons next rest ih =>
    rw [levels]
    refine .bind hd (.of_looks hd fun _ hp => aggregation_looks hp outer) fun compiled => ?_
    refine .bind hd (.of_looks hd fun _ hp => checkInner_looks hp outer next compiled) fun _ => ?_
    exact .bind hd (ih next) fun _ => inScope_obeys hd hroot outer _

/-- **Compiled aggregates**: nothing happens without an aggregate, and otherwise the discipline is
obeyed while the filter of the aggregate is compiled. -/
theorem aggregate_obeys (hp : I { p with aggregating := true }) :
    wp (aggregate env)
      (fun _ q => q = p ∨
        ∃ s, R { p with aggregating := true } s ∧ q = { s with aggregating := false })
      (fun _ q => ∃ s, E { p with aggregating := true } s ∧ q = { s with aggregating := false })
      p := by
  unfold aggregate
  rw [wp_bind, wp_get]
  split
  · exact .inl rfl
  · next aggregate _ =>
    rw [wp_within]
    have hlevels := Obeys.bind hd (levels_obeys hd hroot aggregate.outer aggregate.inner)
      (fun tree => .of_looks hd fun _ _ => .pure (some tree))
    exact wp_mono (hlevels _ hp) (fun _ s hs => .inr ⟨s, hs, rfl⟩) fun _ s hs => ⟨s, hs, rfl⟩

end Obeys

end Compile

end LinkedSearch
