import LinkedSearch.Proofs.Coincidence
import LinkedSearch.Proofs.Turns
import LinkedSearch.Proofs.Transparency

/-! # Expansions are not entered again

Resolving an expansion compiles nodes far away from it, and these may be expansions too. A guarded compiler
keeps account of the expansions that are being resolved, and stops where one of them would be entered
again, or where the recursion gets deeper than a bound. What it does when it stops makes no difference,
because it never does:

* `guardedWithin`: the guarded compiler.
* `Place`: the place of a node, among the expansions that are being resolved.
* `guardedWithin_coincides`: the guarded compiler and the compiler of nodes coincide, with any bounds that
  are large enough. -/

namespace LinkedSearch.Compile

open Query (Arena Draft Kind Label NodeId)

variable {α β : Type} {env : Environment} {p q s : Progress} {n c e : Nat}

/-! ## Guarded compilers -/

/-- **What a guarded compiler does instead** of going on. -/
structure Detour where
  node : NodeId → Compile Fragment
  clause : NodeId → Compile Span

section Guarded

variable (env : Environment) (detour : Detour)

/-- The clauses of a proximity, where a recursion that gets too deep stops. -/
def guardedNear : Nat → Label → NodeId → Compile Span
  | 0, _, id => detour.clause id
  | fuel + 1, label, id => do
    let clauses ← (← childrenOf id).mapM (spanOfChild env (guardedNear fuel) label)
    let (distance, ordered) := proximityDistance label.kind
    return .near clauses distance ordered none

/-- The compiled expansion. While an expansion of its stack is resolved, both of them are on account. -/
def guardedExpand (recur : List NodeId → NodeId → Compile Fragment) (resolving : List NodeId)
    (id : NodeId) : Compile Fragment := do
  let link ← linkOf id
  let stack := (← arena).expansions id
  let primary := (← get).metadata.primary
  let target := if (← get).generated.isEmpty then primary else link
  if let some name := link.name then
    modifyArena fun arena => arena.stripName id name
  stack.reverse.forM fun e => resolve env (recur (e :: id :: resolving)) primary target e
  recur (id :: resolving) id

/-- The compiled expansion, on record if its link is synthesized. -/
def guardedExpansion (recur : List NodeId → NodeId → Compile Fragment) (resolving : List NodeId)
    (id : NodeId) (generated : Bool) : Compile Fragment :=
  if generated then
    within (fun progress => { progress with generated := id :: progress.generated })
      (fun progress => { progress with generated := progress.generated.tail })
      (guardedExpand env recur resolving id)
  else guardedExpand env recur resolving id

/-- **Guarded compiler** of nodes: it stops where it would go more than `fuel` calls deep, or enter one of
the expansions that are being resolved. -/
def guardedWithin : Nat → List NodeId → NodeId → Compile Fragment
  | 0, _, id => detour.node id
  | fuel + 1, resolving, id => do
    let label ← labelOf id
    match label.kind with
    | .expansion _ generated =>
      if id ∈ resolving then detour.node id
      else guardedExpansion env (guardedWithin fuel) resolving id generated
    | .proximity .. =>
      return (Fragment.span (← guardedNear env detour (fuel + 1) label id)).weighted label.boost
    | _ => node env (guardedWithin fuel resolving) id

end Guarded

/-! ## Places -/

/-- Slots from a number on hold neither expansions nor children. -/
def Bottomed (bottom : Nat) (arena : Arena) : Prop :=
  ∀ i : Nat, bottom ≤ i → (arena.label i).kind.isExpansion = false ∧ arena.children i = []

/-- Rewriting keeps an arena bottomed: new nodes have no children, and only expansions get new ones. -/
theorem Bottomed.rewrite {bottom : Nat} {arena other : Arena} (h : Bottomed bottom arena)
    (hasc : arena.Ascending) (hstep : arena.Rewrite other) : Bottomed bottom other := by
  have hremaining := (hstep.pruned hasc).remaining
  intro i hi
  have hkind : (other.label i).kind.isExpansion = false := by
    by_contra htrue
    exact absurd ((h i hi).1.symm.trans (hremaining i (by simpa using htrue))) (by simp)
  refine ⟨hkind, ?_⟩
  have hexpansion : ∀ {e : Nat}, (arena.label e).kind.isExpansion = true → i ≠ e := by
    rintro e he rfl
    exact absurd ((h i hi).1.symm.trans he) (by simp)
  cases hstep with
  | push label _ => rw [Query.Arena.children_push, (h i hi).2]
  | strip e name _ => rw [(arena.stripName_spec e name).2.2.1, (h i hi).2]
  | requery e label he _ _ =>
    have hlt := Query.Arena.lt_size_of_isExpansion he
    rw [Query.Arena.children_setChild _ _ _ _ _ (by rw [Query.Arena.size_push]; omega),
      if_neg (hexpansion he), Query.Arena.children_push, (h i hi).2]
  | resolve e v boost he hv _ _ =>
    rw [Query.Arena.children_substituted hasc he hv]
    split
    · rfl
    · rw [if_neg (hexpansion he), (h i hi).2]

/-- Any number of steps. -/
theorem Bottomed.rewrites {bottom : Nat} {arena other : Arena} (h : Bottomed bottom arena)
    (hasc : arena.Ascending) (hsteps : arena.Rewrites other) : Bottomed bottom other := by
  induction hsteps with
  | refl => exact h
  | tail hsteps hstep ih => exact ih.rewrite (Query.Arena.Rewrites.pruned hsteps hasc).ascending hstep

/-- **Out of sight**: no expansion that is being resolved can be reached from a node. -/
def OutOfSight (arena : Arena) (resolving : List NodeId) (n : NodeId) : Prop :=
  ∀ r ∈ resolving, (arena.label r).kind.isExpansion = true → ¬arena.Open n r

/-- **On the way**: every expansion that can be reached from a node can be reached from all of those that
are being resolved. -/
def OnTheWay (arena : Arena) (resolving : List NodeId) (n : NodeId) : Prop :=
  ∀ r ∈ resolving, ∀ m, (arena.label m).kind.isExpansion = true → arena.Open n m → arena.Open r m

theorem OutOfSight.traced {arena other : Arena} {resolving : List NodeId}
    (h : OutOfSight arena resolving n) (htraced : arena.Traced other) : OutOfSight other resolving n :=
  fun r hr hexpansion hopen =>
    h r hr (htraced.remaining r hexpansion) (htraced.open_before n r hexpansion hopen)

theorem OnTheWay.traced {arena other : Arena} {resolving : List NodeId}
    (h : OnTheWay arena resolving n) (htraced : arena.Traced other) : OnTheWay other resolving n :=
  fun r hr m hexpansion hopen => htraced.open_after r m hexpansion
    (h r hr m (htraced.remaining m hexpansion) (htraced.open_before n m hexpansion hopen))

/-- **A quiet place**: no expansion below it asks for the parent scope of the query. -/
def Quiet (draft : Draft) (n : NodeId) : Prop := Calm draft n ∨ draft.arena.Bare n

/-- The number of calls inside each other that a node takes in a quiet place. An expansion is compiled once
more when it is resolved. -/
def callDepth (bottom : Nat) (arena : Arena) (n : NodeId) : Nat :=
  2 * (bottom - n) + if (arena.label n).kind.isExpansion then 2 else 1

/-- **The place of a node** among the expansions that are being resolved, with room for a number of calls
inside each other. Outside of quiet places there is room for the parent scope as well. -/
structure Place (env : Environment) (bottom : Nat) (resolving : List NodeId) (room : Nat) (p : Progress)
    (n : Nat) : Prop where
  sound : Sound env p
  lt_size : n < p.draft.arena.size
  bottomed : Bottomed bottom p.draft.arena
  outOfSight : OutOfSight p.draft.arena resolving n
  enough : Quiet p.draft n ∧ callDepth bottom p.draft.arena n ≤ room ∨
    OnTheWay p.draft.arena resolving n ∧ callDepth bottom p.draft.arena n + (2 * bottom + 2) ≤ room

namespace Place

variable {bottom room : Nat} {resolving : List NodeId}

theorem callDepth_le (h : Place env bottom resolving room p n) : callDepth bottom p.draft.arena n ≤ room := by
  rcases h.enough with ⟨-, hroom⟩ | ⟨-, hroom⟩ <;> omega

/-- A place is one in the draft. -/
theorem congr (h : Place env bottom resolving room p n) (hs : Sound env s) (hdraft : s.draft = p.draft) :
    Place env bottom resolving room s n where
  sound := hs
  lt_size := hdraft ▸ h.lt_size
  bottomed := hdraft ▸ h.bottomed
  outOfSight := hdraft ▸ h.outOfSight
  enough := hdraft ▸ h.enough

/-- Where no expansion is left, none can be entered. -/
theorem of_bare (hp : Sound env p) (hn : n < p.draft.arena.size) (hbottom : Bottomed bottom p.draft.arena)
    (hbare : p.draft.arena.Bare n) (hroom : 2 * (bottom - n) + 1 ≤ room) :
    Place env bottom resolving room p n where
  sound := hp
  lt_size := hn
  bottomed := hbottom
  outOfSight := fun r _ hexpansion hopen =>
    absurd ((hbare r hopen.below).symm.trans hexpansion) (by simp)
  enough := .inl ⟨.inr hbare, by
    rw [callDepth, hbare n (.refl n)]
    exact hroom⟩

/-- **The place of a child**, when the children before it were compiled. -/
theorem child {fuel : Nat} (h : Place env bottom resolving (room + 1) p n)
    (hkind : (p.draft.arena.label n).kind.isExpansion = false) {before after : List NodeId}
    (hchildren : p.draft.arena.children n = before ++ c :: after) {fragments : List Fragment}
    (hexec : exec (before.mapM (nodeWithin env fuel)) p = (.ok fragments, q)) :
    Place env bottom resolving room q c := by
  have hasc := h.sound.ascending
  have hmem : c ∈ p.draft.arena.children n := by rw [hchildren]; simp
  have hbefore : ∀ b ∈ before, b ∈ p.draft.arena.children n := fun b hb => by rw [hchildren]; simp [hb]
  have hclt := hasc.child_lt n c hmem
  have hnc := hasc.lt_child n c hmem
  have hnbottom : n < bottom := by
    by_contra hge
    rw [(h.bottomed n (by omega)).2] at hmem
    exact absurd hmem List.not_mem_nil
  obtain ⟨hpq, -⟩ := (wp_of_ok hexec).mp
    (leads_compiledAll fuel (nodeWithin_steps fuel) h.sound before)
  have hrewrites := compiledAll_rewrites before h.sound (fun b hb => hasc.child_lt n b (hbefore b hb)) hexec
  have htraced := hrewrites.traced hasc
  -- a child needs at least one level less than its parent
  have hdepth : callDepth bottom q.draft.arena c + 1 ≤ callDepth bottom p.draft.arena n := by
    unfold callDepth
    rw [hkind]
    split <;> simp <;> omega
  refine ⟨hpq.sound, Nat.lt_of_lt_of_le hclt hpq.size_le, h.bottomed.rewrites hasc hrewrites, ?_, ?_⟩
  · exact OutOfSight.traced (fun r hr hexpansion hopen =>
      h.outOfSight r hr hexpansion (.of_child hkind hmem hopen)) htraced
  · rcases h.enough with ⟨hcalm | hbare, hroom⟩ | ⟨hway, hroom⟩
    · obtain ⟨-, hframed⟩ :=
        compiledAll_framed (nodeWithin_framed fuel) before h.sound hcalm hbefore hexec
      have hcalm' : Calm q.draft n := hcalm.framed h.sound hpq hframed.framed h.lt_size fun htrue => by
        rw [Query.Arena.label_congr hframed.slot_eq]
        exact htrue
      exact .inl ⟨.inl (hcalm'.child (by rw [hframed.children_eq]; exact hmem)), by omega⟩
    · exact .inl ⟨.inr ((hrewrites.pruned hasc).bare hasc hclt (hbare.child hmem)), by omega⟩
    · refine .inr ⟨OnTheWay.traced (fun r hr m hexpansion hopen =>
        hway r hr m hexpansion (.of_child hkind hmem hopen)) htraced, by omega⟩

end Place

/-! ## Expansions -/

section Guarded

variable {detour : Detour} {bottom room fuel fuel' : Nat} {resolving : List NodeId}

/-- A guarded compiler and a compiler of nodes, both with more calls to go than the given number, coincide
wherever there is room for that many. -/
def CoincidesWithin (env : Environment) (detour : Detour) (bottom room : Nat) : Prop :=
  ∀ (fuel fuel' : Nat) (resolving : List NodeId) (n : Nat) (p : Progress), room ≤ fuel → room ≤ fuel' →
    Place env bottom resolving room p n →
    Coincides (guardedWithin env detour fuel resolving n) (nodeWithin env fuel' n) p

/-- **What an expansion asks for** while it is resolved as part of the stack of another one. -/
theorem stage_coincides (ih : CoincidesWithin env detour bottom room) (hfuel : room ≤ fuel) (hfuel' : room ≤ fuel')
    {t : Progress} (hplace : Place env bottom resolving (room + 1) p n)
    (hkind : (p.draft.arena.label n).kind.isExpansion = true)
    (hmem : e ∈ p.draft.arena.expansions n)
    (hrewrites : p.draft.arena.Rewrites q.draft.arena) (hcalm : Calm p.draft n → Calm q.draft e)
    (hstage : Stage env e q t) :
    CoincidesFor env (guardedWithin env detour fuel (e :: n :: resolving)) (nodeWithin env fuel') e
      t.draft := by
  intro u c hu hdraft hasked
  have hasc := hplace.sound.ascending
  have hrewrites' := hrewrites.trans hstage.rewrites
  have htraced := hrewrites'.traced hasc
  obtain ⟨hopen, hexpansion⟩ := Query.Arena.open_of_mem_expansionsWithin _ hmem
  have hbottom : Bottomed bottom t.draft.arena := hplace.bottomed.rewrites hasc hrewrites'
  have het := Query.Arena.lt_size_of_isExpansion hstage.isExpansion
  have hnbottom : n < bottom := by
    by_contra hge
    exact absurd ((hplace.bottomed n (by omega)).1.symm.trans hkind) (by simp)
  -- the depth that is left is one less than that of the expansion, so that it suffices for what is
  -- asked for
  have hdepth := hplace.callDepth_le
  rw [callDepth, hkind] at hdepth
  refine ih fuel fuel' _ c u hfuel hfuel' (.congr (p := t) ?_ hu hdraft)
  rcases hasked with hchild | ⟨hscope, houtside⟩
  · -- nothing is left of the expansions in the query
    have hmem' := List.mem_of_getElem? hchild
    have hec := hstage.sound.ascending.lt_child e c hmem'
    have hne := hasc.le_of_below hopen.below
    exact .of_bare hstage.sound (hstage.sound.ascending.child_lt e c hmem') hbottom
      (hstage.query c hchild).2 (by simp only [if_true] at hdepth; omega)
  · obtain ⟨root, hroot, hfirst⟩ := (find?_eq_some_iff hstage.sound.ascending).mp hscope
    have hparent : (t.draft.arena.label c).kind.isParent = true := hfirst.condition_eq
    have hcdepth : callDepth bottom t.draft.arena c = 2 * (bottom - c) + 1 := by
      have hkind' : (t.draft.arena.label c).kind.isExpansion = false := by
        cases hk : (t.draft.arena.label c).kind with
        | expansion link generated => rw [hk] at hparent; exact absurd hparent (by simp [Kind.isParent])
        | _ => rfl
      rw [callDepth, hkind']
      simp
    rcases hplace.enough with ⟨hcalm' | hbare, -⟩ | ⟨hway, hroom⟩
    · -- in a calm place the expansion stands in the parent scope
      have hwithin := (hstage.calm (hcalm hcalm')).isWithin hstage.sound.ascending het hscope
      exact absurd (houtside.symm.trans hwithin) (by simp)
    · exact absurd ((hbare n (.refl n)).symm.trans hkind) (by simp)
    · -- all that is being resolved has the expansion below it, and the parent scope has not
      have hopened : ∀ r ∈ e :: n :: resolving, t.draft.arena.Open r e := by
        intro r hr
        refine htraced.open_after r e hstage.isExpansion ?_
        rcases List.mem_cons.mp hr with rfl | hr
        · exact .refl _
        · rcases List.mem_cons.mp hr with rfl | hr
          · exact hopen
          · exact hway r hr e hexpansion hopen
      refine ⟨hstage.sound, Query.Arena.lt_size_of_isParent hparent, hbottom, fun r hr _ hcr => ?_,
        .inl ⟨.inl (.inr ⟨c, ⟨root, hroot, hfirst⟩, .refl c⟩), ?_⟩⟩
      · have hwithin := hstage.sound.ascending.isWithin_of_below
          (hcr.trans (hopened r hr)).below het
        exact absurd (houtside.symm.trans hwithin) (by simp)
      · rw [callDepth, hkind] at hroom
        simp only [if_true] at hroom
        omega

/-- The stack of an expansion, and then what stands in its place. -/
theorem stack_coincides (ih : CoincidesWithin env detour bottom room) (hfuel : room ≤ fuel) (hfuel' : room ≤ fuel')
    (hplace : Place env bottom resolving (room + 1) p n)
    (hkind : (p.draft.arena.label n).kind.isExpansion = true) {t : Progress} (ht : Sound env t)
    (hprimary : p.metadata.primary = t.metadata.primary) (hevolves : Evolves env p t)
    (hadvanced : p.draft.arena.Advanced t.draft.arena)
    (hrewrites : p.draft.arena.Rewrites t.draft.arena) (hcalm : Calm p.draft n → Calm t.draft n)
    (hsame : t.draft.arena.expansions n = p.draft.arena.expansions n) (target : Link) :
    Coincides
      ((p.draft.arena.expansions n).reverse.forM (fun e =>
        resolve env (guardedWithin env detour fuel (e :: n :: resolving)) p.metadata.primary target e) >>=
          fun _ => guardedWithin env detour fuel (n :: resolving) n)
      ((p.draft.arena.expansions n).reverse.forM
        (resolve env (nodeWithin env fuel') p.metadata.primary target) >>=
          fun _ => nodeWithin env fuel' n) t := by
  have hasc := hplace.sound.ascending
  have hn := hplace.lt_size
  -- every expansion of the stack coincides when its turn has come, and then nothing is left but its
  -- place
  refine Coincides.bind (.forM _ fun before e after hsplit q hq => ?_) fun _ q hq => ?_
  · have hturn := stack_turns hasc _ n hn (by omega) t ht hprimary hadvanced before e after hsplit q hq
    have hmem : e ∈ p.draft.arena.expansions n := by
      rw [← List.mem_reverse, hsplit]
      simp
    refine resolve_coincides hturn.evolves.sound hturn.query (fun t' hstage => ?_) _ target
    refine stage_coincides ih hfuel hfuel' hplace hkind hmem (hrewrites.trans hturn.rewrites)
      (fun hcalm' => ?_) hstage
    rw [← hsame] at hsplit
    exact stack_calm _ n t ht hprimary (hcalm hcalm') (Nat.lt_of_lt_of_le hn hevolves.size_le) before e
      after hsplit q hq
  · obtain ⟨htq, -, -⟩ := stack_advance (nodeWithin_advance fuel') hasc _ n hn (by omega) t q ht hprimary
      hadvanced hq
    obtain ⟨hstep, hbare⟩ := stack_rewrites hasc _ n hn (by omega) ht hprimary hadvanced hq
    have hdepth := hplace.callDepth_le
    rw [callDepth, hkind] at hdepth
    refine ih fuel fuel' _ n q hfuel hfuel' (.of_bare htq.sound ?_ ?_ hbare ?_)
    · exact Nat.lt_of_lt_of_le hn (Nat.le_trans hevolves.size_le htq.size_le)
    · exact hplace.bottomed.rewrites hasc (hrewrites.trans hstep)
    · simp only [if_true] at hdepth
      omega

/-- A compiled expansion. -/
theorem guardedExpand_coincides (ih : CoincidesWithin env detour bottom room) (hfuel : room ≤ fuel)
    (hfuel' : room ≤ fuel') (hplace : Place env bottom resolving (room + 1) p n)
    (hkind : (p.draft.arena.label n).kind.isExpansion = true) :
    Coincides (guardedExpand env (guardedWithin env detour fuel) resolving n)
      (expand env (nodeWithin env fuel') n) p := by
  obtain ⟨link, generated, hexpansion⟩ := Kind.exists_of_isExpansion hkind
  have hp := hplace.sound
  unfold guardedExpand expand
  have hlink : (p.draft.arena.label n).kind.link? = some link := by rw [hexpansion]; rfl
  refine .bind_known (exec_linkOf hlink)
    (.bind_known rfl (.bind_known rfl (.bind_known rfl ?_)))
  cases hname : link.name with
  | none =>
    exact stack_coincides ih hfuel hfuel' hplace hkind hp rfl (.refl hp) (.refl _) (.refl _) id rfl _
  | some name =>
    -- stripping the name of the link changes fields only
    obtain ⟨hsize, hkinds, hchildren, hparents⟩ := p.draft.arena.stripName_spec n name
    have hevolves : Evolves env p { p with draft :=
        { p.draft with arena := p.draft.arena.stripName n name } } :=
      evolves_stripped hp n { link with name := some name }
    obtain ⟨hframed, hsame⟩ := stripped_framed p n { link with name := some name }
    refine .bind_known rfl ?_
    refine stack_coincides ih hfuel hfuel' hplace hkind hevolves.sound rfl hevolves
      (.of_same hsize hkinds hchildren) (Query.Arena.Rewrite.strip _ n name hkind).rewrites
      (fun hcalm => hcalm.framed hp hevolves hframed hplace.lt_size fun htrue => ?_) hsame _
    rw [hexpansion] at htrue
    exact absurd htrue (by simp [Kind.isParent])

/-- A compiled expansion, on record if its link is synthesized. -/
theorem guardedExpansion_coincides (ih : CoincidesWithin env detour bottom room) (hfuel : room ≤ fuel)
    (hfuel' : room ≤ fuel') (hplace : Place env bottom resolving (room + 1) p n)
    (hkind : (p.draft.arena.label n).kind.isExpansion = true) (generated : Bool) :
    Coincides (guardedExpansion env (guardedWithin env detour fuel) resolving n generated)
      (expansion env (nodeWithin env fuel') n generated) p := by
  unfold guardedExpansion expansion
  split
  · exact .within (guardedExpand_coincides ih hfuel hfuel'
      (hplace.congr ⟨hplace.sound.ascending, hplace.sound.faithful⟩ rfl) hkind)
  · exact guardedExpand_coincides ih hfuel hfuel' hplace hkind

/-! ## Proximities -/

omit detour in
/-- A clause of a proximity looks things up. -/
theorem spanOfChild_looks (hp : Sound env p) (outer : Label) {k : Nat}
    (hreach : Reaches p.draft.arena k n) : Looks env (spanOfChild env (nearWithin env k) outer n) p :=
  have hheld := hp.ascending.holds_treeAt n
  .of_agrees (spanOfChild_agrees (Sound.peers hp) hp.ascending hp.ascending outer _ hheld hheld
    (fun _ _ _ => rfl) hreach hreach)

/-- The clauses of a proximity. A node comes before its children, and the last ones have no children. -/
theorem guardedNear_coincides (fuel : Nat) : ∀ {fuel' : Nat} {p : Progress} {n : Nat} (label : Label),
    Sound env p → Bottomed bottom p.draft.arena → bottom - n < fuel → Reaches p.draft.arena fuel' n →
    Coincides (guardedNear env detour fuel label n) (nearWithin env fuel' label n) p := by
  induction fuel with
  | zero => intro _ _ _ _ _ _ hlt; omega
  | succ fuel ih =>
    intro fuel' p n label hp hbottom hlt hreach
    obtain ⟨k, rfl⟩ : ∃ k, fuel' = k + 1 := ⟨fuel' - 1, by have := hreach.1; have := hreach.2; omega⟩
    unfold guardedNear nearWithin
    refine .bind_known rfl (.bind_left _ (.mapM _ fun before c after hchildren spans q hq => ?_))
    have hmem : ∀ b ∈ before, b ∈ p.draft.arena.children n := fun b hb => by rw [hchildren]; simp [hb]
    have hc : c ∈ p.draft.arena.children n := by rw [hchildren]; simp
    have hrested : Rested env p q := (wp_of_ok hq).mp (Rests.mapM before hp fun b hb s hs =>
      .of_looks hs.sound (spanOfChild_looks hs.sound label
        (by rw [hs.draft_eq]; exact hreach.child hp.ascending (hmem b hb))))
    have hlater := hp.ascending.lt_child n c hc
    -- a node with children lies below the bottom, where the guard has room for one more step
    have hbelow : n < bottom := by
      by_contra hge
      rw [(hbottom n (by omega)).2] at hc
      exact absurd hc List.not_mem_nil
    unfold spanOfChild
    refine .bind_known rfl ?_
    split
    · rfl
    · refine (ih _ hrested.sound ?_ (by omega) ?_).bind_left _
      · rw [hrested.draft_eq]
        exact hbottom
      · rw [hrested.draft_eq]
        exact hreach.child hp.ascending hc
    · rfl

/-! ## Nodes -/

/-- **Guarded compilers coincide with compilers of nodes** wherever there is room: neither of them reaches
its bound, and no expansion is entered while it is being resolved. -/
theorem guardedWithin_coincides (detour : Detour) (bottom room : Nat) :
    CoincidesWithin env detour bottom room := by
  induction room with
  | zero =>
    intro fuel fuel' resolving n p _ _ hplace
    have hdepth := hplace.callDepth_le
    unfold callDepth at hdepth
    split at hdepth <;> omega
  | succ room ih =>
    intro fuel fuel' resolving n p hfuel hfuel' hplace
    obtain ⟨fuel, rfl⟩ : ∃ k, fuel = k + 1 := ⟨fuel - 1, by omega⟩
    obtain ⟨fuel', rfl⟩ : ∃ k, fuel' = k + 1 := ⟨fuel' - 1, by omega⟩
    have hle : room ≤ fuel := by omega
    have hle' : room ≤ fuel' := by omega
    have hnode : (p.draft.arena.label n).kind.isExpansion = false → Coincides
        (node env (guardedWithin env detour fuel resolving) n) (node env (nodeWithin env fuel') n) p := by
      intro hkind
      refine node_coincides hplace.sound hkind fun s hs hdraft before c after hchildren fragments q hq => ?_
      rw [← hdraft] at hkind hchildren
      exact ih fuel fuel' resolving c q hle hle' ((hplace.congr hs hdraft).child hkind hchildren hq)
    have hlabel : exec (labelOf n) p = (.ok (p.draft.arena.label n), p) := rfl
    unfold Coincides guardedWithin
    rw [exec_bind, hlabel]
    simp only
    split
    · next link generated hkind =>
      have hexpansion : (p.draft.arena.label n).kind.isExpansion = true := by rw [hkind]; rfl
      -- it would be out of sight, were it being resolved
      rw [if_neg fun hmem => hplace.outOfSight n hmem hexpansion (.refl n)]
      refine (guardedExpansion_coincides ih hle hle' hplace hexpansion generated).trans ?_
      unfold nodeWithin node
      rw [exec_bind, hlabel]
      simp only [hkind]
    · next distance ordered hkind =>
      have hroom : bottom - n < fuel + 1 := by
        have hdepth := hplace.callDepth_le
        unfold callDepth at hdepth
        omega
      refine ((guardedNear_coincides (fuel + 1) (p.draft.arena.label n) hplace.sound hplace.bottomed hroom
        ⟨Nat.le_add_right _ n, hplace.lt_size⟩).bind_left _).trans ?_
      unfold nodeWithin node proximity
      rw [exec_bind (labelOf n), hlabel]
      simp only [hkind, bind_assoc, pure_bind]
      rfl
    · next hexpansion hproximity =>
      refine hnode ?_
      cases hk : (p.draft.arena.label n).kind with
      | expansion link generated => exact absurd hk (hexpansion link generated)
      | _ => rfl

end Guarded

end LinkedSearch.Compile
