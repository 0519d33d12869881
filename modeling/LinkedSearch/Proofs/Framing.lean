import LinkedSearch.Proofs.Arena.Frame
import LinkedSearch.Proofs.Preservation

/-! # Compilations inside the first parent scope

The visibility of a scan is the compiled parent scope of the query, wherever that is. So a
compilation may change nodes far away from the one that is compiled. It does not if there is no
parent scope, or if it takes place inside the one that would be compiled:

* `Calm`: the draft has no parent scope, or the first one lies at or above a node.
* `Joins.framed`, `Resolved.framed`: resolving an expansion in a calm place changes the arena below
  the expansion only.
* `nodeWithin_framed`: so does compiling any node in a calm place; a node that is no expansion keeps
  its own slot. -/

namespace LinkedSearch.Compile

open Query (Arena Draft Kind Label NodeId Tree)

variable {env : Environment} {p q s : Progress} {n m c v : Nat}

/-! ## Calm places -/

/-- The first parent scope of a draft. -/
def FirstParent (draft : Draft) (scope : NodeId) : Prop :=
  ∃ root, draft.root = some root ∧ draft.arena.First (·.kind.isParent) root scope

/-- Searching a draft for a parent scope finds the first one. -/
theorem find?_eq_some_iff {draft : Draft} (h : draft.arena.Ascending) {scope : NodeId} :
    draft.find? (·.kind.isParent) = some scope ↔ FirstParent draft scope := by
  rw [Draft.find?, Option.bind_eq_some_iff]
  constructor
  · rintro ⟨root, hroot, hfind⟩
    exact ⟨root, hroot, h.find?_eq_some_iff.mp hfind⟩
  · rintro ⟨root, hroot, hfirst⟩
    exact ⟨root, hroot, h.find?_eq_some_iff.mpr hfirst⟩

/-- There is only one first parent scope. -/
theorem FirstParent.unique {draft : Draft} (h : draft.arena.Ascending) {a b : NodeId}
    (ha : FirstParent draft a) (hb : FirstParent draft b) : a = b :=
  Option.some.inj (((find?_eq_some_iff h).mpr ha).symm.trans ((find?_eq_some_iff h).mpr hb))

/-- **Calm**: no parent scope at all, or the first one at or above a node. -/
def Calm (draft : Draft) (n : Nat) : Prop :=
  (∀ i, (draft.arena.label i).kind.isParent = false) ∨
    ∃ scope, FirstParent draft scope ∧ draft.arena.Below scope n

theorem Calm.child (h : Calm p.draft n) (hc : c ∈ p.draft.arena.children n) : Calm p.draft c :=
  h.imp_right fun ⟨scope, hfirst, hbelow⟩ => ⟨scope, hfirst, hbelow.tail hc⟩

/-- **A change below a calm place** leaves it calm, unless it makes its own node another one. -/
theorem Calm.framed (h : Calm p.draft n) (hp : Sound env p) (hpq : Evolves env p q)
    (hframed : Arena.Framed n p.draft.arena q.draft.arena) (hn : n < p.draft.arena.size)
    (hkind : (p.draft.arena.label n).kind.isParent = true →
      (q.draft.arena.label n).kind.isParent = true) : Calm q.draft n := by
  have hasc := hp.ascending
  rcases h with hnone | ⟨scope, ⟨root, hroot, hfirst⟩, hbelow⟩
  · exact .inl (hpq.parentless hnone)
  · have hparent : (q.draft.arena.label scope).kind.isParent = true := by
      by_cases heq : scope = n
      · exact heq ▸ hkind (heq ▸ hfirst.condition_eq)
      · have hle := hasc.le_of_below hbelow
        have hlt := Nat.lt_of_le_of_ne hle heq
        rw [Arena.label_congr (hframed.slot?_above hasc hlt (Nat.lt_trans hlt hn))]
        exact hfirst.condition_eq
    refine .inr ⟨scope, ⟨root, hpq.root_eq.trans hroot, ?_⟩, ?_⟩
    · exact hframed.first hasc hfirst hbelow hparent hn
    · -- the path from the scope ends with the node itself, which is where the change begins
      rcases Relation.ReflTransGen.cases_tail hbelow with heq | ⟨y, hy, hstep⟩
      · rw [heq]
      · have hlt := hasc.lt_child y n hstep
        have hylt := Nat.lt_trans hlt hn
        have hynot : ¬p.draft.arena.Below n y := hasc.not_below_parent hstep
        rw [← Arena.children_congr (hframed.outside y hylt hynot)] at hstep
        exact (hframed.below_after hasc hy hylt hynot).tail hstep

/-- A calm place lies in the parent scope of the query. -/
theorem Calm.isWithin {draft : Draft} (h : Calm draft n) (hasc : draft.arena.Ascending)
    (hn : n < draft.arena.size) {scope : NodeId}
    (hscope : draft.find? (·.kind.isParent) = some scope) : draft.arena.isWithin n scope = true := by
  have hfirst := (find?_eq_some_iff hasc).mp hscope
  rcases h with hnone | ⟨scope', hfirst', hbelow⟩
  · obtain ⟨root, -, hf⟩ := hfirst
    have hparent := hf.condition_eq
    rw [hnone] at hparent
    exact absurd hparent (by simp)
  · rw [hfirst.unique hasc hfirst']
    exact hasc.isWithin_of_below hbelow hn

/-- In a calm place nothing restricts a scan. -/
theorem Sees.unrestricted_of_calm {recur : NodeId → Compile Fragment} {link : Link}
    {post : Option Fragment}
    (hp : Sound env p) (hcalm : Calm p.draft n) (hn : n < p.draft.arena.size)
    (h : Sees env recur n link p post q) : post = none ∧ Looked env p q := by
  cases h with
  | unrestricted _ hlooked => exact ⟨rfl, hlooked⟩
  | restricted scope filter s t hlooked hscope hwithin hexec =>
    rw [hlooked.draft_eq] at hscope hwithin
    exact absurd ((hcalm.isWithin hp.ascending hn hscope).symm.trans hwithin) (by simp)

/-! ## Expansions in a calm place -/

/-- What a compilation changes in a calm place. -/
def Local (env : Environment) (recur : NodeId → Compile Fragment) : Prop :=
  ∀ (n : Nat) (p q : Progress) (fragment : Fragment), Sound env p → Calm p.draft n →
    n < p.draft.arena.size → exec (recur n) p = (.ok fragment, q) →
      Arena.Framed n p.draft.arena q.draft.arena ∧
        ((p.draft.arena.label n).kind.isExpansion = false →
          q.draft.arena.slot? n = p.draft.arena.slot? n)

section Local

variable {recur : NodeId → Compile Fragment} {link target : Link} {left right : String}

/-- **Join values** in a calm place: whatever was changed is below the expansion, and then the new
node is pushed. -/
theorem Joins.framed (hrecur : Local env recur) (hp : Sound env p) (hcalm : Calm p.draft n)
    (hparent : (p.draft.arena.label n).kind.isParent = false)
    (h : Joins env recur n link left right p v q) :
    ∃ (s : Progress) (label : Label), Evolves env p s ∧ v = s.draft.arena.size ∧
      q.draft = { s.draft with arena := (s.draft.arena.push label).1 } ∧
      Arena.Framed n p.draft.arena s.draft.arena ∧
      s.draft.arena.slot? n = p.draft.arena.slot? n := by
  have hasc := hp.ascending
  cases h with
  | keys m _ _ _ hdraft _ => exact ⟨p, _, .refl hp, rfl, hdraft, .refl n _, rfl⟩
  | scan m s t u _ filter post values hits hquery hlooked hexec hevolves hsees hevolves' _ hdraft _ _ _ =>
    have hmem := List.mem_of_getElem? hquery
    have hn := Arena.lt_size_of_mem_children hmem
    have hlt := hasc.lt_child n m hmem
    have hs := (hlooked.evolves hp).sound
    have hsdraft := hlooked.draft_eq
    obtain ⟨hframed, -⟩ := hrecur m { s with aggregating := false } t filter ⟨hs.ascending, hs.faithful⟩
      (by rw [hsdraft]; exact hcalm.child hmem) (by rw [hsdraft]; exact hasc.child_lt n m hmem) hexec
    rw [hsdraft] at hframed
    have hslot : t.draft.arena.slot? n = p.draft.arena.slot? n := hframed.slot?_above hasc hlt hn
    have hframed' : Arena.Framed n p.draft.arena t.draft.arena :=
      hframed.of_below hasc (.of_mem hmem) hn
    -- the place is still calm after the scan, so that its visibility is not restricted and changes
    -- nothing more
    have hcalm' : Calm ({ t with aggregating := s.aggregating } : Progress).draft n :=
      hcalm.framed hp hevolves hframed' hn fun htrue => by
        rw [hparent] at htrue
        exact absurd htrue (by simp)
    have hu := (hsees.unrestricted_of_calm hevolves.sound hcalm'
      (Nat.lt_of_lt_of_le hn hframed.size_le)).2.draft_eq
    refine ⟨u, _, hevolves.trans hevolves', rfl, hdraft, ?_, ?_⟩
    · rw [hu]
      exact hframed'
    · rw [hu]
      exact hslot

/-- The values of a first scan, made the query of the expansion. -/
theorem Joins.requeried_framed {t u : Progress} {w : NodeId} (hrecur : Local env recur)
    (hp : Sound env p) (hcalm : Calm p.draft n) (hn : n < p.draft.arena.size)
    (hparent : (p.draft.arena.label n).kind.isParent = false)
    (h : Joins env recur n link left right p w s) (hlooked : Looked env s t)
    (hlooked' : Looked env
      { t with draft := { t.draft with arena := t.draft.arena.setChild n 0 w } } u) :
    Arena.Framed n p.draft.arena u.draft.arena ∧ (u.draft.arena.label n).kind.isParent = false := by
  obtain ⟨x, label, -, hw, hdraft, hframed, hslot⟩ := h.framed hrecur hp hcalm hparent
  have hudraft := hlooked'.draft_eq
  rw [hlooked.draft_eq, hdraft, hw] at hudraft
  have hnx := Nat.lt_of_lt_of_le hn hframed.size_le
  rw [hudraft]
  refine ⟨hframed.trans (.push_setChild 0 label hnx), ?_⟩
  simp only [Arena.label_setChild]
  rw [Arena.label_push_of_lt label hnx, Arena.label_congr hslot]
  exact hparent

/-- **Resolution** in a calm place changes the arena below the expansion only. -/
theorem Resolved.framed (hrecur : Local env recur) (hp : Sound env p) (hcalm : Calm p.draft n)
    (hn : n < p.draft.arena.size) (hparent : (p.draft.arena.label n).kind.isParent = false)
    (h : Resolved env recur n target link p v q) :
    Arena.Framed n p.draft.arena q.draft.arena := by
  cases h with
  | inPlace _ _ _ _ hdraft _ =>
    rw [hdraft]
  | joined path first last s _ _ _ _ _ _ hlooked hjoins =>
    have hs := (hlooked.evolves hp).sound
    rw [← hlooked.draft_eq] at hcalm hparent ⊢
    obtain ⟨u, label, -, -, hdraft, hframed, -⟩ := hjoins.framed hrecur hs hcalm hparent
    rw [hdraft]
    exact hframed.trans (.push n _ label)
  | generated s _ _ _ hjoins _ hlooked =>
    obtain ⟨u, label, -, -, hdraft, hframed, -⟩ := hjoins.framed hrecur hp hcalm hparent
    rw [hlooked.draft_eq, hdraft]
    exact hframed.trans (.push n _ label)
  | generatedTwice left right s t u _ w _ _ hjoins hevolves hlooked hlooked' hevolves' hjoins' =>
    obtain ⟨hset, hlabel⟩ := hjoins.requeried_framed hrecur hp hcalm hn hparent hlooked hlooked'
    have hcalm' : Calm u.draft n :=
      hcalm.framed hp (hevolves.trans hevolves') hset hn fun htrue => by
        rw [hparent] at htrue
        exact absurd htrue (by simp)
    obtain ⟨y, label', -, -, hdraft', hframed', -⟩ :=
      hjoins'.framed hrecur hevolves'.sound hcalm' hlabel
    rw [hdraft']
    exact (hset.trans hframed').trans (.push n _ label')

/-- A substitution by the query of an expansion or by a new node. -/
theorem substituted_framed (hq : Sound env q) (hn : n < q.draft.arena.size)
    (hv : q.draft.arena.child? n 0 = some v ∨ Fresh q n v) (boost : Boost) :
    Arena.Framed n q.draft.arena (substituted q.draft.arena n v boost) := by
  have hreplace : Arena.Framed n q.draft.arena (q.draft.arena.replace n v) := by
    refine .replace hq.ascending hn ?_
    rcases hv with hchild | hfresh
    · exact .inl (.of_mem (List.mem_of_getElem? hchild))
    · exact .inr (.inr hfresh.slot_eq)
  unfold substituted
  split
  · exact hreplace.trans (.modifyLabel _ n _)
  · exact hreplace

end Local

/-- **Resolution of an expansion** in a calm place. -/
theorem resolve_framed {fuel : Nat} (hrecur : Local env (nodeWithin env fuel)) {target : Link}
    (hp : Sound env p) (hcalm : Calm p.draft n)
    (h : exec (resolve env (nodeWithin env fuel) p.metadata.primary target n) p = (.ok (), q)) :
    Evolves env p q ∧ Arena.Framed n p.draft.arena q.draft.arena := by
  obtain ⟨hpq, link, v, s, hlink, hresolved, hps, rfl⟩ :=
    (wp_of_ok h).mp (leads_resolve fuel (nodeWithin_steps fuel) hp _ target n rfl)
  refine ⟨hpq, ?_⟩
  have hkind := Kind.isExpansion_of_link? hlink
  have hparent := Kind.isParent_of_isExpansion hkind
  have hn := Arena.lt_size_of_isExpansion hkind
  have hframed := hresolved.framed hrecur hp hcalm hn hparent
  exact hframed.trans (substituted_framed hps.sound (Nat.lt_of_lt_of_le hn hframed.size_le)
    (hresolved.child_or_fresh hp) _)

/-! ## Stacks of expansions -/

section Stack

variable {fuel : Nat} (hrecur : Local env (nodeWithin env fuel)) {primary target : Link}

include hrecur

/-- What the resolution of a stack below a node does in a calm place. -/
def StackFramed (env : Environment) (fuel : Nat) (primary target : Link) (depth m : Nat)
    (p : Progress) : Prop :=
  ∀ q, Sound env p → primary = p.metadata.primary → Calm p.draft m → m < p.draft.arena.size →
    exec ((p.draft.arena.expansionsWithin depth m).reverse.forM
      (resolve env (nodeWithin env fuel) primary target)) p = (.ok (), q) →
    Evolves env p q ∧ Arena.Framed m p.draft.arena q.draft.arena

omit hrecur in
/-- The stacks below some children, the last one first. -/
theorem stacks_framed {depth : Nat}
    (ih : ∀ c p, StackFramed env fuel primary target depth c p) (hp : Sound env p)
    (hprimary : primary = p.metadata.primary) (hcalm : Calm p.draft m) (ids : List NodeId)
    (hids : ∀ c ∈ ids, c ∈ p.draft.arena.children m) (hnodup : ids.Nodup)
    (h : exec ((ids.flatMap (p.draft.arena.expansionsWithin depth)).reverse.forM
      (resolve env (nodeWithin env fuel) primary target)) p = (.ok (), q)) :
    Evolves env p q ∧ Arena.FramedAll m ids p.draft.arena q.draft.arena := by
  induction ids generalizing q with
  | nil =>
    obtain ⟨-, rfl⟩ := Prod.mk.inj h
    exact ⟨.refl hp, .refl m [] _⟩
  | cons c rest ihr =>
    rw [List.flatMap_cons, List.reverse_append] at h
    obtain ⟨s, hrest, hc⟩ := exec_forM_append_ok.mp h
    obtain ⟨hps, hframed⟩ := ihr (fun c' hc' => hids c' (List.mem_cons_of_mem c hc'))
      (List.nodup_cons.mp hnodup).2 hrest
    have hmem := hids c List.mem_cons_self
    -- the stack below the child is still the one that was read before
    rw [← hframed.expansionsWithin_eq hmem (List.nodup_cons.mp hnodup).1 depth] at hc
    have hm := Arena.lt_size_of_mem_children hmem
    have hmem' : c ∈ s.draft.arena.children m := by rw [hframed.children_eq]; exact hmem
    have hcalm' : Calm s.draft m := hcalm.framed hp hps hframed.framed hm fun htrue => by
      rw [Arena.label_congr hframed.slot_eq]
      exact htrue
    obtain ⟨hsq, hlast⟩ := ih c s q hps.sound (hprimary.trans hps.grows.primary_eq.symm)
      (hcalm'.child hmem') (hps.sound.ascending.child_lt m c hmem') hc
    refine ⟨hps.trans hsq, (hframed.trans (.single hps.sound.ascending hmem' hlast)).mono ?_⟩
    intro c' hc'
    rcases List.mem_append.mp hc' with hold | hnew
    · exact List.mem_cons_of_mem c hold
    · exact List.mem_singleton.mp hnew ▸ List.mem_cons_self

/-- **Stacks** in a calm place. -/
theorem stack_framed (depth m : Nat) (p : Progress) :
    StackFramed env fuel primary target depth m p := by
  induction depth generalizing m p with
  | zero =>
    intro q hp hprimary hcalm hm h
    rw [Arena.expansionsWithin] at h
    split at h
    · rw [List.reverse_singleton, exec_forM_singleton, hprimary] at h
      exact resolve_framed hrecur hp hcalm h
    · obtain ⟨-, rfl⟩ := Prod.mk.inj h
      exact ⟨.refl hp, .refl m _⟩
  | succ depth ih =>
    intro q hp hprimary hcalm hm h
    rw [Arena.expansionsWithin] at h
    split at h
    · next hkind =>
      rw [List.reverse_cons] at h
      obtain ⟨s, hinner, hself⟩ := exec_forM_append_ok.mp h
      rw [exec_forM_singleton] at hself
      have hnotParent := Kind.isParent_of_isExpansion hkind
      -- the query of the expansion comes first, which only changes what is below it
      have hfirst : Evolves env p s ∧ Arena.Framed m p.draft.arena s.draft.arena := by
        cases hc : p.draft.arena.child? m 0 with
        | none =>
          rw [hc] at hinner
          obtain ⟨-, rfl⟩ := Prod.mk.inj hinner
          exact ⟨.refl hp, .refl m _⟩
        | some c =>
          rw [hc] at hinner
          have hmem := List.mem_of_getElem? hc
          obtain ⟨hps, hframed⟩ := ih c p s hp hprimary (hcalm.child hmem)
            (hp.ascending.child_lt m c hmem) hinner
          exact ⟨hps, hframed.of_below hp.ascending (.of_mem hmem) hm⟩
      obtain ⟨hps, hframed⟩ := hfirst
      have hcalm' : Calm s.draft m := hcalm.framed hp hps hframed hm fun htrue => by
        rw [hnotParent] at htrue
        exact absurd htrue (by simp)
      rw [hprimary.trans hps.grows.primary_eq.symm] at hself
      obtain ⟨hsq, hlast⟩ := resolve_framed hrecur hps.sound hcalm' hself
      exact ⟨hps.trans hsq, hframed.trans hlast⟩
    · obtain ⟨hpq, hframed⟩ := stacks_framed ih hp hprimary hcalm _ (fun _ hc => hc)
        (hp.ascending.nodup_children m) h
      exact ⟨hpq, hframed.framed⟩

end Stack

/-! ## Nodes in a calm place -/

/-- Some children of a node in a calm place, compiled one after the other. -/
theorem compiledAll_framed {fuel : Nat} (hrecur : Local env (nodeWithin env fuel))
    (ids : List NodeId) {fragments : List Fragment} (hp : Sound env p) (hcalm : Calm p.draft n)
    (hids : ∀ c ∈ ids, c ∈ p.draft.arena.children n)
    (h : CompiledAll (nodeWithin env fuel) ids p fragments q) :
    Evolves env p q ∧ Arena.FramedAll n ids p.draft.arena q.draft.arena := by
  induction ids generalizing p fragments with
  | nil =>
    obtain ⟨-, rfl⟩ := Prod.mk.inj h
    exact ⟨.refl hp, .refl n [] _⟩
  | cons c rest ih =>
    obtain ⟨fragment, s, fragments', hc, hrest, -⟩ := exec_mapM_cons_ok.mp h
    have hmem := hids c List.mem_cons_self
    have hn := Arena.lt_size_of_mem_children hmem
    obtain ⟨hps, -⟩ := compiled_of_ok hp hc
    obtain ⟨hframed, -⟩ := hrecur c p s fragment hp (hcalm.child hmem)
      (hp.ascending.child_lt n c hmem) hc
    have hfirst := Arena.FramedAll.single hp.ascending hmem hframed
    have hcalm' : Calm s.draft n := hcalm.framed hp hps hfirst.framed hn fun htrue => by
      rw [Arena.label_congr hfirst.slot_eq]
      exact htrue
    obtain ⟨hsq, hlast⟩ := ih hps.sound hcalm' (fun c' hc' => by
      rw [hfirst.children_eq]
      exact hids c' (List.mem_cons_of_mem c hc')) hrest
    exact ⟨hps.trans hsq, hfirst.trans hlast⟩

/-- Removing the name of a link changes fields only, so the stack stays the same. -/
theorem stripped_framed (p : Progress) (n : Nat) (link : Link) :
    Arena.Framed n p.draft.arena (stripped p n link).draft.arena ∧
      (stripped p n link).draft.arena.expansions n = p.draft.arena.expansions n := by
  unfold stripped
  split
  · exact ⟨.refl n _, rfl⟩
  · next name hname =>
    obtain ⟨hsize, hkinds, hchildren, -⟩ := p.draft.arena.stripName_spec n name
    refine ⟨.of_children hsize hchildren fun i _ hnot => ?_, ?_⟩
    · exact Arena.slot?_stripName _ name
        fun hmem => hnot (Arena.Ascending.below_of_mem_descendantsWithin _ hmem)
    · unfold Arena.expansions
      simp only [hsize]
      exact Arena.expansionsWithin_congr _ (fun x _ => by rw [hkinds]) fun x _ => hchildren x

/-- A compiled expansion in a calm place. -/
theorem Expanded.framed {fuel : Nat} (hrecur : Local env (nodeWithin env fuel)) (hp : Sound env p)
    (hcalm : Calm p.draft n) {fragment : Fragment}
    (h : Expanded env (nodeWithin env fuel) n p fragment q) :
    Arena.Framed n p.draft.arena q.draft.arena := by
  obtain ⟨link, target, s, hlink, -, hstack, hstrip, hps, hexec⟩ := h
  have hkind := Kind.isExpansion_of_link? hlink
  have hparent := Kind.isParent_of_isExpansion hkind
  have hn := Arena.lt_size_of_isExpansion hkind
  have hvacuous : ∀ t : Progress, (p.draft.arena.label n).kind.isParent = true →
      (t.draft.arena.label n).kind.isParent = true := fun t htrue => by
    rw [hparent] at htrue
    exact absurd htrue (by simp)
  have hstripped := stripped_framed p n link
  have hcalm₁ := hcalm.framed hp hstrip hstripped.1 hn (hvacuous _)
  have hn₁ := Nat.lt_of_lt_of_le hn hstripped.1.size_le
  rw [← hstripped.2] at hstack
  obtain ⟨-, hframed⟩ := stack_framed hrecur _ n _ s hstrip.sound
    hstrip.grows.primary_eq.symm hcalm₁ hn₁ hstack
  have hframed' := hstripped.1.trans hframed
  have hcalm₂ := hcalm.framed hp hps hframed' hn (hvacuous _)
  obtain ⟨hlast, -⟩ := hrecur n s q fragment hps.sound hcalm₂
    (Nat.lt_of_lt_of_le hn hframed'.size_le) hexec
  exact hframed'.trans hlast

/-- **Compilations in a calm place** change the arena below their node only. -/
theorem nodeWithin_framed (fuel : Nat) : Local env (nodeWithin env fuel) := by
  induction fuel with
  | zero =>
    intro n p q fragment hp _ _ h
    obtain ⟨-, bound, hbound, -⟩ := compiled_of_ok hp h
    omega
  | succ fuel ih =>
    intro n p q fragment hp hcalm hn h
    obtain ⟨-, bound, hbound, hcompiled⟩ := compiled_of_ok hp h
    obtain rfl : fuel = bound := by omega
    -- clauses are compiled one after the other, and each one is a child
    have hall : ∀ {ids fragments s}, ids = p.draft.arena.children n →
        CompiledAll (nodeWithin env fuel) ids p fragments s →
        Arena.Framed n p.draft.arena s.draft.arena ∧
          s.draft.arena.slot? n = p.draft.arena.slot? n := by
      rintro ids fragments s rfl hall
      obtain ⟨-, hframed⟩ := compiledAll_framed ih _ hp hcalm (fun _ hc => hc) hall
      exact ⟨hframed.framed, hframed.slot_eq⟩
    have hlooked : ∀ {s}, Looked env p s → Arena.Framed n p.draft.arena s.draft.arena ∧
        s.draft.arena.slot? n = p.draft.arena.slot? n := by
      intro s hlooked
      rw [hlooked.draft_eq]
      exact ⟨.refl n _, rfl⟩
    cases hcompiled with
    | conjunction fragments _ _ hfragments => exact (hall rfl hfragments).imp_right fun h _ => h
    | disjunction fragments _ _ hfragments => exact (hall rfl hfragments).imp_right fun h _ => h
    | negation fragments _ _ _ hfragments => exact (hall rfl hfragments).imp_right fun h _ => h
    | scope path fragments _ s t _ hl hfragments path' =>
      obtain ⟨md, hgrows, rfl⟩ := hl
      obtain ⟨-, hframed⟩ := compiledAll_framed ih _
        (show Sound env { p with metadata := md, scopePath := path, scopeDepth := p.scopeDepth + 1 }
          from ⟨hp.ascending, hgrows.faithful hp.faithful⟩) hcalm (fun _ hc => hc) hfragments
      exact ⟨hframed.framed, fun _ => hframed.slot_eq⟩
    | joined child rest fragment _ _ _ hchildren hexec =>
      have hmem : child ∈ p.draft.arena.children n := by simp [hchildren]
      obtain ⟨hframed, -⟩ := ih child p q fragment hp (hcalm.child hmem)
        (hp.ascending.child_lt n child hmem) hexec
      have hsingle := Arena.FramedAll.single hp.ascending hmem hframed
      exact ⟨hsingle.framed, fun _ => hsingle.slot_eq⟩
    | childless => exact ⟨.refl n _, fun _ => rfl⟩
    | admitted => exact ⟨.refl n _, fun _ => rfl⟩
    | expansion link generated _ stack s hkind _ hexpanded =>
      have hframed := Expanded.framed ih
        (show Sound env { p with generated := stack } from ⟨hp.ascending, hp.faithful⟩) hcalm
        hexpanded
      refine ⟨hframed, fun hnot => ?_⟩
      rw [hkind] at hnot
      exact absurd hnot (by simp [Kind.isExpansion])
    | proximity distance ordered _ _ _ hl => exact (hlooked hl).imp_right fun h _ => h
    | leaf fragment _ _ hl _ => exact (hlooked hl).imp_right fun h _ => h

end LinkedSearch.Compile
