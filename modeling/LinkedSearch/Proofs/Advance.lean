import LinkedSearch.Proofs.Framing
import LinkedSearch.Proofs.Resting

/-! # Compilations settle a query

A successful compilation resolves every expansion that it meets, each from the inside out, and pays
for every scan with the expansion that it resolves:

* `Progress.expense`: the scans so far and those that are still pending.
* `Advance`: an arena that has advanced, at no greater expense.
* `resolve_advance`: resolving an expansion whose query is settled.
* `stack_advance`: resolving a stack of expansions that was computed in advance.
* `nodeWithin_advance`: every successful compilation. Outside of aggregates it settles its node. -/

namespace LinkedSearch

open Query (Arena Kind Label NodeId)

/-- **Expense**: the scans so far, and those that the expansions may still cost. -/
def Progress.expense (p : Progress) : Nat := p.scans.length + p.draft.arena.pending

/-- **Advance**, at no greater expense. -/
structure Advance (p q : Progress) : Prop where
  advanced : p.draft.arena.Advanced q.draft.arena
  expense_le : q.expense ≤ p.expense

namespace Advance

variable {p q s : Progress}

@[refl] theorem refl (p : Progress) : Advance p p := ⟨.refl _, Nat.le_refl _⟩

theorem trans (h : Advance p q) (h' : Advance q s) : Advance p s :=
  ⟨h.advanced.trans h'.advanced, Nat.le_trans h'.expense_le h.expense_le⟩

/-- Only the arena and the scans matter. -/
theorem congr {p' q' : Progress} (h : Advance p q) (hp : p'.draft = p.draft)
    (hps : p'.scans = p.scans) (hq : q'.draft = q.draft) (hqs : q'.scans = q.scans) :
    Advance p' q' := by
  refine ⟨by rw [hp, hq]; exact h.advanced, ?_⟩
  have hle := h.expense_le
  simp only [Progress.expense, hp, hps, hq, hqs] at hle ⊢
  exact hle

/-- The same arena and the same scans. -/
theorem of_same (hdraft : q.draft = p.draft) (hscans : q.scans = p.scans) : Advance p q :=
  (Advance.refl p).congr rfl rfl hdraft hscans

end Advance

namespace Compile

variable {env : Environment} {p q s : Progress} {n m c v : Nat}

theorem Looked.scans_eq (h : Looked env p q) : q.scans = p.scans := by
  obtain ⟨md, -, rfl⟩ := h
  rfl

theorem Looked.advance (h : Looked env p q) : Advance p q := .of_same h.draft_eq h.scans_eq

/-- What a successful compilation does. -/
def Advances (env : Environment) (recur : NodeId → Compile Fragment) : Prop :=
  ∀ (n : Nat) (p q : Progress) (fragment : Fragment), Sound env p → n < p.draft.arena.size →
    exec (recur n) p = (.ok fragment, q) →
      Advance p q ∧ (p.aggregating = false → q.draft.arena.Settled n)

/-! ## Expansions -/

section Expansion

variable {fuel : Nat} (hrecur : Advances env (nodeWithin env fuel)) {link target : Link}
  {left right : String}

include hrecur

/-- The visibility of a scan. The scope is not above the expansion, whose slot is left alone. -/
theorem Sees.advance (hp : Sound env p) (hn : n < p.draft.arena.size) {post : Option Fragment}
    (h : Sees env (nodeWithin env fuel) n link p post q) :
    Advance p q ∧ q.draft.arena.slot? n = p.draft.arena.slot? n := by
  cases h with
  | unrestricted _ hlooked => exact ⟨hlooked.advance, by rw [hlooked.draft_eq]⟩
  | restricted scope filter s t hlooked hscope hwithin hexec =>
    have hs := (hlooked.evolves hp).sound
    have hs' : Sound env { s with aggregating := false } := ⟨hs.ascending, hs.faithful⟩
    have hfirst := (find?_eq_some_iff hs.ascending).mp hscope
    have hlt : scope < s.draft.arena.size := by
      obtain ⟨root, -, hf⟩ := hfirst
      exact Arena.lt_size_of_isParent hf.condition_eq
    have hcalm : Calm s.draft scope := .inr ⟨scope, hfirst, .refl scope⟩
    obtain ⟨hadvance, -⟩ := hrecur scope _ t filter hs' hlt hexec
    obtain ⟨hframed, -⟩ := nodeWithin_framed fuel scope _ t filter hs' hcalm hlt hexec
    have hn' : n < s.draft.arena.size := by rw [hlooked.draft_eq]; exact hn
    have hnot : ¬s.draft.arena.Below scope n := by
      intro hbelow
      rw [hs.ascending.isWithin_of_below hbelow hn'] at hwithin
      exact absurd hwithin (by simp)
    refine ⟨hlooked.advance.trans (hadvance.congr rfl rfl rfl rfl), ?_⟩
    show t.draft.arena.slot? n = _
    rw [hframed.outside n hn' hnot]
    show s.draft.arena.slot? n = _
    rw [hlooked.draft_eq]

/-- **Join values** cost one scan at most, if the query of the expansion is settled. -/
theorem Joins.advance (hp : Sound env p)
    (hsettled : ∀ c, p.draft.arena.child? n 0 = some c → p.draft.arena.Settled c)
    (h : Joins env (nodeWithin env fuel) n link left right p v q) :
    p.draft.arena.Advanced q.draft.arena ∧ q.expense ≤ p.expense + 1 ∧
      q.draft.arena.slot? n = p.draft.arena.slot? n ∧
      (q.draft.arena.label v).kind.isExpansion = false := by
  cases h with
  | keys m _ hquery _ hdraft hscans =>
    have hn := Arena.lt_size_of_mem_children (List.mem_of_getElem? hquery)
    simp only [Progress.expense, hdraft, hscans]
    refine ⟨.push _ rfl, ?_, Arena.slot?_push_of_lt _ hn, by rw [Arena.label_push_size]; rfl⟩
    rw [Arena.pending_push _ rfl]
    exact Nat.le_succ _
  | scan m s t u _ filter post values hits hquery hlooked hexec hevolves hsees _ _ hdraft hscans _ _ =>
    have hn := Arena.lt_size_of_mem_children (List.mem_of_getElem? hquery)
    have hs := (hlooked.evolves hp).sound
    -- the query of the expansion is settled, so nothing happens to it
    have hrests := nodeWithin_rests fuel (p := { s with aggregating := false })
      ⟨hs.ascending, hs.faithful⟩ (n := m)
      (by show s.draft.arena.Settled m; rw [hlooked.draft_eq]; exact hsettled m hquery)
    have hrested := (wp_of_ok hexec).mp hrests
    have hdraft' : t.draft = p.draft := hrested.draft_eq.trans hlooked.draft_eq
    have hscans' : t.scans = p.scans := hrested.scans_eq.trans hlooked.scans_eq
    obtain ⟨hadvance, hslot⟩ := hsees.advance hrecur hevolves.sound
      (by show n < t.draft.arena.size; rw [hdraft']; exact hn)
    have hadvance : Advance p u := hadvance.congr hdraft'.symm hscans'.symm rfl rfl
    have hnu := Nat.lt_of_lt_of_le hn hadvance.advanced.size_le
    refine ⟨?_, ?_, ?_, ?_⟩
    · rw [hdraft]
      exact hadvance.advanced.trans (.push _ rfl)
    · have hle := hadvance.expense_le
      simp only [Progress.expense, hdraft, hscans, List.length_append, List.length_singleton] at hle ⊢
      rw [Arena.pending_push _ rfl]
      omega
    · rw [hdraft]
      refine (Arena.slot?_push_of_lt _ hnu).trans (hslot.trans ?_)
      show t.draft.arena.slot? n = _
      rw [hdraft']
    · rw [hdraft]
      simp only [Arena.label_push_size]
      rfl

omit hrecur in
/-- **Substitution** of a settled node for an expansion. -/
theorem substituted_advanced {arena : Arena} (h : arena.Ascending)
    (hn : (arena.label n).kind.isExpansion = true) (hv : arena.Settled v) (boost : Boost) :
    arena.Advanced (substituted arena n v boost) ∧ (substituted arena n v boost).Settled n ∧
      (substituted arena n v boost).pending + (arena.label n).kind.scanWeight =
        arena.pending := by
  have hreplace := Arena.Advanced.replace h hn hv.lt_size hv.isExpansion_eq
  have hsettled := Arena.Advanced.settled_replace h hn hv
  have hpending := Arena.pending_replace h hn hv.lt_size hv.isExpansion_eq
  unfold substituted
  split
  · have hkind := fun i => (arena.replace n v).kind_withBoost n i boost
    have hsame : (arena.replace n v).Advanced
        ((arena.replace n v).modifyLabel n fun label => { label with boost }) :=
      .of_same (Arena.size_modifyLabel ..) hkind (Arena.children_modifyLabel _ n)
    refine ⟨hreplace.trans hsame, hsame.settled hsettled, ?_⟩
    rw [Arena.pending_congr (Arena.size_modifyLabel ..) hkind]
    exact hpending
  · exact ⟨hreplace, hsettled, hpending⟩

omit hrecur in
/-- The share of the expansion pays for the scans that replaced it. -/
theorem expense_substituted (hs : Sound env s)
    (hn : (s.draft.arena.label n).kind.isExpansion = true) (hv : s.draft.arena.Settled v)
    (boost : Boost) (hle : s.expense ≤ p.expense + (s.draft.arena.label n).kind.scanWeight) :
    ({ s with draft := { s.draft with arena := substituted s.draft.arena n v boost } } :
      Progress).expense ≤ p.expense := by
  obtain ⟨-, -, hpending⟩ := substituted_advanced hs.ascending hn hv boost
  simp only [Progress.expense] at hle ⊢
  omega

omit hrecur in
/-- **One scan for an expansion** is paid for by its share, once a settled node stands in its place. -/
theorem advance_substituted (hs : Sound env s) (hn : (p.draft.arena.label n).kind.isExpansion = true)
    (hadvanced : p.draft.arena.Advanced s.draft.arena)
    (hslot : s.draft.arena.slot? n = p.draft.arena.slot? n) (hle : s.expense ≤ p.expense + 1)
    (hv : s.draft.arena.Settled v) (boost : Boost) :
    Advance p { s with draft := { s.draft with arena := substituted s.draft.arena n v boost } } ∧
      (substituted s.draft.arena n v boost).Settled n := by
  have hn' : (s.draft.arena.label n).kind.isExpansion = true := by
    rw [Arena.label_congr hslot]
    exact hn
  obtain ⟨hadvanced', hsettled, -⟩ := substituted_advanced hs.ascending hn' hv boost
  refine ⟨⟨hadvanced.trans hadvanced', expense_substituted hs hn' hv boost ?_⟩, hsettled⟩
  have hweight := Kind.scanWeight_pos hn'
  omega

/-- Join values stand in a node of their own, which is settled. -/
theorem Joins.settled (hp : Sound env p)
    (hsettled : ∀ c, p.draft.arena.child? n 0 = some c → p.draft.arena.Settled c)
    (h : Joins env (nodeWithin env fuel) n link left right p v q) : q.draft.arena.Settled v := by
  obtain ⟨-, -, -, hkind⟩ := h.advance hrecur hp hsettled
  have hfresh := h.fresh hp
  exact .of_childless hfresh.lt_size hkind hfresh.children_eq

omit hrecur in
/-- **The query of a second scan** is the node for the values of the first one. -/
theorem settled_setChild {arena : Arena} {w : Nat} (hn : n < arena.size) (hw : n < w)
    (hchildren : arena.children w = []) (hsettled : arena.Settled w) :
    ∀ c, (arena.setChild n 0 w).child? n 0 = some c → (arena.setChild n 0 w).Settled c := by
  intro c hc
  rw [Arena.child?_setChild _ _ _ hn] at hc
  cases hc
  refine .of_childless ?_ ?_ ?_
  · rw [Arena.size_setChild]
    exact hsettled.lt_size
  · rw [Arena.label_setChild]
    exact hsettled.isExpansion_eq
  · rw [Arena.children_setChild _ _ _ _ _ hn, if_neg (Nat.ne_of_gt hw), hchildren]

/-- **What an expansion resolves to** is paid for by the expansion, which it makes settled. -/
theorem Resolved.advance (hp : Sound env p) (hps : Evolves env p s)
    (hn : (p.draft.arena.label n).kind.isExpansion = true)
    (hsettled : ∀ c, p.draft.arena.child? n 0 = some c → p.draft.arena.Settled c)
    (h : Resolved env (nodeWithin env fuel) n target link p v s) (boost : Boost) :
    Advance p { s with draft := { s.draft with arena := substituted s.draft.arena n v boost } } ∧
      (substituted s.draft.arena n v boost).Settled n := by
  have hs := hps.sound
  cases h with
  | inPlace _ _ hquery _ hdraft hscans =>
    have hsame : Advance p s := .of_same hdraft hscans
    refine advance_substituted hs hn hsame.advanced (by rw [hdraft])
      (Nat.le_succ_of_le hsame.expense_le) ?_ boost
    rw [hdraft]
    exact hsettled v hquery
  | joined path first last t _ _ _ _ _ _ hlooked hjoins =>
    have ht := (hlooked.evolves hp).sound
    have hsettled' : ∀ c, t.draft.arena.child? n 0 = some c → t.draft.arena.Settled c := by
      rw [hlooked.draft_eq]
      exact hsettled
    obtain ⟨hadvanced, hle, hslot, -⟩ := hjoins.advance hrecur ht hsettled'
    have hv := hjoins.settled hrecur ht hsettled'
    rw [hlooked.draft_eq] at hslot hadvanced
    have hle' := hlooked.advance.expense_le
    exact advance_substituted hs hn hadvanced hslot (by omega) hv boost
  | generated t _ _ _ hjoins _ hlooked =>
    obtain ⟨hadvanced, hle, hslot, -⟩ := hjoins.advance hrecur hp hsettled
    have hv := hjoins.settled hrecur hp hsettled
    rw [← hlooked.draft_eq] at hslot hadvanced hv
    have hle' := hlooked.advance.expense_le
    exact advance_substituted hs hn hadvanced hslot (by omega) hv boost
  | generatedTwice left right t t' u _ w _ hgenerated hjoins hevolves hlooked hlooked' hevolves'
      hjoins' =>
    obtain ⟨hadvanced, hle, hslot, -⟩ := hjoins.advance hrecur hp hsettled
    have hfresh := hjoins.fresh hp
    have hw := hjoins.settled hrecur hp hsettled
    have htlt := Nat.lt_of_lt_of_le (Arena.lt_size_of_isExpansion hn) hevolves.size_le
    have htlabel : t.draft.arena.label n = p.draft.arena.label n := Arena.label_congr hslot
    have hudraft : u.draft.arena = t.draft.arena.setChild n 0 w := by
      rw [hlooked'.draft_eq, hlooked.draft_eq]
    have huscans : u.scans = t.scans := hlooked'.scans_eq.trans hlooked.scans_eq
    have hulabel : ∀ i, u.draft.arena.label i = t.draft.arena.label i := fun i => by
      rw [hudraft, Arena.label_setChild]
    have husettled : ∀ c, u.draft.arena.child? n 0 = some c → u.draft.arena.Settled c := by
      rw [hudraft]
      exact settled_setChild htlt hfresh.later hfresh.children_eq hw
    obtain ⟨hadvanced', hle', hslot', -⟩ := hjoins'.advance hrecur hevolves'.sound husettled
    have hv := hjoins'.settled hrecur hevolves'.sound husettled
    have hslabel : s.draft.arena.label n = p.draft.arena.label n := by
      rw [Arena.label_congr hslot', hulabel, htlabel]
    have hn' : (s.draft.arena.label n).kind.isExpansion = true := by rw [hslabel]; exact hn
    obtain ⟨hadvanced'', hsettledn, -⟩ := substituted_advanced hs.ascending hn' hv boost
    -- between the two scans the query of the expansion is another one, which advances nothing
    have hdetour : t.draft.arena.Advanced (substituted s.draft.arena n v boost) := by
      refine (hadvanced'.trans hadvanced'').of_except (n := n) ?_ ?_ ?_ ?_ ?_
      · rw [hudraft, Arena.size_setChild]
      · exact fun i => by rw [hulabel]
      · intro i hi
        rw [hudraft, Arena.children_setChild _ _ _ _ _ htlt, if_neg hi]
      · rw [htlabel]
        exact hn
      · exact hsettledn.isExpansion_eq
    refine ⟨⟨hadvanced.trans hdetour, expense_substituted hs hn' hv boost ?_⟩, hsettledn⟩
    have hexpense : u.expense = t.expense := by
      rw [Progress.expense, Progress.expense, huscans, hudraft, Arena.pending_setChild]
    rw [hslabel, Kind.scanWeight_of_isGenerated hgenerated]
    omega

/-- **Resolving an expansion** whose query is settled settles the expansion. -/
theorem resolve_advance (hp : Sound env p)
    (hsettled : (p.draft.arena.label n).kind.isExpansion = true →
      ∀ c, p.draft.arena.child? n 0 = some c → p.draft.arena.Settled c)
    (h : exec (resolve env (nodeWithin env fuel) p.metadata.primary target n) p = (.ok (), q)) :
    Evolves env p q ∧ Advance p q ∧ q.draft.arena.Settled n := by
  obtain ⟨hpq, link, v, s, hlink, hresolved, hps, rfl⟩ :=
    (wp_of_ok h).mp (leads_resolve fuel (nodeWithin_steps fuel) hp _ target n rfl)
  have hn := Kind.isExpansion_of_link? hlink
  exact ⟨hpq, hresolved.advance hrecur hp hps hn (hsettled hn) _⟩

/-! ## Stacks of expansions -/

/-- What the resolution of a stack does that was computed in an earlier arena. -/
def StackAdvances (env : Environment) (fuel : Nat) (primary target : Link) (arena : Arena)
    (depth m : Nat) : Prop :=
  ∀ p q, Sound env p → primary = p.metadata.primary → arena.Advanced p.draft.arena →
    exec ((arena.expansionsWithin depth m).reverse.forM
      (resolve env (nodeWithin env fuel) primary target)) p = (.ok (), q) →
    Evolves env p q ∧ Advance p q ∧ q.draft.arena.Settled m

omit hrecur in
/-- The stacks below some nodes, the last one first. -/
theorem stacks_advance {primary : Link} {arena : Arena} {depth : Nat} (ids : List NodeId)
    (ih : ∀ c ∈ ids, StackAdvances env fuel primary target arena depth c) (hp : Sound env p)
    (hprimary : primary = p.metadata.primary) (hadvanced : arena.Advanced p.draft.arena)
    (h : exec ((ids.flatMap (arena.expansionsWithin depth)).reverse.forM
      (resolve env (nodeWithin env fuel) primary target)) p = (.ok (), q)) :
    Evolves env p q ∧ Advance p q ∧ ∀ c ∈ ids, q.draft.arena.Settled c := by
  induction ids generalizing q with
  | nil =>
    obtain ⟨-, rfl⟩ := Prod.mk.inj h
    exact ⟨.refl hp, .refl p, by simp⟩
  | cons c rest ihr =>
    rw [List.flatMap_cons, List.reverse_append] at h
    obtain ⟨s, hrest, hc⟩ := exec_forM_append_ok.mp h
    obtain ⟨hps, hadvance, hsettled⟩ :=
      ihr (fun c' hc' => ih c' (List.mem_cons_of_mem c hc')) hrest
    obtain ⟨hsq, hadvance', hsettled'⟩ := ih c List.mem_cons_self s q hps.sound
      (hprimary.trans hps.grows.primary_eq.symm) (hadvanced.trans hadvance.advanced) hc
    refine ⟨hps.trans hsq, hadvance.trans hadvance', ?_⟩
    intro c' hc'
    rcases List.mem_cons.mp hc' with rfl | hmem
    · exact hsettled'
    · exact hadvance'.advanced.settled (hsettled c' hmem)

/-- **A stack that was computed in advance** is still the right one: where the arena has changed
since, either the change has not touched it, or it is already resolved and the resolution fails. -/
theorem stack_advance {primary : Link} {arena : Arena} (harena : arena.Ascending) (depth m : Nat)
    (hm : m < arena.size) (hdepth : arena.size ≤ depth + m) :
    StackAdvances env fuel primary target arena depth m := by
  induction depth generalizing m with
  | zero => omega
  | succ depth ih =>
    have hlater := harena.reach_children hdepth
    intro p q hp hprimary hadvanced h
    rw [Arena.expansionsWithin] at h
    split at h
    · next hkind =>
      rw [List.reverse_cons] at h
      obtain ⟨s, hinner, hself⟩ := exec_forM_append_ok.mp h
      rw [exec_forM_singleton] at hself
      have hfirst : Evolves env p s ∧ Advance p s ∧
          ∀ c, arena.child? m 0 = some c → s.draft.arena.Settled c := by
        cases hc : arena.child? m 0 with
        | none =>
          rw [hc] at hinner
          obtain ⟨-, rfl⟩ := Prod.mk.inj hinner
          exact ⟨.refl hp, .refl p, by simp⟩
        | some c =>
          rw [hc] at hinner
          obtain ⟨hlt, hreach⟩ := hlater c (List.mem_of_getElem? hc)
          obtain ⟨hps, hadvance, hsettled⟩ := ih c hlt hreach p s hp hprimary hadvanced hinner
          refine ⟨hps, hadvance, fun c' hc' => ?_⟩
          cases hc'
          exact hsettled
      obtain ⟨hps, hadvance, hsettled⟩ := hfirst
      rw [hprimary.trans hps.grows.primary_eq.symm] at hself
      obtain ⟨hsq, hadvance', hsettled'⟩ := resolve_advance hrecur hps.sound
        (fun hexpansion c hc => by
          -- the node is still an expansion, so that its query is the one that was found before
          rw [(hadvanced.trans hadvance.advanced).child?_eq hexpansion] at hc
          exact hsettled c hc) hself
      exact ⟨hps.trans hsq, hadvance.trans hadvance', hsettled'⟩
    · next hkind =>
      have hchildren : ∀ c ∈ arena.children m, StackAdvances env fuel primary target arena depth c :=
        fun c hc => ih c (hlater c hc).1 (hlater c hc).2
      obtain ⟨hpq, hadvance, hsettled⟩ := stacks_advance _ hchildren hp hprimary hadvanced h
      refine ⟨hpq, hadvance, ?_⟩
      refine (hadvanced.trans hadvance.advanced).settled_of_visited hm (eq_false_of_ne_true hkind) ?_
      exact fun c hc => hsettled c (Kind.visits_subset _ hc)

/-- A compiled expansion is settled. -/
theorem Expanded.advance (hp : Sound env p) {fragment : Fragment}
    (h : Expanded env (nodeWithin env fuel) n p fragment q) :
    Advance p q ∧ q.draft.arena.Settled n := by
  obtain ⟨link, target, s, hlink, -, hstack, hstrip, hps, hexec⟩ := h
  have hn := Arena.lt_size_of_isExpansion (Kind.isExpansion_of_link? hlink)
  have hstripped : Advance p (stripped p n link) := by
    unfold stripped
    split
    · exact .refl p
    · next name _ =>
      obtain ⟨hsize, hkinds, hchildren, -⟩ := p.draft.arena.stripName_spec n name
      refine ⟨.of_same hsize hkinds hchildren, ?_⟩
      simp only [Progress.expense, Arena.pending_congr hsize hkinds]
      exact Nat.le_refl _
  obtain ⟨-, hadvance, hsettled⟩ := stack_advance hrecur hp.ascending _ n hn (by omega) _ s
    hstrip.sound hstrip.grows.primary_eq.symm hstripped.advanced hstack
  obtain ⟨hlast, -⟩ :=
    hrecur n s q fragment hps.sound (Nat.lt_of_lt_of_le hn hps.size_le) hexec
  exact ⟨(hstripped.trans hadvance).trans hlast, hlast.advanced.settled hsettled⟩

/-! ## Nodes -/

/-- Some nodes, compiled one after the other. -/
theorem compiledAll_advance (ids : List NodeId) {fragments : List Fragment} (hp : Sound env p)
    (hids : ∀ c ∈ ids, (c : Nat) < p.draft.arena.size)
    (h : CompiledAll (nodeWithin env fuel) ids p fragments q) :
    Advance p q ∧ (p.aggregating = false → ∀ c ∈ ids, q.draft.arena.Settled c) := by
  induction ids generalizing p fragments with
  | nil =>
    obtain ⟨-, rfl⟩ := Prod.mk.inj h
    exact ⟨.refl p, by simp⟩
  | cons c rest ih =>
    obtain ⟨fragment, s, fragments', hc, hrest, -⟩ := exec_mapM_cons_ok.mp h
    obtain ⟨hps, -⟩ := compiled_of_ok hp hc
    obtain ⟨hadvance, hsettled⟩ := hrecur c p s fragment hp (hids c List.mem_cons_self) hc
    obtain ⟨hadvance', hsettled'⟩ := ih hps.sound
      (fun c' hc' => Nat.lt_of_lt_of_le (hids c' (List.mem_cons_of_mem c hc')) hps.size_le) hrest
    refine ⟨hadvance.trans hadvance', fun hquery c' hc' => ?_⟩
    rcases List.mem_cons.mp hc' with rfl | hmem
    · exact hadvance'.advanced.settled (hsettled hquery)
    · exact hsettled' (hps.aggregating_eq.trans hquery) c' hmem

end Expansion

/-- **Every successful compilation** resolves the expansions that it meets and pays for its scans
with them. Outside of aggregates it meets all of them that a later one would meet. -/
theorem nodeWithin_advance (fuel : Nat) : Advances env (nodeWithin env fuel) := by
  induction fuel with
  | zero =>
    intro n p q fragment hp _ h
    obtain ⟨-, bound, hbound, -⟩ := compiled_of_ok hp h
    omega
  | succ fuel ih =>
    intro n p q fragment hp hn h
    obtain ⟨-, bound, hbound, hcompiled⟩ := compiled_of_ok hp h
    obtain rfl : fuel = bound := by omega
    have hexist := hp.ascending.child_lt n
    -- the branches differ in what they visit: all children, the first one, or none of them
    have hclauses : ∀ {fragments s}, (p.draft.arena.label n).kind.isExpansion = false →
        CompiledAll (nodeWithin env fuel) (p.draft.arena.children n) p fragments s →
        Advance p s ∧ (p.aggregating = false → s.draft.arena.Settled n) := by
      intro fragments s hkind hall
      obtain ⟨hadvance, hsettled⟩ := compiledAll_advance ih _ hp hexist hall
      refine ⟨hadvance, fun hquery => hadvance.advanced.settled_of_visited hn hkind ?_⟩
      exact fun c hc => hsettled hquery c (Kind.visits_subset _ hc)
    have hlooked : ∀ {s}, (p.draft.arena.label n).kind.isExpansion = false →
        (p.draft.arena.label n).kind.visits (p.draft.arena.children n) = [] → Looked env p s →
        Advance p s ∧ (p.aggregating = false → s.draft.arena.Settled n) := by
      intro s hkind hvisits hl
      refine ⟨hl.advance, fun _ => hl.advance.advanced.settled_of_visited hn hkind ?_⟩
      simp [hvisits]
    cases hcompiled with
    | conjunction fragments _ hkind hall => exact hclauses (by rw [hkind]; rfl) hall
    | disjunction fragments _ hkind hall => exact hclauses (by rw [hkind]; rfl) hall
    | negation fragments _ hkind _ hall => exact hclauses (by rw [hkind]; rfl) hall
    | scope path fragments _ s t hkind hl hall path' =>
      obtain ⟨md, hgrows, rfl⟩ := hl
      obtain ⟨hadvance, hsettled⟩ := compiledAll_advance ih _
        (show Sound env { p with metadata := md, scopePath := path, scopeDepth := p.scopeDepth + 1 }
          from ⟨hp.ascending, hgrows.faithful hp.faithful⟩) hexist hall
      refine ⟨hadvance.congr rfl rfl rfl rfl, fun hquery => ?_⟩
      refine hadvance.advanced.settled_of_visited hn (by simp only [hkind]; rfl) ?_
      exact fun c hc => hsettled hquery c (Kind.visits_subset _ hc)
    | joined child rest fragment _ _ hkind hchildren hexec =>
      have hmem : child ∈ p.draft.arena.children n := by simp [hchildren]
      obtain ⟨hadvance, hsettled⟩ := ih child p q fragment hp (hexist child hmem) hexec
      have hfirst : (p.draft.arena.label n).kind.isExpansion = false ∧
          (p.draft.arena.label n).kind.visits (p.draft.arena.children n) = [child] := by
        rcases hkind with ⟨typeName, hkind⟩ | ⟨⟨typeName, hkind⟩, -⟩ <;>
          rw [hkind, hchildren] <;> exact ⟨rfl, rfl⟩
      refine ⟨hadvance, fun hquery => hadvance.advanced.settled_of_visited hn hfirst.1 ?_⟩
      rw [hfirst.2]
      simpa using hsettled hquery
    | childless hkind hchildren =>
      refine hlooked ?_ (by rw [hchildren, Kind.visits_nil]) (.refl p)
      rcases hkind with ⟨typeName, hkind⟩ | ⟨typeName, hkind⟩ <;> rw [hkind] <;> rfl
    | admitted _ hfilter => exact ⟨.refl p, fun hquery => absurd (hquery.symm.trans hfilter) (by simp)⟩
    | expansion link generated _ stack s hkind _ hexpanded =>
      have hp' : Sound env { p with generated := stack } := ⟨hp.ascending, hp.faithful⟩
      obtain ⟨hadvance, hsettled⟩ := hexpanded.advance ih hp'
      exact ⟨hadvance.congr rfl rfl rfl rfl, fun _ => hsettled⟩
    | proximity distance ordered _ _ hkind hl =>
      exact hlooked (by rw [hkind]; rfl) (by rw [hkind]; rfl) hl
    | leaf fragment _ hkind hl _ =>
      have hleaf : (p.draft.arena.label n).kind.isExpansion = false ∧
          (p.draft.arena.label n).kind.visits (p.draft.arena.children n) = [] := by
        cases hk : (p.draft.arena.label n).kind <;> rw [hk] at hkind <;>
          first | exact ⟨rfl, rfl⟩ | exact absurd hkind (by simp [Kind.isLeaf])
      exact hlooked hleaf.1 hleaf.2 hl

/-- Stacks below some nodes that were computed in advance settle these nodes. -/
theorem stacks_settle {fuel : Nat} {primary target : Link} {arena : Arena} (harena : arena.Ascending)
    {depth : Nat} (ids : List NodeId) (hids : ∀ c ∈ ids, (c : Nat) < arena.size ∧ arena.size ≤ depth + c)
    (hp : Sound env p) (hprimary : primary = p.metadata.primary)
    (hadvanced : arena.Advanced p.draft.arena)
    (h : exec ((ids.flatMap (arena.expansionsWithin depth)).reverse.forM
      (resolve env (nodeWithin env fuel) primary target)) p = (.ok (), q)) :
    Evolves env p q ∧ Advance p q ∧ ∀ c ∈ ids, q.draft.arena.Settled c :=
  stacks_advance ids (fun c hc => stack_advance (nodeWithin_advance fuel) harena depth c
    (hids c hc).1 (hids c hc).2) hp hprimary hadvanced h

end Compile

end LinkedSearch
