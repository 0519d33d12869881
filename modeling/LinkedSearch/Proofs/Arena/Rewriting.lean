import LinkedSearch.Proofs.Resolution

/-! # Rewriting an arena step by step

A compilation rewrites the arena in steps of a few kinds, and each of them is about one expansion:

* `Arena.Bare`, `Arena.Exposed`: no expansion at or below a node, and none above it.
* `Arena.ScopesBare`: no expansion below the scopes that are not within an expansion themselves.
* `Arena.Rewrite`, `Arena.Rewrites`: one step, and any number of them.
* `Arena.Pruned`: what steps keep. Exposed nodes that are no expansions keep their slots, and an
  expansion that is gone has left nothing but bare nodes behind.
* `pruned_push`, `pruned_stripName`, `pruned_requeried`, `pruned_substituted`: what each kind of step
  keeps, and with that `Rewrites.pruned`: rewriting prunes an arena. -/

namespace LinkedSearch.Query.Arena

variable {arena other last : Arena} {c e n v x : Nat}

/-! ## Bare and exposed nodes -/

/-- **Bare**: no expansion at or below a node. -/
def Bare (arena : Arena) (n : Nat) : Prop :=
  ∀ x, arena.Below n x → (arena.label x).kind.isExpansion = false

/-- **Exposed**: no expansion above a node, which may be one itself. -/
def Exposed (arena : Arena) (n : Nat) : Prop :=
  ∀ e : Nat, (arena.label e).kind.isExpansion = true → arena.Below e n → e = n

/-- **Bare scopes**: below a node, scopes with no expansion above them have none below them. -/
def ScopesBare (arena : Arena) (n : Nat) : Prop :=
  ∀ x, arena.Below n x → arena.Exposed x → (arena.label x).kind = .scope → arena.Bare x

theorem Bare.child (h : arena.Bare n) (hc : c ∈ arena.children n) : arena.Bare c :=
  fun x hx => h x (.of_child hc hx)

/-- A node without children is bare if it is no expansion. -/
theorem bare_of_childless (hkind : (arena.label n).kind.isExpansion = false)
    (hchildren : arena.children n = []) : arena.Bare n := by
  intro x hx
  rwa [hx.eq_of_childless hchildren]

/-- There is nothing above the first node. -/
theorem Ascending.exposed_zero (h : arena.Ascending) : arena.Exposed 0 :=
  fun _ _ hbelow => Nat.le_zero.mp (h.le_of_below hbelow)

/-- The scopes of a bare node are bare. -/
theorem Bare.scopesBare (h : arena.Bare n) : arena.ScopesBare n :=
  fun _ hx _ _ _ hy => h _ (hx.trans hy)

/-- The children of an exposed node are exposed if it is no expansion. -/
theorem Exposed.child (h : arena.Exposed n) (hasc : arena.Ascending)
    (hkind : (arena.label n).kind.isExpansion = false) (hc : c ∈ arena.children n) :
    arena.Exposed c := by
  intro e he hbelow
  by_contra hne
  have hen := h e he (hasc.below_parent hbelow hc hne)
  rw [hen, hkind] at he
  exact absurd he (by simp)

/-- The parent of an exposed node is exposed and no expansion. -/
theorem Exposed.parent (h : arena.Exposed c) (hasc : arena.Ascending) (hc : c ∈ arena.children n) :
    arena.Exposed n ∧ (arena.label n).kind.isExpansion = false := by
  have hlt := hasc.lt_child n c hc
  have hnone : ∀ e, (arena.label e).kind.isExpansion = true → ¬arena.Below e n := by
    intro e he hbelow
    have heq := h e he (hbelow.tail hc)
    have hle := hasc.le_of_below hbelow
    omega
  exact ⟨fun e he hbelow => absurd hbelow (hnone e he),
    eq_false_of_ne_true fun he => hnone n he (.refl n)⟩

/-- What is below an exposed and bare node is exposed as well. -/
theorem Exposed.below (h : arena.Exposed n) (hasc : arena.Ascending) (hbare : arena.Bare n)
    (hx : arena.Below n x) : arena.Exposed x := by
  induction hx with
  | refl => exact h
  | @tail y x hy hstep ih => exact ih.child hasc (hbare y hy) hstep

/-! ## Steps -/

/-- **A node that may take the place** of an expansion: the query of the expansion, or a node without
any edges. -/
def Replaces (arena : Arena) (e v : Nat) : Prop :=
  arena.child? e 0 = some v ∨
    e < v ∧ arena.slot? v = some { label := arena.label v } ∧ ∀ j, v ∉ arena.children j

/-- **A step** of rewriting, about an expansion `e`: a new node, the name of the link removed below the
expansion, a new query for it, or what it resolves to in its place. By the time the expansion gets
either of the latter two, no expansion is left in its query. -/
inductive Rewrite : Arena → Arena → Prop where
  | push (arena : Arena) (label : Label) (hlabel : label.kind.isExpansion = false) :
      Rewrite arena (arena.push label).1
  | strip (arena : Arena) (e : Nat) (name : String)
      (he : (arena.label e).kind.isExpansion = true) : Rewrite arena (arena.stripName e name)
  | requery (arena : Arena) (e : Nat) (label : Label)
      (he : (arena.label e).kind.isExpansion = true) (hlabel : label.kind.isExpansion = false)
      (hquery : ∀ c, arena.child? e 0 = some c → arena.Bare c) :
      Rewrite arena ((arena.push label).1.setChild e 0 arena.size)
  | resolve (arena : Arena) (e v : Nat) (boost : Boost)
      (he : (arena.label e).kind.isExpansion = true) (hv : arena.Replaces e v)
      (hbare : arena.Bare v) (hquery : ∀ c, arena.child? e 0 = some c → arena.Bare c) :
      Rewrite arena (Compile.substituted arena e v boost)

/-- Any number of steps. -/
def Rewrites : Arena → Arena → Prop := Relation.ReflTransGen Rewrite

@[refl] theorem Rewrites.refl (arena : Arena) : arena.Rewrites arena := Relation.ReflTransGen.refl

theorem Rewrites.trans (h : arena.Rewrites other) (h' : other.Rewrites last) : arena.Rewrites last :=
  Relation.ReflTransGen.trans h h'

theorem Rewrite.rewrites (h : arena.Rewrite other) : arena.Rewrites other :=
  Relation.ReflTransGen.single h

/-! ## What takes the place of an expansion -/

section Substituted

variable (hasc : arena.Ascending) (he : (arena.label e).kind.isExpansion = true)
  (hv : arena.Replaces e v) (boost : Boost)

include hasc hv in
/-- A node that may take the place of an expansion exists, and comes after it. -/
theorem Replaces.lt : v < arena.size ∧ e < v ∧
    (∀ i ∈ arena.children v, arena.Below e i ∧ e ≠ i) := by
  rcases hv with hchild | ⟨hlt, hslot, -⟩
  · have hmem := List.mem_of_getElem? hchild
    have hev := hasc.lt_child e v hmem
    refine ⟨hasc.child_lt e v hmem, hev, fun i hi => ⟨.of_child hmem (.of_mem hi), ?_⟩⟩
    have hvi := hasc.lt_child v i hi
    omega
  · refine ⟨lt_size_of_slot? hslot, hlt, ?_⟩
    rw [children_of_slot? hslot]
    simp

/-- A boost changes no edge, no kind and no other slot. -/
theorem substituted_boost (arena : Arena) (e v : Nat) (boost : Boost) :
    (Compile.substituted arena e v boost).size = arena.size ∧
      (∀ i, (Compile.substituted arena e v boost).children i = (arena.replace e v).children i) ∧
      (∀ i, (Compile.substituted arena e v boost).parent? i = (arena.replace e v).parent? i) ∧
      (∀ i, ((Compile.substituted arena e v boost).label i).kind =
        ((arena.replace e v).label i).kind) ∧
      ∀ i, i ≠ e → (Compile.substituted arena e v boost).slot? i = (arena.replace e v).slot? i := by
  unfold Compile.substituted
  split
  · exact ⟨by simp, fun i => children_modifyLabel _ e i, fun i => parent?_modifyLabel _ e i,
      fun i => kind_withBoost _ e i boost, fun i hi => slot?_modifyLabel_of_ne _ hi⟩
  · exact ⟨by simp, fun _ => rfl, fun _ => rfl, fun _ => rfl, fun _ _ => rfl⟩

include hasc he hv in
/-- The children after a substitution. -/
theorem children_substituted (i : Nat) :
    (Compile.substituted arena e v boost).children i =
      if i = v then [] else if i = e then arena.children v else arena.children i := by
  obtain ⟨hvlt, hlt, -⟩ := hv.lt hasc
  rw [(substituted_boost arena e v boost).2.1, children_replace (Nat.ne_of_lt hlt)
    (lt_size_of_isExpansion he) hvlt (hasc.not_mem_children_self v)]

include hasc he hv in
/-- The kinds after a substitution. -/
theorem kind_substituted (i : Nat) :
    ((Compile.substituted arena e v boost).label i).kind =
      if i = e then (arena.label v).kind else (arena.label i).kind := by
  obtain ⟨hvlt, hlt, -⟩ := hv.lt hasc
  rw [(substituted_boost arena e v boost).2.2.2.1, label_replace (Nat.ne_of_lt hlt)
    (lt_size_of_isExpansion he) hvlt (hasc.not_mem_children_self v)]
  split <;> rfl

include hasc he hv in
/-- Nodes with no expansion above them keep their slots, other than the expansion. -/
theorem slot?_substituted (hx : arena.Exposed x) (hne : x ≠ e) :
    (Compile.substituted arena e v boost).slot? x = arena.slot? x := by
  obtain ⟨hvlt, hlt, hinner⟩ := hv.lt hasc
  rw [(substituted_boost arena e v boost).2.2.2.2 x hne, slot?_replace (Nat.ne_of_lt hlt) hvlt
    (hasc.not_mem_children_self v)]
  have hnot : x ∉ arena.children v := fun hi => (hinner x hi).2 (hx e he (hinner x hi).1)
  rw [if_neg hne, if_neg hnot]
  split
  · next heq =>
    subst heq
    rcases hv with hchild | ⟨-, hslot, -⟩
    · have hmem := List.mem_of_getElem? hchild
      exact absurd (hx e he (.of_mem hmem)) (Ne.symm hne)
    · rw [hslot]
      rfl
  · rfl

end Substituted

/-! ## What steps keep -/

/-- **Pruning** of an arena: what steps of rewriting keep. -/
structure Pruned (arena other : Arena) : Prop where
  ascending : other.Ascending
  size_le : arena.size ≤ other.size
  slot_eq : ∀ n : Nat, n < arena.size → arena.Exposed n → (arena.label n).kind.isExpansion = false →
    other.slot? n = arena.slot? n
  exposed : ∀ n : Nat, n < arena.size → arena.Exposed n → other.Exposed n
  remaining : ∀ n, (other.label n).kind.isExpansion = true → (arena.label n).kind.isExpansion = true
  shape : ∀ n : Nat, n < arena.size → (arena.label n).kind.isExpansion = false →
    (other.label n).kind = (arena.label n).kind ∧
      (other.children n = arena.children n ∨ other.children n = [])
  emptied : ∀ e, (arena.label e).kind.isExpansion = true →
    (other.label e).kind.isExpansion = false → other.Bare e

namespace Pruned

theorem refl (h : arena.Ascending) : arena.Pruned arena where
  ascending := h
  size_le := Nat.le_refl _
  slot_eq := fun _ _ _ _ => rfl
  exposed := fun _ _ => id
  remaining := fun _ => id
  shape := fun _ _ _ => ⟨rfl, .inl rfl⟩
  emptied := fun e he hnot => absurd (he.symm.trans hnot) (by simp)

/-- **Bare nodes stay bare.** -/
theorem bare (h : arena.Pruned other) (hasc : arena.Ascending) (hn : n < arena.size)
    (hbare : arena.Bare n) : other.Bare n := by
  suffices hall : ∀ x, other.Below n x → arena.Below n x by
    intro x hx
    have hold := hall x hx
    have hkind := hbare x hold
    rw [(h.shape x (hasc.below_lt_size hold hn) hkind).1]
    exact hkind
  intro x hx
  induction hx with
  | refl => rfl
  | @tail y x _ hstep ih =>
    rcases (h.shape y (hasc.below_lt_size ih hn) (hbare y ih)).2 with heq | hnil
    · rw [heq] at hstep
      exact ih.tail hstep
    · rw [hnil] at hstep
      exact absurd hstep (by simp)

theorem trans (h : arena.Pruned other) (h' : other.Pruned last) : arena.Pruned last where
  ascending := h'.ascending
  size_le := Nat.le_trans h.size_le h'.size_le
  slot_eq := by
    intro n hn hexposed hkind
    have hslot := h.slot_eq n hn hexposed hkind
    rw [h'.slot_eq n (Nat.lt_of_lt_of_le hn h.size_le) (h.exposed n hn hexposed)
      (by rwa [label_congr hslot]), hslot]
  exposed := fun n hn hexposed =>
    h'.exposed n (Nat.lt_of_lt_of_le hn h.size_le) (h.exposed n hn hexposed)
  remaining := fun n hkind => h.remaining n (h'.remaining n hkind)
  shape := by
    intro n hn hkind
    obtain ⟨hkind₁, hchildren₁⟩ := h.shape n hn hkind
    obtain ⟨hkind₂, hchildren₂⟩ :=
      h'.shape n (Nat.lt_of_lt_of_le hn h.size_le) (by rwa [hkind₁])
    refine ⟨hkind₂.trans hkind₁, ?_⟩
    rcases hchildren₂ with heq | hnil
    · rwa [heq]
    · exact .inr hnil
  emptied := by
    intro e he hnot
    cases hother : (other.label e).kind.isExpansion with
    | true => exact h'.emptied e hother hnot
    | false =>
      have hlt := Nat.lt_of_lt_of_le (lt_size_of_isExpansion he) h.size_le
      exact h'.bare h.ascending hlt (h.emptied e he hother)

/-- An arena in which no edge leads to an exposed node anew keeps nodes exposed. -/
theorem exposed_of_edges (hasc : arena.Ascending)
    (hremaining : ∀ n, (other.label n).kind.isExpansion = true →
      (arena.label n).kind.isExpansion = true)
    (hedges : ∀ y x, x ∈ other.children y → x < arena.size → arena.Exposed x →
      x ∈ arena.children y) (hn : n < arena.size) (hexposed : arena.Exposed n) :
    other.Exposed n := by
  intro e he hbelow
  suffices harena : arena.Below e n from hexposed e (hremaining e he) harena
  clear he
  induction hbelow with
  | refl => rfl
  | @tail y n _ hstep ih =>
    have hedge := hedges y n hstep hn hexposed
    exact (ih (lt_size_of_mem_children hedge) (hexposed.parent hasc hedge).1).tail hedge

/-- A step after which no expansion is gone. -/
theorem of_remaining (hasc' : other.Ascending) (hasc : arena.Ascending)
    (hsize : arena.size ≤ other.size)
    (hslot : ∀ n : Nat, n < arena.size → arena.Exposed n →
      (arena.label n).kind.isExpansion = false → other.slot? n = arena.slot? n)
    (hkind : ∀ n : Nat, n < arena.size → (other.label n).kind = (arena.label n).kind)
    (hnew : ∀ n : Nat, arena.size ≤ n → (other.label n).kind.isExpansion = false)
    (hchildren : ∀ n : Nat, (arena.label n).kind.isExpansion = false →
      other.children n = arena.children n)
    (hedges : ∀ y x, x ∈ other.children y → x < arena.size → arena.Exposed x →
      x ∈ arena.children y) : arena.Pruned other := by
  have hremaining : ∀ n, (other.label n).kind.isExpansion = true →
      (arena.label n).kind.isExpansion = true := fun _ => isExpansion_of_kinds hkind hnew
  exact {
    ascending := hasc'
    size_le := hsize
    slot_eq := hslot
    exposed := fun n => exposed_of_edges hasc hremaining hedges
    remaining := hremaining
    shape := fun n hn hnot => ⟨hkind n hn, .inl (hchildren n hnot)⟩
    emptied := by
      intro e he hnot
      rw [hkind e (lt_size_of_isExpansion he), he] at hnot
      exact absurd hnot (by simp) }

/-- An exposed and bare node and everything below it are as they were. -/
theorem below_eq (h : arena.Pruned other) (hasc : arena.Ascending) (hn : n < arena.size)
    (hexposed : arena.Exposed n) (hbare : arena.Bare n) (hx : arena.Below n x) :
    other.slot? x = arena.slot? x :=
  h.slot_eq x (hasc.below_lt_size hx hn) (hexposed.below hasc hbare hx) (hbare x hx)

/-- **Scopes stay bare**: those without expansions above them have none below. -/
theorem scopesBare (h : arena.Pruned other) (hasc : arena.Ascending) (hn : n < arena.size)
    (hexposed : arena.Exposed n) (hscopes : arena.ScopesBare n) : other.ScopesBare n := by
  intro x hx hxexposed hkind
  -- a node that is reached now was reached before, or an expansion above it is gone
  suffices hreached : (arena.Below n x ∧ arena.Exposed x) ∨ other.Bare x by
    rcases hreached with ⟨hbelow, hold⟩ | hbare
    · have hlt := hasc.below_lt_size hbelow hn
      cases hexp : (arena.label x).kind.isExpansion with
      | true =>
        exact h.emptied x hexp (by rw [hkind]; rfl)
      | false =>
        have hkind' : (arena.label x).kind = .scope := by
          rw [← label_congr (h.slot_eq x hlt hold hexp)]
          exact hkind
        exact h.bare hasc hlt (hscopes x hbelow hold hkind')
    · exact hbare
  clear hkind
  induction hx with
  | refl => exact .inl ⟨.refl n, hexposed⟩
  | @tail y x _ hstep ih =>
    obtain ⟨hyexposed, hynot⟩ := hxexposed.parent h.ascending hstep
    rcases ih hyexposed with ⟨hbelow, hold⟩ | hbare
    · have hlt := hasc.below_lt_size hbelow hn
      cases hexp : (arena.label y).kind.isExpansion with
      | true => exact .inr ((h.emptied y hexp hynot).child hstep)
      | false =>
        have hstep' : x ∈ arena.children y := by
          rw [← children_congr (h.slot_eq y hlt hold hexp)]
          exact hstep
        exact .inl ⟨hbelow.tail hstep', hold.child hasc hexp hstep'⟩
    · exact .inr (hbare.child hstep)

end Pruned

/-! ## What each kind of step keeps -/

/-- A new node prunes nothing. -/
theorem pruned_push {label : Label} (hasc : arena.Ascending)
    (hlabel : label.kind.isExpansion = false) : arena.Pruned (arena.push label).1 := by
  refine .of_remaining (hasc.push label) hasc (by simp) (fun n hn _ _ => slot?_push_of_lt label hn)
    (fun n hn => by rw [label_push_of_lt label hn]) (fun n => isExpansion_push hlabel)
    (fun n _ => children_push label n) ?_
  intro y x hx _ _
  rwa [children_push] at hx

/-- Removing the name of a link prunes nothing. -/
theorem pruned_stripName (hasc : arena.Ascending) (he : (arena.label e).kind.isExpansion = true)
    (name : String) : arena.Pruned (arena.stripName e name) := by
  obtain ⟨hsize, hkind, hchildren, hparent⟩ := arena.stripName_spec e name
  refine .of_remaining (hasc.of_edges hsize hchildren hparent) hasc (Nat.le_of_eq hsize.symm) ?_
    (fun n _ => hkind n) ?_ (fun n _ => hchildren n) ?_
  · intro n _ hexposed hnot
    refine slot?_stripName arena name fun hmem => ?_
    rw [hexposed e he (hasc.mem_descendants.mp hmem), hnot] at he
    exact absurd he (by simp)
  · intro n hn
    rw [hkind, label_of_size_le hn]
    rfl
  · intro y x hx _ _
    rwa [hchildren] at hx

/-- A new query for an expansion prunes nothing: it takes the place of a child of the expansion only. -/
theorem pruned_requeried {label : Label} (hasc : arena.Ascending)
    (he : (arena.label e).kind.isExpansion = true) (hlabel : label.kind.isExpansion = false) :
    arena.Pruned ((arena.push label).1.setChild e 0 arena.size) := by
  have helt := lt_size_of_isExpansion he
  have hloose : ∀ j, arena.size ∉ (arena.push label).1.children j := by
    intro j hj
    rw [children_push] at hj
    exact Nat.lt_irrefl _ (hasc.child_lt j _ hj)
  have hne : ∀ {n}, (arena.label n).kind.isExpansion = false → n ≠ e := fun hnot =>
    (ne_of_isExpansion he hnot).symm
  refine .of_remaining ((hasc.push label).setChild 0 helt (by simp) hloose) hasc (by simp) ?_
    (fun n hn => by rw [label_push_setChild label hn]) ?_
    (fun n hnot => children_push_setChild label helt (hne hnot))
    fun y x hx hlt _ => mem_children_push_setChild label helt hx hlt
  · intro n hn _ hnot
    rw [slot?_setChild _ _ _ _ _ (Nat.ne_of_lt helt), if_neg (hne hnot), if_neg (Nat.ne_of_lt hn),
      slot?_push_of_lt label hn]
  · intro n hn
    rw [label_setChild]
    exact isExpansion_push hlabel hn

section Substituted

variable (hasc : arena.Ascending) (he : (arena.label e).kind.isExpansion = true)
  (hv : arena.Replaces e v) (boost : Boost)

include hasc he hv in
/-- Edges after a substitution lead where some path led before: those of what takes the place of the
expansion start from the expansion now. -/
theorem mem_children_substituted {i c : Nat}
    (hc : c ∈ (Compile.substituted arena e v boost).children i) :
    i ≠ v ∧ (i = e ∧ c ∈ arena.children v ∧ arena.Below e c ∧ e ≠ c ∨
      i ≠ e ∧ c ∈ arena.children i) := by
  rw [children_substituted hasc he hv] at hc
  split at hc
  · exact absurd hc (by simp)
  · next hiv =>
    split at hc
    · next hie => exact ⟨hiv, .inl ⟨hie, hc, (hv.lt hasc).2.2 c hc⟩⟩
    · next hie => exact ⟨hiv, .inr ⟨hie, hc⟩⟩

include hasc he hv in
/-- What is below a node after a substitution was below it before. -/
theorem below_substituted {i : Nat} (h : (Compile.substituted arena e v boost).Below i x) :
    arena.Below i x := by
  induction h with
  | refl => rfl
  | tail _ hstep ih =>
    obtain ⟨-, ⟨rfl, -, hbelow, -⟩ | ⟨-, hmem⟩⟩ := mem_children_substituted hasc he hv boost hstep
    · exact ih.trans hbelow
    · exact ih.tail hmem

include hasc he hv in
/-- No expansion appears in the place of another one. -/
theorem remaining_substituted (hbare : arena.Bare v)
    (hn : ((Compile.substituted arena e v boost).label n).kind.isExpansion = true) :
    (arena.label n).kind.isExpansion = true ∧ n ≠ e := by
  rw [kind_substituted hasc he hv] at hn
  split at hn
  · rw [hbare v (.refl v)] at hn
    exact absurd hn (by simp)
  · next hne => exact ⟨hn, hne⟩

include hasc he hv in
/-- **Nothing but bare nodes** is left of a resolved expansion: below it, there is now what was below
the node that takes its place. -/
theorem bare_substituted (hbare : arena.Bare v) :
    (Compile.substituted arena e v boost).Bare e := by
  suffices hall : ∀ x : Nat, (Compile.substituted arena e v boost).Below e x →
      x = e ∨ arena.Below v x ∧ x ≠ e by
    intro x hx
    rw [kind_substituted hasc he hv]
    rcases hall x hx with rfl | ⟨hbelow, hne⟩
    · rw [if_pos rfl]
      exact hbare v (.refl v)
    · rw [if_neg hne]
      exact hbare x hbelow
  intro x hx
  induction hx with
  | refl => exact .inl rfl
  | @tail y x _ hstep ih =>
    obtain ⟨-, ⟨-, hmem, -, hne⟩ | ⟨hye, hmem⟩⟩ := mem_children_substituted hasc he hv boost hstep
    · exact .inr ⟨.of_mem hmem, hne.symm⟩
    · obtain ⟨hbelow, -⟩ := ih.resolve_left hye
      have hlt := (hv.lt hasc).2.1
      have hle := hasc.le_of_below hbelow
      have hstepLt := hasc.lt_child y x hmem
      exact .inr ⟨hbelow.tail hmem, by omega⟩

include hasc he hv in
/-- A resolved expansion is all that is pruned when something takes its place. -/
theorem pruned_substituted (hbare : arena.Bare v) :
    arena.Pruned (Compile.substituted arena e v boost) := by
  obtain ⟨hvlt, hlt, -⟩ := hv.lt hasc
  obtain ⟨hsize, hchildrenEq, hparentEq, -, -⟩ := substituted_boost arena e v boost
  -- something is nobody else's child if it takes the place of the expansion: its query is the child of
  -- the expansion alone, and new nodes are loose
  have hreplace : (arena.replace e v).Ascending := by
    rcases hv with hchild | ⟨-, hslot, hloose⟩
    · exact hasc.replace_child (List.mem_of_getElem? hchild)
    · refine hasc.replace (lt_size_of_isExpansion he) ?_ fun j hj => absurd hj (hloose j)
      rw [children_of_slot? hslot]
      simp
  have hne : ∀ {n}, (arena.label n).kind.isExpansion = false → n ≠ e := fun hnot =>
    (ne_of_isExpansion he hnot).symm
  have hremaining := fun n => remaining_substituted (n := n) hasc he hv boost hbare
  constructor
  · exact hreplace.of_edges (by rw [hsize, size_replace]) hchildrenEq hparentEq
  · exact Nat.le_of_eq hsize.symm
  · exact fun n _ hexposed hnot => slot?_substituted hasc he hv boost hexposed (hne hnot)
  · refine fun n => Pruned.exposed_of_edges hasc (fun n hn => (hremaining n hn).1) ?_
    intro y x hx _ hexposed
    obtain ⟨-, ⟨-, -, hbelow, hex⟩ | ⟨-, hmem⟩⟩ := mem_children_substituted hasc he hv boost hx
    · exact absurd (hexposed e he hbelow) hex
    · exact hmem
  · exact fun n hn => (hremaining n hn).1
  · intro n _ hnot
    rw [kind_substituted hasc he hv, children_substituted hasc he hv, if_neg (hne hnot),
      if_neg (hne hnot)]
    refine ⟨rfl, ?_⟩
    split
    · exact .inr rfl
    · exact .inl rfl
  · intro e' he' hnot
    by_cases heq : e' = e
    · exact heq ▸ bare_substituted hasc he hv boost hbare
    · rw [kind_substituted hasc he hv, if_neg heq, he'] at hnot
      exact absurd hnot (by simp)

end Substituted

/-- **Every step prunes** the arena. -/
theorem Rewrite.pruned (h : arena.Rewrite other) (hasc : arena.Ascending) : arena.Pruned other := by
  cases h with
  | push label hlabel => exact pruned_push hasc hlabel
  | strip e name he => exact pruned_stripName hasc he name
  | requery e label he hlabel => exact pruned_requeried hasc he hlabel
  | resolve e v boost he hv hbare => exact pruned_substituted hasc he hv boost hbare

/-- **Rewriting prunes** the arena. -/
theorem Rewrites.pruned (h : arena.Rewrites other) (hasc : arena.Ascending) : arena.Pruned other := by
  induction h with
  | refl => exact .refl hasc
  | tail _ hstep ih => exact ih.trans (hstep.pruned ih.ascending)

end LinkedSearch.Query.Arena
