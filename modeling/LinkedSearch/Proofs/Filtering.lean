import LinkedSearch.Proofs.Crossings
import LinkedSearch.Proofs.Framing
import LinkedSearch.Proofs.Rewriting

/-! # Which scans are filtered

The visibility of a scan is looked up in the query as it is by then. The first parent scope of a query
moves up when expansions around it give way to their queries, and it is dropped when one of them gives
way to values:

* `Report.Drops`, `Dropped`: reports on expansions that take a parent scope with them.
* `Guarded`: what is known of a draft while expansions are resolved, about the place of the first parent
  scope and about the scans so far.
* `Proceeds.guarded`: no step of a compilation invalidates it.
* `scan_filtered_iff`: as long as the first parent scope is there, exactly the scans outside of it are
  filtered whose index is not always visible. -/

namespace LinkedSearch

open Query (Arena Draft Kind Label NodeId Tree)

/-! ## The first parent scope after a step -/

namespace Query.Arena

variable {arena other : Arena} {a e m n s t v y : Nat}

/-- A parent scope of an arena with a new node is one from before, unless it is that node. -/
theorem isParent_of_push {label : Label} (hparent : label.kind.isParent = false)
    (hy : ((arena.push label).1.label y).kind.isParent = true) :
    (arena.label y).kind.isParent = true := by
  have hlt := lt_size_of_isParent hy
  rw [size_push] at hlt
  rcases Nat.lt_succ_iff_lt_or_eq.mp hlt with hlt | rfl
  · rwa [← label_push_of_lt label hlt]
  · rw [label_push_size, hparent] at hy
    exact absurd hy (by simp)

/-- No parent scope is found below a node that had none below it. -/
theorem exists_parent_of_traced (hasc : arena.Ascending) (htraced : arena.Traced other)
    (hnew : ∀ y : Nat, (other.label y).kind.isParent = true →
      ∃ z : Nat, arena.Below y z ∧ (arena.label z).kind.isParent = true)
    (hbelow : other.Below a y) (hy : (other.label y).kind.isParent = true) :
    ∃ z : Nat, arena.Below a z ∧ (arena.label z).kind.isParent = true := by
  obtain ⟨z, hyz, hz⟩ := hnew y hy
  have hlt := Nat.lt_of_le_of_lt (hasc.le_of_below hyz) (lt_size_of_isParent hz)
  exact ⟨z, (htraced.below a y hlt hbelow).trans hyz, hz⟩

/-- **The first parent scope stays** where it is, if nothing changes on the way to it. -/
theorem first_parent_kept (hasc : arena.Ascending) (htraced : arena.Traced other)
    (hnew : ∀ y : Nat, (other.label y).kind.isParent = true →
      ∃ z : Nat, arena.Below y z ∧ (arena.label z).kind.isParent = true)
    (hfirst : arena.First (·.kind.isParent) n s)
    (hway : ∀ y : Nat, arena.Below n y → arena.Below y s →
      (other.label y).kind = (arena.label y).kind ∧ (y ≠ s → other.children y = arena.children y)) :
    other.First (·.kind.isParent) n s := by
  have hself := (hway s hfirst.below_root (.refl s)).1
  refine hasc.first_of_change (fun a y => exists_parent_of_traced hasc htraced hnew) hfirst
    hfirst.below_root (.refl s) (fun y hny hys hne => ?_) (.here s ?_)
  · obtain ⟨hkind, hchildren⟩ := hway y hny hys
    exact ⟨congrArg Kind.isParent hkind, hchildren hne⟩
  · rw [hself]
    exact hfirst.condition_eq

/-- **The first parent scope moves up** if it is the query that takes the place of an expansion, and
stays where it is otherwise. -/
theorem first_parent_substituted (hasc : arena.Ascending)
    (he : (arena.label e).kind.isExpansion = true) (hquery : arena.child? e 0 = some v)
    (hbare : arena.Bare v) (boost : Boost) (hfirst : arena.First (·.kind.isParent) 0 s)
    (hbelow : arena.Below e s → arena.Below v s) :
    ∃ t : Nat, (Compile.substituted arena e v boost).First (·.kind.isParent) 0 t ∧
      (t = s ∨ t = e ∧ s = v) := by
  have hv : arena.Replaces e v := .inl hquery
  have hmem := List.mem_of_getElem? hquery
  have hlt := hasc.lt_child e v hmem
  have hkind := kind_substituted hasc he hv boost
  have hchildren := children_substituted hasc he hv boost
  have htraced := (Rewrite.resolve arena e v boost he hv hbare (fun c hc => by
    rw [hquery] at hc
    cases hc
    exact hbare)).traced hasc
  have hnew : ∀ y, ((Compile.substituted arena e v boost).label y).kind.isParent = true →
      ∃ z, arena.Below y z ∧ (arena.label z).kind.isParent = true := by
    intro y hy
    rw [hkind] at hy
    split at hy
    · next heq => exact ⟨v, heq ▸ .of_mem hmem, hy⟩
    · exact ⟨y, .refl y, hy⟩
  -- elsewhere nothing changes
  have hsame : ∀ y, y ≠ e → y ≠ v →
      ((Compile.substituted arena e v boost).label y).kind = (arena.label y).kind ∧
        (Compile.substituted arena e v boost).children y = arena.children y := by
    intro y hye hyv
    rw [hkind, hchildren, if_neg hye, if_neg hyv, if_neg hye]
    exact ⟨rfl, rfl⟩
  by_cases hes : arena.Below e s
  · have hroot : arena.Below 0 e := by
      rcases hasc.linear hfirst.below_root hes with h | h
      · exact h
      · rw [Nat.le_zero.mp (hasc.le_of_below h)]
    have hvs := hbelow hes
    have hquery' := hasc.first_of_below (hasc.first_of_below hfirst hroot hes) (.of_mem hmem) hvs
    suffices hlast : ∃ t, (Compile.substituted arena e v boost).First (·.kind.isParent) e t ∧
        (t = s ∨ t = e ∧ s = v) by
      obtain ⟨t, ht, hcase⟩ := hlast
      refine ⟨t, hasc.first_of_change (fun a y => exists_parent_of_traced hasc htraced hnew) hfirst
        hroot hes (fun y _ hye hne => ?_) ht, hcase⟩
      have hle := hasc.le_of_below hye
      obtain ⟨hk, hc⟩ := hsame y hne (by omega)
      exact ⟨congrArg Kind.isParent hk, hc⟩
    cases hquery' with
    | here _ hn => exact ⟨e, .here e (by rw [hkind, if_pos rfl]; exact hn), .inr ⟨rfl, rfl⟩⟩
    | inside _ c _ before after hn hvchildren hbefore hinner =>
      refine ⟨s, .inside e c s before after (by rw [hkind, if_pos rfl]; exact hn)
        (by rw [hchildren, if_neg (Nat.ne_of_lt hlt), if_pos rfl, hvchildren]) (fun b hb y hy => ?_)
        (first_parent_kept hasc htraced hnew hinner fun y hcy _ => ?_), .inl rfl⟩
      · by_contra hparent
        obtain ⟨z, hz, hzparent⟩ := exists_parent_of_traced hasc htraced hnew hy
          (eq_true_of_ne_false hparent)
        have hnone : (arena.label z).kind.isParent = false := hbefore b hb z hz
        rw [hnone] at hzparent
        exact absurd hzparent (by simp)
      · have hle := hasc.le_of_below hcy
        have hvc := hasc.lt_child v c (by simp [hvchildren])
        obtain ⟨hk, hc⟩ := hsame y (by omega) (by omega)
        exact ⟨hk, fun _ => hc⟩
  · refine ⟨s, first_parent_kept hasc htraced hnew hfirst fun y _ hys => ?_, .inl rfl⟩
    obtain ⟨hk, hc⟩ := hsame y (by rintro rfl; exact hes hys)
      (by rintro rfl; exact hes (.of_child hmem hys))
    exact ⟨hk, fun _ => hc⟩

/-- The expansions that are left after a substitution have their children. -/
theorem children_substituted_of_isExpansion (hasc : arena.Ascending)
    (he : (arena.label e).kind.isExpansion = true) (hv : arena.Replaces e v)
    (hvkind : (arena.label v).kind.isExpansion = false) (boost : Boost)
    (hy : ((Compile.substituted arena e v boost).label y).kind.isExpansion = true) :
    (Compile.substituted arena e v boost).children y = arena.children y := by
  have hyv : y ≠ v := by
    rintro rfl
    rw [kind_substituted hasc he hv boost, ite_self, hvkind] at hy
    exact absurd hy (by simp)
  have hye : y ≠ e := by
    rintro rfl
    rw [kind_substituted hasc he hv boost, if_pos rfl, hvkind] at hy
    exact absurd hy (by simp)
  rw [children_substituted hasc he hv boost, if_neg hyv, if_neg hye]

end Query.Arena

/-! ## Parent scopes on record -/

/-- **Dropping** a parent scope: the expansion is above it, and is not replaced by a query that holds
the scope. -/
def Report.Drops (r : Report) (arena : Arena) (scope : NodeId) : Prop :=
  arena.Below r.id scope ∧ ∀ own, r.resolution = .inPlace own →
    ∀ c, arena.child? r.id 0 = some c → ¬arena.Below c scope

/-- One of the reports drops the scope. -/
def Dropped (arena : Arena) (scope : NodeId) (reports : List Report) : Prop :=
  ∃ r ∈ reports, r.Drops arena scope

/-- What was dropped stays dropped. -/
theorem Dropped.mono {arena : Arena} {scope : NodeId} {reports later : List Report}
    (h : Dropped arena scope reports) (hlater : reports <+: later) : Dropped arena scope later := by
  obtain ⟨r, hr, hdrops⟩ := h
  exact ⟨r, hlater.subset hr, hdrops⟩

/-- **Filtered as promised**: a scan of an index that is always visible is never filtered, and as long
as the scope was not dropped, the others are filtered if they are for an expansion outside of it. -/
def Report.Filtered (r : Report) (env : Environment) (arena : Arena) (scope : NodeId)
    (before : List Report) : Prop :=
  ∀ request mapping, r.resolution = .scan request → env.resolver.mapping request.index = .ok mapping →
    (mapping.alwaysVisible = true → request.postFilter = none) ∧
      (¬Dropped arena scope before →
        (request.postFilter.isSome = true ↔ mapping.alwaysVisible = false ∧ ¬arena.Below scope r.id))

namespace Compile

open Query.Arena (Rewrite Rewrites Traced)

variable {env : Environment} {known : NodeId → Prop} {arena other : Arena} {scope : NodeId}
  {p q : Progress} {r : Report} {e s t v x : Nat}

/-- **A node that stands for the scope**: the scope itself, or a bare node, when no expansion is left
that is open to the scope. -/
def StandsFor (arena now : Arena) (scope s : NodeId) : Prop :=
  s = scope ∨ now.Bare s ∧
    ∀ x, (now.label x).kind.isExpansion = true → ¬arena.Open scope x

/-- **A guarded draft**, that was rewritten from an arena with a parent scope: an expansion that is left
has its children as long as nothing takes the place of its query, the first parent scope is known
unless it was dropped, and so far every scan was filtered as promised. -/
structure Guarded (env : Environment) (arena : Arena) (scope : NodeId) (p : Progress) : Prop where
  rewrites : arena.Rewrites p.draft.arena
  root_eq : p.draft.root = some 0
  children : ∀ e, (p.draft.arena.label e).kind.isExpansion = true →
    p.draft.arena.children e = arena.children e ∨
      ∃ r ∈ p.reports, r.id = e ∧ r.resolution.isJoin = true
  first : ¬Dropped arena scope p.reports → ∃ s : Nat, p.draft.arena.First (·.kind.isParent) 0 s ∧
    arena.Below s scope ∧ StandsFor arena p.draft.arena scope s
  filtered : ∀ before r after, p.reports = before ++ r :: after → r.Filtered env arena scope before

namespace Guarded

/-- Only the draft and the reports matter. -/
theorem congr (h : Guarded env arena scope p) (hdraft : q.draft = p.draft)
    (hreports : q.reports = p.reports) : Guarded env arena scope q where
  rewrites := by rw [hdraft]; exact h.rewrites
  root_eq := by rw [hdraft]; exact h.root_eq
  children := by rw [hdraft, hreports]; exact h.children
  first := by rw [hdraft, hreports]; exact h.first
  filtered := by rw [hreports]; exact h.filtered

/-- **One more report** leaves a draft guarded if it is filtered as promised. -/
theorem log (h : Guarded env arena scope p) (hr : r.Filtered env arena scope p.reports) :
    Guarded env arena scope (p.log r) where
  rewrites := h.rewrites
  root_eq := h.root_eq
  children := by
    intro e he
    refine (h.children e he).imp_right ?_
    rintro ⟨r', hr', hjoin⟩
    exact ⟨r', List.mem_append_left _ hr', hjoin⟩
  first := fun hkept => h.first fun hdropped => hkept (hdropped.mono (List.prefix_append _ _))
  filtered := by
    intro before r' after heq
    have heq : p.reports ++ [r] = before ++ r' :: after := heq
    rcases List.eq_nil_or_concat after with rfl | ⟨init, last, rfl⟩
    · obtain ⟨rfl, rfl⟩ := List.append_inj' heq rfl |>.imp_right List.singleton_inj.mp
      exact hr
    · rw [List.concat_eq_append, ← List.cons_append, ← List.append_assoc] at heq
      exact h.filtered before r' init (List.append_inj' heq rfl).1

section Arena

variable (harena : arena.Ascending) (h : Guarded env arena scope p)

include harena h

/-- **Where the scope is**: until it is dropped, an expansion that may be scanned is within the first
parent scope that is found if it was below the original one. -/
theorem isWithin_iff (hkept : ¬Dropped arena scope p.reports) (hscope : arena.Below 0 scope)
    (hx : (p.draft.arena.label x).kind.isExpansion = true)
    (hopen : arena.Open 0 x ∨ arena.Open scope x) :
    ∃ s, p.draft.find? (·.kind.isParent) = some s ∧
      (p.draft.arena.isWithin x s = true ↔ arena.Below scope x) := by
  have hasc := (h.rewrites.pruned harena).ascending
  have htraced := h.rewrites.traced harena
  obtain ⟨s, hfirst, hbelow, hstands⟩ := h.first hkept
  refine ⟨s, (find?_eq_some_iff hasc).mpr ⟨0, h.root_eq, hfirst⟩, ?_⟩
  -- what is below the scope and open from the root is open from the scope
  have hscoped : arena.Below scope x → arena.Open scope x := fun hsx =>
    hopen.elim (fun h0 => h0.suffix harena hscope hsx) id
  -- either the scope is still there, or something bare stands for it
  rcases hstands with rfl | ⟨hbare, hnone⟩
  · have hroot : p.draft.arena.Below 0 x := by
      rcases hopen with h0 | hs
      · exact (htraced.open_after 0 x hx h0).below
      · exact hfirst.below_root.trans (htraced.open_after s x hx hs).below
    constructor
    · intro hwithin
      have hlt := Query.Arena.lt_size_of_isExpansion (htraced.remaining x hx)
      exact htraced.below s x hlt (hasc.below_of_isWithin hroot hwithin)
    · intro hsx
      exact hasc.isWithin_of_below (htraced.open_after s x hx (hscoped hsx)).below
        (Query.Arena.lt_size_of_isExpansion hx)
  · -- what stands for the scope is bare, and so was the scope
    have hopen := hopen.resolve_right (hnone x hx)
    have hroot := (htraced.open_after 0 x hx hopen).below
    constructor
    · intro hwithin
      rw [hbare x (hasc.below_of_isWithin hroot hwithin)] at hx
      exact absurd hx (by simp)
    · exact fun hsx => absurd (hscoped hsx) (hnone x hx)

/-- **A step** of rewriting leaves a draft guarded if the children of expansions stay, and the first
parent scope stays or moves up to a bare node. -/
theorem rewrite (hstep : p.draft.arena.Rewrite other)
    (hchildren : ∀ x, (other.label x).kind.isExpansion = true →
      other.children x = p.draft.arena.children x ∨
        ∃ r ∈ p.reports, r.id = x ∧ r.resolution.isJoin = true)
    (hfirst : ¬Dropped arena scope p.reports → ∀ s : Nat,
      p.draft.arena.First (·.kind.isParent) 0 s → arena.Below s scope →
      ∃ t : Nat, other.First (·.kind.isParent) 0 t ∧
        (t = s ∨ arena.Below t scope ∧ other.Bare t ∧ p.draft.arena.Bare s)) :
    Guarded env arena scope (p.withArena other) where
  rewrites := h.rewrites.trans hstep.rewrites
  root_eq := h.root_eq
  children := by
    intro x hx
    have hasc := (h.rewrites.pruned harena).ascending
    rcases hchildren x hx with heq | hjoin
    · rw [show (p.withArena other).draft.arena.children x = p.draft.arena.children x from heq]
      exact h.children x ((hstep.pruned hasc).remaining x hx)
    · exact .inr hjoin
  first := by
    intro hkept
    have hasc := (h.rewrites.pruned harena).ascending
    have hpruned := hstep.pruned hasc
    have htraced := h.rewrites.traced harena
    obtain ⟨s, hs, hbelow, hstands⟩ := h.first hkept
    obtain ⟨t, ht, hcase⟩ := hfirst hkept s hs hbelow
    -- nothing that is left is open to a bare scope
    have hnone : p.draft.arena.Bare s → ∀ x, (other.label x).kind.isExpansion = true →
        ¬arena.Open scope x := by
      intro hbare x hx hopen
      have hx' := hpruned.remaining x hx
      rcases hstands with rfl | ⟨-, hnone⟩
      · rw [hbare x (htraced.open_after s x hx' hopen).below] at hx'
        exact absurd hx' (by simp)
      · exact hnone x hx' hopen
    rcases hcase with rfl | ⟨hbelow', hbare', hbare⟩
    · refine ⟨t, ht, hbelow, hstands.imp_right fun ⟨hbare, _⟩ => ⟨?_, hnone hbare⟩⟩
      exact hpruned.bare hasc (Query.Arena.lt_size_of_isParent hs.condition_eq) hbare
    · exact ⟨t, ht, hbelow', .inr ⟨hbare', hnone hbare⟩⟩
  filtered := h.filtered

/-- An expansion that is replaced by values has dropped the scope if it is above what stands for it. -/
theorem not_below_of_join (hfirst : arena.First (·.kind.isParent) 0 scope)
    (hkept : ¬Dropped arena scope p.reports)
    (hjoin : ∃ r ∈ p.reports, r.id = e ∧ r.resolution.isJoin = true)
    (hbelow : arena.Below s scope) : ¬p.draft.arena.Below e s := by
  obtain ⟨r, hr, rfl, hresolution⟩ := hjoin
  intro hes
  have hlt := Nat.lt_of_le_of_lt (harena.le_of_below hbelow)
    (Query.Arena.lt_size_of_isParent hfirst.condition_eq)
  have hes := (h.rewrites.traced harena).below r.id s hlt hes
  refine hkept ⟨r, hr, hes.trans hbelow, fun own heq => ?_⟩
  rw [heq] at hresolution
  exact absurd hresolution (by simp [Resolution.isJoin])

/-- The query that takes the place of an expansion holds what stands for the scope, if that is below
the expansion. -/
theorem below_query (hfirst : arena.First (·.kind.isParent) 0 scope)
    (hkept : ¬Dropped arena scope p.reports)
    (he : (p.draft.arena.label e).kind.isExpansion = true)
    (hquery : p.draft.arena.child? e 0 = some v)
    (hreported : ∃ r ∈ p.reports, r.id = e ∧ ∃ own, r.resolution = .inPlace own)
    (hs : (p.draft.arena.label s).kind.isParent = true) (hbelow : arena.Below s scope)
    (hes : p.draft.arena.Below e s) : p.draft.arena.Below v s := by
  have hasc := (h.rewrites.pruned harena).ascending
  rcases h.children e he with hchildren | hjoin
  · obtain ⟨r, hr, rfl, own, hown⟩ := hreported
    have hlt := Nat.lt_of_le_of_lt (harena.le_of_below hbelow)
      (Query.Arena.lt_size_of_isParent hfirst.condition_eq)
    have hes' := (h.rewrites.traced harena).below r.id s hlt hes
    have hquery' : arena.child? r.id 0 = some v := by
      rw [Query.Arena.child?, ← hchildren]
      exact hquery
    have hvscope : arena.Below v scope := by
      by_contra hnot
      refine hkept ⟨r, hr, hes'.trans hbelow, fun _ _ c hc => ?_⟩
      rw [hquery'] at hc
      cases hc
      exact hnot
    have hne : s ≠ r.id := by
      rintro rfl
      rw [Kind.isParent_of_isExpansion he] at hs
      exact absurd hs (by simp)
    -- the scope is below one child only, in either arena
    obtain ⟨c, hc, hcs⟩ := (Query.Arena.Below.iff_self_or_child.mp hes).resolve_left hne
    have hcs' := (h.rewrites.traced harena).below c s hlt hcs
    by_cases heq : c = v
    · exact heq ▸ hcs
    · have hc' : c ∈ arena.children r.id := hchildren ▸ hc
      exact absurd hvscope (harena.siblings_disjoint hc' (List.mem_of_getElem? hquery') heq
        (hcs'.trans hbelow))
  · exact absurd hes (h.not_below_of_join harena hfirst hkept hjoin hbelow)

/-! ### Steps -/

/-- A new node is no parent scope. -/
theorem push {label : Label} (hexpansion : label.kind.isExpansion = false)
    (hparent : label.kind.isParent = false) :
    Guarded env arena scope (p.withArena (p.draft.arena.push label).1) := by
  have hasc := (h.rewrites.pruned harena).ascending
  have hstep := Rewrite.push p.draft.arena label hexpansion
  refine h.rewrite harena hstep (fun x _ => .inl (Query.Arena.children_push label x))
    fun _ s hs _ => ⟨s, Query.Arena.first_parent_kept hasc (hstep.traced hasc) (fun y hy => ?_) hs
      fun y _ hys => ?_, .inl rfl⟩
  · exact ⟨y, .refl y, Query.Arena.isParent_of_push hparent hy⟩
  · have hlt := Nat.lt_of_le_of_lt (hasc.le_of_below hys)
      (Query.Arena.lt_size_of_isParent hs.condition_eq)
    exact ⟨by rw [Query.Arena.label_push_of_lt label hlt],
      fun _ => Query.Arena.children_push label y⟩

/-- Fields do not matter. -/
theorem strip (he : (p.draft.arena.label e).kind.isExpansion = true) (name : String) :
    Guarded env arena scope (p.withArena (p.draft.arena.stripName e name)) := by
  have hasc := (h.rewrites.pruned harena).ascending
  have hstep := Rewrite.strip p.draft.arena e name he
  obtain ⟨-, hkind, hchildren, -⟩ := p.draft.arena.stripName_spec e name
  refine h.rewrite harena hstep (fun x _ => .inl (hchildren x))
    fun _ s hs _ => ⟨s, Query.Arena.first_parent_kept hasc (hstep.traced hasc) (fun y hy => ?_) hs
      fun y _ _ => ⟨hkind y, fun _ => hchildren y⟩, .inl rfl⟩
  exact ⟨y, .refl y, by rwa [← hkind]⟩

variable (hfirst : arena.First (·.kind.isParent) 0 scope)

include hfirst

/-- A new query for an expansion that does not hold what stands for the scope. -/
theorem requery {label : Label} (he : (p.draft.arena.label e).kind.isExpansion = true)
    (hexpansion : label.kind.isExpansion = false) (hparent : label.kind.isParent = false)
    (hquery : ∀ c, p.draft.arena.child? e 0 = some c → p.draft.arena.Bare c)
    (hreported : ∃ r ∈ p.reports, r.id = e ∧ r.resolution.isJoin = true) :
    Guarded env arena scope
      (p.withArena ((p.draft.arena.push label).1.setChild e 0 p.draft.arena.size)) := by
  have hasc := (h.rewrites.pruned harena).ascending
  have hstep := Rewrite.requery p.draft.arena e label he hexpansion hquery
  have helt := Query.Arena.lt_size_of_isExpansion he
  have hchildren : ∀ y, y ≠ e → ((p.draft.arena.push label).1.setChild e 0
      p.draft.arena.size).children y = p.draft.arena.children y := by
    intro y hy
    rw [Query.Arena.children_setChild _ _ _ _ _ (by rw [Query.Arena.size_push]; omega), if_neg hy,
      Query.Arena.children_push]
  refine h.rewrite harena hstep (fun x _ => ?_) fun hkept s hs hbelow =>
    ⟨s, Query.Arena.first_parent_kept hasc (hstep.traced hasc) (fun y hy => ?_) hs
      fun y _ hys => ⟨?_, fun _ => hchildren y ?_⟩, .inl rfl⟩
  · by_cases heq : x = e
    · exact .inr (heq ▸ hreported)
    · exact .inl (hchildren x heq)
  · rw [Query.Arena.label_setChild] at hy
    exact ⟨y, .refl y, Query.Arena.isParent_of_push hparent hy⟩
  · have hlt := Nat.lt_of_le_of_lt (hasc.le_of_below hys)
      (Query.Arena.lt_size_of_isParent hs.condition_eq)
    rw [Query.Arena.label_setChild, Query.Arena.label_push_of_lt label hlt]
  · rintro rfl
    exact h.not_below_of_join harena hfirst hkept hreported hbelow hys

/-- The query of an expansion in its place, which may be what stands for the scope. -/
theorem inline (he : (p.draft.arena.label e).kind.isExpansion = true)
    (hquery : p.draft.arena.child? e 0 = some v) (hbare : p.draft.arena.Bare v) (boost : Boost)
    (hreported : ∃ r ∈ p.reports, r.id = e ∧ ∃ own, r.resolution = .inPlace own) :
    Guarded env arena scope (p.withArena (substituted p.draft.arena e v boost)) := by
  have hasc := (h.rewrites.pruned harena).ascending
  have hv : p.draft.arena.Replaces e v := .inl hquery
  have hstep := Rewrite.resolve p.draft.arena e v boost he hv hbare fun c hc => by
    rw [hquery] at hc
    cases hc
    exact hbare
  have hvkind := hbare v (.refl v)
  refine h.rewrite harena hstep (fun x hx => .inl (Query.Arena.children_substituted_of_isExpansion
    hasc he hv hvkind boost hx)) fun hkept s hs hbelow => ?_
  obtain ⟨t, ht, hcase⟩ := Query.Arena.first_parent_substituted hasc he hquery hbare boost hs
    (h.below_query harena hfirst hkept he hquery hreported hs.condition_eq hbelow)
  refine ⟨t, ht, hcase.imp_right ?_⟩
  rintro ⟨rfl, rfl⟩
  have hlt := Nat.lt_of_le_of_lt (harena.le_of_below hbelow)
    (Query.Arena.lt_size_of_isParent hfirst.condition_eq)
  refine ⟨?_, (hstep.pruned hasc).emptied t he ?_, hbare⟩
  · exact ((h.rewrites.traced harena).below t s hlt (.of_mem (List.mem_of_getElem? hquery))).trans hbelow
  · rw [Query.Arena.kind_substituted hasc he hv boost, if_pos rfl]
    exact hvkind

/-- A new node in the place of an expansion that does not hold what stands for the scope. -/
theorem join (he : (p.draft.arena.label e).kind.isExpansion = true) (hfresh : Fresh p e v)
    (hexpansion : (p.draft.arena.label v).kind.isExpansion = false)
    (hparent : (p.draft.arena.label v).kind.isParent = false)
    (hquery : ∀ c, p.draft.arena.child? e 0 = some c → p.draft.arena.Bare c) (boost : Boost)
    (hreported : ∃ r ∈ p.reports, r.id = e ∧ r.resolution.isJoin = true) :
    Guarded env arena scope (p.withArena (substituted p.draft.arena e v boost)) := by
  have hasc := (h.rewrites.pruned harena).ascending
  have hv : p.draft.arena.Replaces e v := .inr ⟨hfresh.later, hfresh.slot_eq, hfresh.loose⟩
  have hstep := Rewrite.resolve p.draft.arena e v boost he hv
    (Query.Arena.bare_of_childless hexpansion hfresh.children_eq) hquery
  have hkind := Query.Arena.kind_substituted hasc he hv boost
  refine h.rewrite harena hstep (fun x hx => .inl (Query.Arena.children_substituted_of_isExpansion
    hasc he hv hexpansion boost hx)) fun hkept s hs hbelow =>
    ⟨s, Query.Arena.first_parent_kept hasc (hstep.traced hasc) (fun y hy => ?_) hs
      fun y _ hys => ?_, .inl rfl⟩
  · rw [hkind] at hy
    split at hy
    · rw [hparent] at hy
      exact absurd hy (by simp)
    · exact ⟨y, .refl y, hy⟩
  · -- the way to the scope does not lead through the expansion, which holds none, or to the new node,
    -- which has no children
    have hye : y ≠ e := by
      rintro rfl
      exact h.not_below_of_join harena hfirst hkept hreported hbelow hys
    refine ⟨by rw [hkind, if_neg hye], fun hne => ?_⟩
    have hyv : y ≠ v := by
      rintro rfl
      exact hne (hys.eq_of_childless hfresh.children_eq).symm
    rw [Query.Arena.children_substituted hasc he hv boost, if_neg hyv, if_neg hye]

/-- **An unrestricted scan** is filtered as promised. -/
theorem filtered_of_unrestricted {request : ScanRequest} (hresolution : r.resolution = .scan request)
    (hknown : ¬Dropped arena scope p.reports → arena.Open 0 r.id ∨ arena.Open scope r.id)
    (he : (p.draft.arena.label r.id).kind.isExpansion = true) (hpost : request.postFilter = none)
    (hwhy : ∃ mapping, env.resolver.mapping request.index = .ok mapping ∧
      (mapping.alwaysVisible = false → ∀ s, p.draft.find? (·.kind.isParent) = some s →
        p.draft.arena.isWithin r.id s = true)) : r.Filtered env arena scope p.reports := by
  intro request' mapping hrequest hmapping
  obtain rfl := Resolution.scan.inj (hresolution.symm.trans hrequest)
  obtain ⟨mapping', hmapping', hwithin⟩ := hwhy
  obtain rfl := Except.ok.inj (hmapping'.symm.trans hmapping)
  refine ⟨fun _ => hpost, fun hkept => ?_⟩
  obtain ⟨s, hs, hiff⟩ := h.isWithin_iff harena hkept hfirst.below_root he (hknown hkept)
  rw [hpost]
  refine iff_of_false (by simp) fun ⟨hvisible, hnot⟩ => hnot ?_
  exact hiff.mp (hwithin hvisible s hs)

/-- **A restricted scan** is filtered as promised, after whatever happened since its visibility was
decided on. -/
theorem filtered_of_restricted {request : ScanRequest} {s : NodeId} {before : List Report}
    (hresolution : r.resolution = .scan request)
    (hknown : ¬Dropped arena scope p.reports → arena.Open 0 r.id ∨ arena.Open scope r.id)
    (he : (p.draft.arena.label r.id).kind.isExpansion = true)
    (hpost : request.postFilter.isSome = true)
    (hindex : ∃ mapping, env.resolver.mapping request.index = .ok mapping ∧
      mapping.alwaysVisible = false)
    (hs : p.draft.find? (·.kind.isParent) = some s)
    (hwithin : p.draft.arena.isWithin r.id s = false) (hbefore : p.reports <+: before) :
    r.Filtered env arena scope before := by
  intro request' mapping hrequest hmapping
  obtain rfl := Resolution.scan.inj (hresolution.symm.trans hrequest)
  obtain ⟨mapping', hmapping', hvisible⟩ := hindex
  obtain rfl := Except.ok.inj (hmapping'.symm.trans hmapping)
  refine ⟨fun htrue => absurd (hvisible.symm.trans htrue) (by simp), fun hkept => ?_⟩
  have hkept' : ¬Dropped arena scope p.reports := fun hdropped => hkept (hdropped.mono hbefore)
  obtain ⟨s', hs', hiff⟩ := h.isWithin_iff harena hkept' hfirst.below_root he (hknown hkept')
  obtain rfl := Option.some.inj (hs'.symm.trans hs)
  refine iff_of_true hpost ⟨hvisible, fun hbelow => ?_⟩
  rw [hiff.mpr hbelow] at hwithin
  exact absurd hwithin (by simp)

/-- The expansions that are open to the first parent scope that is found are open to the original one,
until that is dropped. -/
theorem open_of_found {s : NodeId} (hkept : ¬Dropped arena scope p.reports)
    (hs : p.draft.find? (·.kind.isParent) = some s)
    (hx : (p.draft.arena.label x).kind.isExpansion = true) (hopen : p.draft.arena.Open s x) :
    arena.Open scope x := by
  have hasc := (h.rewrites.pruned harena).ascending
  obtain ⟨s', hs', -, hstands⟩ := h.first hkept
  obtain rfl := ((find?_eq_some_iff hasc).mp hs).unique hasc ⟨0, h.root_eq, hs'⟩
  rcases hstands with rfl | ⟨hbare, -⟩
  · exact (h.rewrites.traced harena).open_before s x hx hopen
  · rw [hbare x hopen.below] at hx
    exact absurd hx (by simp)

end Arena

end Guarded

/-- A report on an expansion that is not scanned is filtered as promised. -/
theorem filtered_of_unscanned (hr : r.resolution.request? = none) (before : List Report) :
    r.Filtered env arena scope before := by
  intro request mapping hresolution _
  rw [hresolution] at hr
  exact absurd hr (by simp [Resolution.request?])

/-- **Every step of a compilation** leaves the draft guarded, if what may be scanned is open to the root
or to the scope. -/
theorem Proceeds.guarded (harena : arena.Ascending) (hfirst : arena.First (·.kind.isParent) 0 scope)
    (h : Proceeds env known p q) (hp : Guarded env arena scope p)
    (hknown : ¬Dropped arena scope p.reports → ∀ x, known x → arena.Open 0 x ∨ arena.Open scope x) :
    Guarded env arena scope q := by
  induction h with
  | still hdraft hreports => exact hp.congr hdraft hreports
  | trans hpq _ ih ih' =>
    refine ih' (ih hp hknown) fun hkept => hknown fun hdropped => ?_
    exact hkept (hdropped.mono hpq.reports_prefix)
  | push p label hexpansion hparent => exact hp.push harena hexpansion hparent
  | strip p e name he => exact hp.strip harena he name
  | requery p e label he hexpansion hparent hquery hreported =>
    exact hp.requery harena hfirst he hexpansion hparent hquery hreported
  | inline p e v boost he hquery hbare hreported =>
    exact hp.inline harena hfirst he hquery hbare boost hreported
  | join p e v boost he hfresh hexpansion hparent hquery hreported =>
    exact hp.join harena hfirst he hfresh hexpansion hparent hquery boost hreported
  | report p r hresolution => exact hp.log (filtered_of_unscanned hresolution _)
  | scan p r request hresolution hknownr he hpost hwhy =>
    exact hp.log (hp.filtered_of_unrestricted harena hfirst hresolution
      (fun hkept => hknown hkept _ hknownr) he hpost hwhy)
  | filteredScan p q r request s hresolution hknownr he hpost hindex hs hwithin hinner ih =>
    refine (ih hp fun hkept x hx => ?_).log (hp.filtered_of_restricted harena hfirst hresolution
      (fun hkept => hknown hkept _ hknownr) he hpost hindex hs hwithin hinner.reports_prefix)
    rcases hx with hx | ⟨hx, hopen⟩
    · exact hknown hkept x hx
    · exact .inr (hp.open_of_found harena hfirst hkept hs hx hopen)

/-! ## Calls -/

/-- A state with an existing root, to which only known expansions are open. -/
def RootCharted (env : Environment) (known : NodeId → Prop) (p : Progress) : Prop :=
  Rooted env p ∧ ∀ root, p.draft.root = some root → Charted known p.draft.arena root

/-- **Proceeding** is a discipline of charted queries, as long as nothing fails. -/
theorem proceeding_discipline (env : Environment) (known : NodeId → Prop) :
    Discipline env (RootCharted env known) (fun p q => Evolves env p q ∧ Proceeds env known p q)
      (fun _ _ => True) where
  sound := fun _ h => h.1.1
  keep := by
    rintro p q ⟨hrooted, hcharted⟩ ⟨hpq, hproceeds⟩
    refine ⟨⟨hpq.sound, fun root h => ?_⟩, fun root h => ?_⟩
    · exact Nat.lt_of_lt_of_le (hrooted.2 root (hpq.root_eq ▸ h)) hpq.size_le
    · exact (hcharted root (hpq.root_eq ▸ h)).traced (hproceeds.rewrites.traced hrooted.1.ascending)
  looked := fun _ _ h hl => ⟨⟨hl.evolves h.1.1, hl.proceeds⟩, trivial⟩
  trans := fun _ _ _ h h' => ⟨h.1.trans h'.1, h.2.trans h'.2⟩
  fail := fun _ _ _ _ _ => trivial

theorem rootQuery_obeys_proceeding : Obeys (RootCharted env known)
    (fun p q => Evolves env p q ∧ Proceeds env known p q) (fun _ _ => True) (rootQuery env) := by
  rintro p ⟨⟨hsound, hroot⟩, hcharted⟩
  unfold rootQuery
  rw [wp_bind, wp_get]
  split
  · next root hroot' =>
    unfold query
    rw [wp_bind, wp_arena]
    refine wp_mono (wp_and (nodeWithin_steps _ root p hsound) (wp_exec _ _)) ?_ fun _ _ _ => trivial
    rintro fragment q ⟨⟨hpq, -⟩, hexec⟩
    exact ⟨hpq, nodeWithin_proceeds _ known root p q fragment hsound (hroot root hroot')
      (hcharted root hroot') hexec⟩
  · exact ⟨.refl hsound, .refl p⟩

end Compile

namespace Compiler

open Compile

variable {compiler : Compiler} {known : NodeId → Prop}

theorem Performs.proceeds {env : Environment} {p q : Progress}
    (h : Performs (Proceeds env known) p q) : Proceeds env known p q := by
  cases h with
  | nothing => exact .refl p
  | query h => exact h
  | filter h => exact h.transfer rfl rfl rfl rfl

/-- **One successful call** proceeds. -/
theorem perform_proceeds (h : compiler.Idle)
    (hcharted : RootCharted compiler.environment known compiler.progress) (call : Call)
    (hok : (compiler.perform call).1 = true) :
    Proceeds compiler.environment known compiler.progress (compiler.perform call).2.progress := by
  have hfilter : RootCharted compiler.environment known
      { compiler.progress with aggregating := true } := ⟨h.rootedFilter, hcharted.2⟩
  rcases perform_obeys (proceeding_discipline _ known) rootQuery_obeys_proceeding hcharted hfilter call
    with ⟨-, hdone⟩ | ⟨hfails, -⟩
  · exact (hdone.mono fun _ _ h => h.2).proceeds
  · exact absurd (hfails.symm.trans hok) Bool.false_ne_true

/-- **Successful calls** proceed, one after the other. -/
theorem after_proceeds (h : compiler.Idle)
    (hcharted : RootCharted compiler.environment known compiler.progress) (calls : List Call)
    (hcalls : compiler.succeeds calls = true) :
    Proceeds compiler.environment known compiler.progress (compiler.after calls).progress := by
  induction calls generalizing compiler with
  | nil => exact .refl _
  | cons call rest ih =>
    rw [succeeds, Bool.and_eq_true] at hcalls
    have hfirst := perform_proceeds h hcharted call hcalls.1
    have hnext : RootCharted compiler.environment known (compiler.perform call).2.progress :=
      (proceeding_discipline _ known).keep _ _ hcharted ⟨(perform_advance h call).1, hfirst⟩
    rw [← perform_environment compiler call] at hnext
    have hrest := ih (h.perform call) hnext hcalls.2
    rw [perform_environment] at hrest
    exact hfirst.trans hrest

/-- **Which scans are filtered.** While all calls on a compiler succeed, a scan of an index that is
always visible is never filtered. Let the query have a parent scope, and take the first one. As long as
no expansion that holds it has been replaced by values, the other scans are filtered if and only if they
are for an expansion outside of that scope, in whichever order expansions stand and are resolved. -/
theorem scan_filtered_iff {setup : Setup} (hstart : setup.start = .ok compiler) {scope : NodeId}
    (hscope : FirstParent compiler.progress.draft scope) (calls : List Call)
    (hcalls : compiler.succeeds calls = true) {i : Nat} {r : Report}
    (hr : (compiler.after calls).reports[i]? = some r) {request : ScanRequest}
    (hresolution : r.resolution = .scan request) {mapping : Schema.Mapping}
    (hmapping : compiler.environment.resolver.mapping request.index = .ok mapping) :
    (mapping.alwaysVisible = true → request.postFilter = none) ∧
      ((∀ r' ∈ (compiler.after calls).reports.take i,
          ¬r'.Drops compiler.progress.draft.arena scope) →
        (request.postFilter.isSome = true ↔
          mapping.alwaysVisible = false ∧ ¬compiler.progress.draft.arena.Below scope r.id)) := by
  have hstarted := Setup.started_of_ok hstart
  have hidle := idle_of_started hstarted
  obtain ⟨md, hprogress⟩ := hstarted.progress_eq
  obtain ⟨root, hroot, hfirst⟩ := hscope
  obtain rfl := hstarted.root_eq_zero hroot
  have hcharted : RootCharted compiler.environment (compiler.progress.draft.arena.Open 0)
      compiler.progress := by
    refine ⟨hidle.rootedState, fun root' hroot' x _ hopen => ?_⟩
    rw [hroot] at hroot'
    cases hroot'
    exact hopen
  have hproceeds := after_proceeds hidle hcharted calls hcalls
  -- there are no reports at the start
  have hnone : compiler.progress.reports = [] := by rw [hprogress]
  have hguarded : Guarded compiler.environment compiler.progress.draft.arena scope
      compiler.progress := {
    rewrites := .refl _
    root_eq := hroot
    children := fun _ _ => .inl rfl
    first := fun _ => ⟨scope, hfirst, .refl scope, .inl rfl⟩
    filtered := by
      intro before r after heq
      rw [hnone] at heq
      exact absurd heq (by simp) }
  obtain ⟨hi, hget⟩ := List.getElem?_eq_some_iff.mp hr
  have hsplit : (compiler.after calls).reports = (compiler.after calls).reports.take i ++
      r :: (compiler.after calls).reports.drop (i + 1) := by
    rw [← hget, ← List.drop_eq_getElem_cons hi, List.take_append_drop]
  have hfiltered := (hproceeds.guarded hidle.sound.ascending hfirst hguarded fun _ _ => .inl).filtered
    _ r _ hsplit request mapping hresolution hmapping
  exact hfiltered.imp_right fun h hkept => h fun ⟨r', hr', hdrops⟩ => hkept r' hr' hdrops

/-- Books by two kinds of authors. -/
def siblingSearch (first second : Tree) : Setup where
  index := "books"
  request :=
    let byAuthor := Tree.expansion (.unnamed "author" "authors" "id")
    { links := [.unnamed "author" "authors" "id"]
      query := some (.conjunction [byAuthor first, byAuthor second]) }
  resolver := some booksAndAuthors.resolver
  executor := some booksAndAuthors.executor

/-- A parent scope with an expansion in it, which is scanned for the visibility of the first scan. -/
theorem scan_filtered_iff_siblingSearch : ∃ compiler r request,
    (siblingSearch (.word "name" (.str "y")) (.parent "t"
        [.expansion (.unnamed "author" "authors" "id") (.word "name" (.str "x"))])).start =
      .ok compiler ∧ FirstParent compiler.progress.draft 4 ∧
      (compiler.after [.query]).reports[1]? = some r ∧ r.resolution = .scan request ∧
      (request.postFilter.isSome = true ↔ ¬compiler.progress.draft.arena.Below 4 r.id) := by
  have hrun : ((siblingSearch (.word "name" (.str "y")) (.parent "t"
      [.expansion (.unnamed "author" "authors" "id") (.word "name" (.str "x"))])).start.toOption.any
      fun compiler => decide (compiler.succeeds [.query] = true ∧
          compiler.progress.draft.find? (·.kind.isParent) = some 4 ∧
          ∀ r ∈ (compiler.after [.query]).reports.take 1,
            4 ∉ compiler.progress.draft.arena.descendants r.id) &&
        (compiler.after [.query]).reports[1]?.any fun r => r.resolution.request?.any fun request =>
          (compiler.environment.resolver.mapping request.index).toOption.any fun mapping =>
            decide (mapping.alwaysVisible = false)) = true := by
    decide +kernel
  simp only [Option.any_eq_true, toOption_eq_some, Bool.and_eq_true, decide_eq_true_eq] at hrun
  obtain ⟨compiler, hstart, ⟨hcalls, hscope, hbefore⟩, r, hr, request, hrequest, mapping, hmapping,
    hvisible⟩ := hrun
  have hasc := (idle_of_started (Setup.started_of_ok hstart)).sound.ascending
  have hresolution := Resolution.request?_eq_some.mp hrequest
  have hfirst := (find?_eq_some_iff hasc).mp hscope
  have hiff := (scan_filtered_iff hstart hfirst [.query] hcalls hr hresolution hmapping).2
    fun r' hr' hdrops => hbefore r' hr' (hasc.mem_descendants.mpr hdrops.1)
  refine ⟨compiler, r, request, hstart, hfirst, hr, hresolution, hiff.trans ?_⟩
  rw [hvisible]
  simp

/-- **Not every scan is filtered** that is for an expansion outside of the first parent scope. Where the
scope is in an expansion that was replaced by its values, the query has no parent scope any more when
the next expansion is scanned. -/
theorem scan_unfiltered_siblingSearch : ∃ compiler r request mapping,
    (siblingSearch (.conjunction [.parent "t" [.word "name" (.str "x")], .word "name" (.str "y")])
        (.word "name" (.str "z"))).start = .ok compiler ∧
      FirstParent compiler.progress.draft 3 ∧ compiler.query.1.isOk = true ∧
      r ∈ compiler.query.2.reports ∧ r.resolution = .scan request ∧
      compiler.environment.resolver.mapping request.index = .ok mapping ∧
      mapping.alwaysVisible = false ∧ ¬compiler.progress.draft.arena.Below 3 r.id ∧
      request.postFilter = none := by
  have hrun : ((siblingSearch (.conjunction [.parent "t" [.word "name" (.str "x")],
      .word "name" (.str "y")]) (.word "name" (.str "z"))).start.toOption.any
      fun compiler => decide (compiler.progress.draft.find? (·.kind.isParent) = some 3 ∧
          compiler.query.1.isOk = true) &&
        compiler.query.2.reports[1]?.any fun r => r.resolution.request?.any fun request =>
          (compiler.environment.resolver.mapping request.index).toOption.any fun mapping =>
            decide (mapping.alwaysVisible = false ∧
              r.id ∉ compiler.progress.draft.arena.descendants 3) && request.postFilter.isNone) =
      true := by
    decide +kernel
  simp only [Option.any_eq_true, toOption_eq_some, Bool.and_eq_true, decide_eq_true_eq,
    Option.isNone_iff_eq_none] at hrun
  obtain ⟨compiler, hstart, ⟨hscope, hok⟩, r, hr, request, hrequest, mapping, hmapping,
    ⟨hvisible, houtside⟩, hpost⟩ := hrun
  have hasc := (idle_of_started (Setup.started_of_ok hstart)).sound.ascending
  refine ⟨compiler, r, request, mapping, hstart, (find?_eq_some_iff hasc).mp hscope, hok,
    List.mem_of_getElem? hr, Resolution.request?_eq_some.mp hrequest, hmapping, hvisible, ?_, hpost⟩
  exact fun hbelow => houtside (hasc.mem_descendants.mpr hbelow)

end Compiler

end LinkedSearch
