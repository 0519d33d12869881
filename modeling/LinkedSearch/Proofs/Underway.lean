import LinkedSearch.Proofs.Arena.Paths
import LinkedSearch.Proofs.Filing

/-! # In the middle of an expansion

While the stack of an expansion is resolved, the expansions in its query give way one by one, from the inside
out. What is below it in the meantime is known, as long as no parent scope is there, which would be compiled
from elsewhere:

* `Tree.Settles`: a query and what is left of it when all of its expansions were resolved.
* `Arena.Sheltered`, `Arena.WorkedOn`: no parent scope below a node, and work on one expansion below it.
* `Peeks.worked`, `Asking.worked`, …: all that happens while an expansion is resolved is work on it.
* `Underway`: an arena with some of the expansions below a node resolved.
* `resolve_underway`, `Underway.settles`: the next one is resolved, and a query without further ones. -/

namespace LinkedSearch

open Query (Arena Draft Kind Label NodeId Tree)

/-! ## Settled queries -/

/-- **Settling** of a query: its outermost expansions are replaced by their settled queries, or by join
values, and keep their boosts. All other nodes stay what they are. -/
inductive Query.Tree.Settles : Tree → Tree → Prop where
  | node (label : Label) (children children' : List Tree) (hkind : label.kind.isExpansion = false)
      (hchildren : List.Forall₂ Settles children children') :
      Settles (Tree.node label children) (Tree.node label children')
  | inPlace (label : Label) (query query' : Tree) (rest : List Tree)
      (hkind : label.kind.isExpansion = true) (hquery : Settles query query') :
      Settles (Tree.node label (query :: rest)) (query'.boosted label.boost)
  | values (label values : Label) (children : List Tree) (hkind : label.kind.isExpansion = true)
      (hvalues : Compile.IsJoinLabel values) :
      Settles (Tree.node label children) ((Tree.node values []).boosted label.boost)

/-! ## Work on an expansion -/

namespace Query.Arena

variable {arena other last : Arena} {e o v x : Nat}

/-- **Sheltered**: there is no parent scope at or below a node. -/
def Sheltered (arena : Arena) (o : Nat) : Prop :=
  ∀ x : Nat, arena.Below o x → (arena.label x).kind.isParent = false

/-- **Work on an expansion** `e`: it is all that changes below a node `o`, and that stays sheltered. -/
structure WorkedOn (o e : Nat) (arena other : Arena) : Prop where
  rewrites : arena.Rewrites other
  kept : ∀ x : Nat, x < arena.size → other.Below o x → x ≠ e →
    other.label x = arena.label x ∧ other.children x = arena.children x
  sheltered : other.Sheltered o

namespace WorkedOn

theorem refl (e : Nat) (h : arena.Sheltered o) : WorkedOn o e arena arena :=
  ⟨.refl _, fun _ _ _ _ => ⟨rfl, rfl⟩, h⟩

theorem trans (hasc : arena.Ascending) (h : WorkedOn o e arena other) (h' : WorkedOn o e other last) :
    WorkedOn o e arena last where
  rewrites := h.rewrites.trans h'.rewrites
  kept := fun x hx hbelow hne => by
    have hpruned := h.rewrites.pruned hasc
    have hx' := Nat.lt_of_lt_of_le hx hpruned.size_le
    obtain ⟨hlabel, hchildren⟩ := h'.kept x hx' hbelow hne
    obtain ⟨hlabel', hchildren'⟩ :=
      h.kept x hx ((h'.rewrites.traced hpruned.ascending).below o x hx' hbelow) hne
    exact ⟨hlabel.trans hlabel', hchildren.trans hchildren'⟩
  sheltered := h'.sheltered

/-- Nothing below the node changes at all. -/
theorem of_slots (hrewrites : arena.Rewrites other) (hbelow : ∀ x, other.Below o x ↔ arena.Below o x)
    (hslots : ∀ x, arena.Below o x → other.slot? x = arena.slot? x) (h : arena.Sheltered o) :
    WorkedOn o e arena other where
  rewrites := hrewrites
  kept := fun x _ hx _ => by
    have hslot := hslots x ((hbelow x).mp hx)
    exact ⟨label_congr hslot, children_congr hslot⟩
  sheltered := fun x hx => by
    have hx' := (hbelow x).mp hx
    rw [label_congr (hslots x hx')]
    exact h x hx'

/-- A node is pushed. -/
theorem push (hasc : arena.Ascending) (ho : o < arena.size) (h : arena.Sheltered o) {label : Label}
    (hlabel : label.kind.isExpansion = false) : WorkedOn o e arena (arena.push label).1 := by
  have hbelow : ∀ x, (arena.push label).1.Below o x ↔ arena.Below o x := fun x =>
    ⟨fun hx => hx.mono fun a b hb => by rwa [children_push] at hb,
      fun hx => hx.mono fun a b hb => by rwa [children_push]⟩
  exact of_slots (Rewrite.push arena label hlabel).rewrites hbelow
    (fun x hx => slot?_push_of_lt label (hasc.below_lt_size hx ho)) h

/-- Values become the query of the expansion. -/
theorem requery (hasc : arena.Ascending) (ho : o < arena.size) (h : arena.Sheltered o)
    (he : (arena.label e).kind.isExpansion = true)
    (hquery : ∀ c, arena.child? e 0 = some c → arena.Bare c) {label : Label}
    (hlabel : label.kind.isExpansion = false ∧ label.kind.isParent = false) :
    WorkedOn o e arena ((arena.push label).1.setChild e 0 arena.size) := by
  have hrewrites := (Rewrite.requery arena e label he hlabel.1 hquery).rewrites
  have hlt := lt_size_of_isExpansion he
  refine ⟨hrewrites, fun x hx _ hne =>
    ⟨label_push_setChild label hx, children_push_setChild label hlt hne⟩, fun x hx => ?_⟩
  by_cases hxlt : x < arena.size
  · rw [label_push_setChild label hxlt]
    exact h x ((hrewrites.traced hasc).below o x hxlt hx)
  · -- there is nothing else than the values
    have hx' := (hrewrites.pruned hasc).ascending.below_lt_size hx
      (Nat.lt_of_lt_of_le ho (hrewrites.pruned hasc).size_le)
    rw [size_setChild, size_push] at hx'
    obtain rfl : x = arena.size := by omega
    rw [label_setChild, label_push_size]
    exact hlabel.2

/-- **What the expansion resolves to** takes its place. -/
theorem substituted (hasc : arena.Ascending) (h : arena.Sheltered o) (hoe : arena.Below o e)
    (he : (arena.label e).kind.isExpansion = true) (hv : arena.Replaces e v) (hbare : arena.Bare v)
    (hquery : ∀ c, arena.child? e 0 = some c → arena.Bare c)
    (hparent : (arena.label v).kind.isParent = false) (boost : Boost) :
    WorkedOn o e arena (Compile.substituted arena e v boost) := by
  obtain ⟨hvlt, hev, -⟩ := hv.lt hasc
  have hchildren := children_substituted hasc he hv boost
  -- what has taken the place is out of reach in its old one
  have hgone : ∀ x, (Compile.substituted arena e v boost).Below o x → x ≠ v := by
    rintro x hx rfl
    rcases hx.cases_tail with rfl | ⟨y, -, hy⟩
    · exact absurd (hasc.le_of_below hoe) (by omega)
    · obtain ⟨hyv, ⟨rfl, hloop, -⟩ | ⟨hye, hmem⟩⟩ := mem_children_substituted hasc he hv boost hy
      · exact hasc.not_mem_children_self x hloop
      · rcases hv with hchild | ⟨-, -, hloose⟩
        · exact hye (hasc.parent_unique hmem (List.mem_of_getElem? hchild))
        · exact hloose y hmem
  refine ⟨(Rewrite.resolve arena e v boost he hv hbare hquery).rewrites, fun x hx hbelow hne => ⟨?_, ?_⟩,
    fun x hx => ?_⟩
  · rw [Compile.label_substituted hasc (Nat.ne_of_lt hev) (lt_size_of_isExpansion he) hvlt, if_neg hne]
  · rw [hchildren, if_neg (hgone x hbelow), if_neg hne]
  · rw [kind_substituted hasc he hv boost]
    split
    · exact hparent
    · exact h x (below_substituted hasc he hv boost hx)

end WorkedOn

end Query.Arena

/-! ## What an expansion does while it is resolved -/

namespace Compile

open Query.Arena (WorkedOn)

variable {env : Environment} {p q s t : Progress} {e o v fuel : Nat}

/-- **A peek** at the parent scope changes nothing below a sheltered node with the expansion below it: the
scope is neither above that node nor below it. -/
theorem Peeks.apart (hasc : p.draft.arena.Ascending) (ho : o < p.draft.arena.size)
    (hoe : p.draft.arena.Below o e) (hsheltered : p.draft.arena.Sheltered o)
    (h : Peeks env fuel e p q) : p.draft.arena.Rewrites q.draft.arena ∧
      (∀ x, q.draft.arena.Below o x ↔ p.draft.arena.Below o x) ∧
      ∀ x, p.draft.arena.Below o x → q.draft.arena.slot? x = p.draft.arena.slot? x := by
  rcases h with hdraft | ⟨scope, s, t, fragment, hs, hdraft, hscope, hwithin, hexec, hq⟩
  · rw [hdraft]
    exact ⟨.refl _, fun _ => .rfl, fun _ _ => rfl⟩
  · have hfirst := (find?_eq_some_iff hasc).mp hscope
    obtain ⟨root, -, hroot⟩ := hfirst
    have hlt := Query.Arena.lt_size_of_isParent hroot.condition_eq
    have habove : ¬p.draft.arena.Below scope o := fun hbelow => by
      rw [hasc.isWithin_of_below (hbelow.trans hoe) (hasc.below_lt_size hoe ho)] at hwithin
      exact absurd hwithin (by simp)
    have hbelow : ¬p.draft.arena.Below o scope := fun hbelow => by
      have hparent := hroot.condition_eq
      rw [hsheltered scope hbelow] at hparent
      exact absurd hparent (by simp)
    rw [← hdraft] at hscope ho hlt habove hbelow ⊢
    rw [hq]
    obtain ⟨hframed, -⟩ := nodeWithin_framed fuel scope s t fragment hs
      (.inr ⟨scope, (find?_eq_some_iff hs.ascending).mp hscope, .refl _⟩) hlt hexec
    exact ⟨nodeWithin_rewrites fuel scope s t fragment hs hlt hexec,
      fun x => hframed.below_apart hs.ascending ho hbelow habove,
      fun x hx => hframed.slot?_apart hs.ascending ho hbelow habove hx⟩

theorem Peeks.worked (hasc : p.draft.arena.Ascending) (ho : o < p.draft.arena.size)
    (hoe : p.draft.arena.Below o e) (hsheltered : p.draft.arena.Sheltered o)
    (h : Peeks env fuel e p q) : WorkedOn o e p.draft.arena q.draft.arena := by
  obtain ⟨hrewrites, hbelow, hslots⟩ := h.apart hasc ho hoe hsheltered
  exact .of_slots hrewrites hbelow hslots hsheltered

/-- A bare query stays bare when something is rewritten, and the expansion has it if its slot stays. -/
theorem bare_query (hasc : p.draft.arena.Ascending) (hrewrites : p.draft.arena.Rewrites q.draft.arena)
    (hslot : q.draft.arena.slot? e = p.draft.arena.slot? e)
    (hquery : ∀ c, p.draft.arena.child? e 0 = some c → p.draft.arena.Bare c) (c : Nat)
    (hc : q.draft.arena.child? e 0 = some c) : q.draft.arena.Bare c := by
  rw [Query.Arena.child?, Query.Arena.children_congr hslot, ← Query.Arena.child?] at hc
  exact (hrewrites.pruned hasc).bare hasc (hasc.child_lt e c (List.mem_of_getElem? hc)) (hquery c hc)

section Asking

variable (hp : p.draft.arena.Ascending) (ho : o < p.draft.arena.size) (hopen : p.draft.arena.Open o e)
  (hsheltered : p.draft.arena.Sheltered o) (he : (p.draft.arena.label e).kind.isExpansion = true)
  (hquery : ∀ c, p.draft.arena.child? e 0 = some c → p.draft.arena.Bare c)

include hp ho hopen hsheltered he hquery

/-- **Whenever an expansion asks** for compiled nodes, nothing but itself has changed. -/
theorem Asking.worked (h : Asking env fuel e p q) : WorkedOn o e p.draft.arena q.draft.arena := by
  rcases h.draft with hdraft | ⟨-, u, label, hpeeks, hlabel, hrequeries⟩
  · rw [hdraft]
    exact .refl e hsheltered
  · obtain ⟨hrewrites, -, hslots⟩ := hpeeks.apart hp ho hopen.below hsheltered
    have hworked := hpeeks.worked hp ho hopen.below hsheltered
    have hpruned := hrewrites.pruned hp
    have hslot := hslots e hopen.below
    refine hworked.trans hp ?_
    have hdraft : q.draft.arena = (u.draft.arena.push label).1.setChild e 0 u.draft.arena.size := by
      rw [show q.draft = _ from hrequeries]
    rw [hdraft]
    exact .requery hpruned.ascending (Nat.lt_of_lt_of_le ho hpruned.size_le) hworked.sheltered
      (by rwa [Query.Arena.label_congr hslot]) (bare_query hp hrewrites hslot hquery) hlabel.kind_eq

/-- **What takes the place of an expansion** in the end is its query, at once, or join values. Nothing but the
expansion changes. -/
theorem Resolved.worked {link target : Link} (hsound : Sound env p)
    (hsettled : ∀ c, p.draft.arena.child? e 0 = some c → p.draft.arena.Settled c)
    (h : Resolved env (nodeWithin env fuel) e target link p v q) (boost : Boost) :
    WorkedOn o e p.draft.arena (substituted q.draft.arena e v boost) ∧
      (q.draft = p.draft ∧ p.draft.arena.child? e 0 = some v ∨ ∃ values, IsJoinLabel values ∧
        (substituted q.draft.arena e v boost).Holds e ((Query.Tree.node values []).boosted boost)) := by
  rcases h.peeks hsound he fun c hc => ⟨hsettled c hc, hquery c hc⟩ with
    ⟨hdraft, hchild⟩ | ⟨s, u, label, hasking, hpeeks, hlabel, rfl, hpushes⟩
  · refine ⟨?_, .inl ⟨hdraft, hchild⟩⟩
    rw [hdraft]
    exact .substituted hp hsheltered hopen.below he (.inl hchild) (hquery v hchild) hquery
      (hsheltered v (hopen.below.trans (.of_mem (List.mem_of_getElem? hchild)))) boost
  · have hs := hasking.sound.ascending
    have hworked := hasking.worked hp ho hopen hsheltered he hquery
    have hso := Nat.lt_of_lt_of_le ho hasking.size_le
    have hsopen := (hworked.rewrites.traced hp).open_after o e hasking.isExpansion hopen
    -- the last peek, and the push
    obtain ⟨hrewrites, hbelow, hslots⟩ := hpeeks.apart hs hso hsopen.below hworked.sheltered
    have hpeeked := hpeeks.worked hs hso hsopen.below hworked.sheltered
    have hpruned := hrewrites.pruned hs
    have huo := Nat.lt_of_lt_of_le hso hpruned.size_le
    have hslot := hslots e hsopen.below
    have hpushed := WorkedOn.push (e := e) hpruned.ascending huo hpeeked.sheltered hlabel.kind_eq.1
    have hdraft : q.draft.arena = (u.draft.arena.push label).1 := by rw [show q.draft = _ from hpushes]
    rw [hdraft]
    -- the new node takes the place of the expansion
    have hue : (u.draft.arena.label e).kind.isExpansion = true := by
      rw [Query.Arena.label_congr hslot]
      exact hasking.isExpansion
    have hlt := Query.Arena.lt_size_of_isExpansion hue
    have hvslot : (u.draft.arena.push label).1.slot? u.draft.arena.size = some { label } :=
      Query.Arena.slot?_push_size label
    have hvlabel : (u.draft.arena.push label).1.label u.draft.arena.size = label :=
      Query.Arena.label_push_size label
    have hchildless : (u.draft.arena.push label).1.children u.draft.arena.size = [] := by
      rw [Query.Arena.children_of_slot? hvslot]
    have hloose : ∀ j, u.draft.arena.size ∉ (u.draft.arena.push label).1.children j := fun j hj => by
      rw [Query.Arena.children_push] at hj
      exact absurd (hpruned.ascending.child_lt j _ hj) (Nat.lt_irrefl _)
    refine ⟨((hworked.trans hp hpeeked).trans hp hpushed).trans hp (.substituted
      (hpruned.ascending.push label) hpushed.sheltered ?_ ?_ (.inr ⟨hlt, ?_, hloose⟩)
      (Query.Arena.bare_of_childless ?_ hchildless) ?_ ?_ boost), .inr ⟨label, hlabel, ?_⟩⟩
    · exact ((hbelow e).mpr hsopen.below).mono fun a b hb => by rwa [Query.Arena.children_push]
    · rwa [Query.Arena.label_push_of_lt label hlt]
    · rw [hvslot, hvlabel]
    · rw [hvlabel]
      exact hlabel.kind_eq.1
    · intro c hc
      rw [Query.Arena.child?, Query.Arena.children_push, ← Query.Arena.child?] at hc
      have hclt := hpruned.ascending.child_lt e c (List.mem_of_getElem? hc)
      exact (Query.Arena.pruned_push hpruned.ascending hlabel.kind_eq.1).bare hpruned.ascending hclt
        (bare_query hs hrewrites hslot (fun c hc => (hasking.query c hc).2) c hc)
    · rw [hvlabel]
      exact hlabel.kind_eq.2
    · have hheld := (hpruned.ascending.push label).holds_substituted_leaf (n := e)
        (v := u.draft.arena.size) (by rw [Query.Arena.size_push]; omega)
        (by rw [Query.Arena.size_push]; omega) (Nat.ne_of_lt hlt) (by rw [hvslot, hvlabel]) boost
      rwa [hvlabel] at hheld

end Asking

end Compile

/-! ## Arenas with some expansions resolved -/

namespace Query.Arena

variable {start arena other : Arena} {e n o x : Nat}

/-- **Underway**: what became of an arena when some of the expansions below a node were resolved. The others,
and all other nodes, are as they were at the start. -/
structure Underway (o : Nat) (start arena : Arena) : Prop where
  rewrites : start.Rewrites arena
  sheltered : arena.Sheltered o
  kept : ∀ x : Nat, x < start.size → arena.Below o x →
    ((start.label x).kind.isExpansion = true → (arena.label x).kind.isExpansion = true) →
    arena.label x = start.label x ∧ arena.children x = start.children x
  resolved : ∀ (x : Nat) (tree : Tree), arena.Below o x → (start.label x).kind.isExpansion = true →
    (arena.label x).kind.isExpansion = false → start.Holds x tree →
    ∃ tree', arena.Holds x tree' ∧ tree.Settles tree'

namespace Underway

/-- Nothing is resolved yet. -/
theorem of_sheltered (h : arena.Sheltered o) : Underway o arena arena where
  rewrites := .refl _
  sheltered := h
  kept := fun _ _ _ _ => ⟨rfl, rfl⟩
  resolved := fun _ _ _ htrue hfalse => absurd (htrue.symm.trans hfalse) (by simp)

mutual

/-- **A node without expansions** that are still there holds what its query settles to. -/
theorem settles (hasc : start.Ascending) (h : Underway o start arena) {x : Nat} :
    ∀ {tree : Tree}, x < start.size → arena.Below o x → arena.Bare x → start.Holds x tree →
      ∃ tree', arena.Holds x tree' ∧ tree.Settles tree'
  | .node label trees, hx, hbelow, hbare, hheld => by
    -- an expansion of the start is gone here, and any other node has the children that it had
    by_cases hexpansion : (start.label x).kind.isExpansion = true
    · exact h.resolved x _ hbelow hexpansion (hbare x (.refl x)) hheld
    · obtain ⟨hlabel, hchildren⟩ := h.kept x hx hbelow fun htrue => absurd htrue hexpansion
      obtain ⟨hstart, hall⟩ := holds_node.mp hheld
      rw [← hchildren] at hall
      have hids : ∀ c ∈ arena.children x, c < start.size ∧ arena.Below o c ∧ arena.Bare c := fun c hc =>
        ⟨hasc.child_lt x c (hchildren ▸ hc), hbelow.trans (.of_mem hc), hbare.child hc⟩
      obtain ⟨trees', hall', hsettles⟩ := settles_all hasc h hids hall
      rw [hstart] at hlabel hexpansion
      exact ⟨_, holds_node.mpr ⟨hlabel, hall'⟩, .node label _ _ (eq_false_of_ne_true hexpansion) hsettles⟩

/-- Some nodes without expansions that are still there. -/
theorem settles_all (hasc : start.Ascending) (h : Underway o start arena) {ids : List NodeId} :
    ∀ {trees : List Tree}, (∀ c ∈ ids, c < start.size ∧ arena.Below o c ∧ arena.Bare c) →
      start.HoldsAll ids trees →
      ∃ trees', arena.HoldsAll ids trees' ∧ List.Forall₂ Tree.Settles trees trees'
  | [], _, hheld => ⟨[], holdsAll_nil.mpr (holdsAll_nil.mp hheld), .nil⟩
  | tree :: rest, hids, hheld => by
    obtain ⟨c, later, rfl, htree, hrest⟩ := holdsAll_cons.mp hheld
    obtain ⟨hc, hbelow, hbare⟩ := hids c List.mem_cons_self
    obtain ⟨tree', htree', hsettles⟩ := settles hasc h hc hbelow hbare htree
    obtain ⟨rest', hrest', hsettlesRest⟩ :=
      settles_all hasc h (fun c hc => hids c (List.mem_cons_of_mem _ hc)) hrest
    exact ⟨tree' :: rest', HoldsAll.cons htree' hrest', .cons hsettles hsettlesRest⟩

end

/-- What is below a node is still below it after work on an expansion that is not there. -/
theorem below_worked (hasc : arena.Ascending) (h : WorkedOn o e arena other) (hx : x < arena.size)
    (hlive : other.Below o x) (hapart : ∀ y, arena.Below x y → y ≠ e) {y : Nat} (hy : arena.Below x y) :
    other.Below o y := by
  induction hy with
  | refl => exact hlive
  | tail hxy hyz ih =>
    obtain ⟨-, hchildren⟩ := h.kept _ (hasc.below_lt_size hxy hx) ih (hapart _ hxy)
    exact ih.tail (hchildren ▸ hyz)

/-- **The next expansion** was resolved. -/
theorem worked (hasc : start.Ascending) (h : Underway o start arena) (hw : WorkedOn o e arena other)
    (he : (arena.label e).kind.isExpansion = true) (hgone : (other.label e).kind.isExpansion = false)
    (hsettles : ∀ tree, start.Holds e tree → ∃ tree', other.Holds e tree' ∧ tree.Settles tree') :
    Underway o start other := by
  have hpruned := h.rewrites.pruned hasc
  have htraced := hw.rewrites.traced hpruned.ascending
  refine ⟨h.rewrites.trans hw.rewrites, hw.sheltered, fun x hx hbelow hstill => ?_,
    fun x tree hbelow hexpansion hresolved hheld => ?_⟩
  · have hx' := Nat.lt_of_lt_of_le hx hpruned.size_le
    have hne : x ≠ e := by
      rintro rfl
      exact absurd ((hstill (hpruned.remaining x he)).symm.trans hgone) (by simp)
    obtain ⟨hlabel, hchildren⟩ := hw.kept x hx' hbelow hne
    obtain ⟨hlabel', hchildren'⟩ := h.kept x hx (htraced.below o x hx' hbelow) fun htrue =>
      hlabel ▸ hstill htrue
    exact ⟨hlabel.trans hlabel', hchildren.trans hchildren'⟩
  · by_cases hne : x = e
    · exact hne ▸ hsettles tree (hne ▸ hheld)
    · have hx' := Nat.lt_of_lt_of_le (lt_size_of_isExpansion hexpansion) hpruned.size_le
      obtain ⟨hlabel, -⟩ := hw.kept x hx' hbelow hne
      rw [hlabel] at hresolved
      obtain ⟨tree', hheld', hsettled⟩ := h.resolved x tree (htraced.below o x hx' hbelow) hexpansion
        hresolved hheld
      -- the expansion is not below, where no expansion is left
      have hbare := hpruned.emptied x hexpansion hresolved
      have hapart : ∀ y, arena.Below x y → y ≠ e := by
        rintro y hy rfl
        exact absurd ((hbare y hy).symm.trans he) (by simp)
      have hsame := fun y hy => hw.kept y (hpruned.ascending.below_lt_size hy hx')
        (below_worked hpruned.ascending hw hx' hbelow hapart hy) (hapart y hy)
      exact ⟨tree', hheld'.congr (fun y hy => (hsame y hy).1) fun y hy => (hsame y hy).2, hsettled⟩

end Underway

end Query.Arena

namespace Compile

open Query.Arena (Underway)

variable {env : Environment} {p q : Progress} {e o fuel : Nat} {start : Arena}

/-- **One turn of the stack** of an expansion: if the next expansion is still there, it is resolved. -/
theorem resolve_underway {primary target : Link} (hasc : start.Ascending) (ho : o < start.size)
    (h : Underway o start p.draft.arena) (hopen : start.Open o e) (hp : Sound env p)
    (hprimary : primary = p.metadata.primary)
    (hquery : (p.draft.arena.label e).kind.isExpansion = true → ∀ c,
      p.draft.arena.child? e 0 = some c → p.draft.arena.Settled c ∧ p.draft.arena.Bare c)
    (hexec : exec (resolve env (nodeWithin env fuel) primary target e) p = (.ok ⟨⟩, q)) :
    Underway o start q.draft.arena := by
  obtain ⟨hpq, link, v, s, hlink, hresolved, -, hq⟩ := (wp_of_ok hexec).mp
    (leads_resolve fuel (nodeWithin_steps fuel) hp primary target e hprimary)
  have he := Query.Kind.isExpansion_of_link? hlink
  have hlt := Query.Arena.lt_size_of_isExpansion he
  have ho' := Nat.lt_of_lt_of_le ho (h.rewrites.pruned hasc).size_le
  have hopen' := (h.rewrites.traced hasc).open_after o e he hopen
  obtain ⟨hworked, hplace⟩ := hresolved.worked hp.ascending ho' hopen' h.sheltered he
    (fun c hc => (hquery he c hc).2) hp (fun c hc => (hquery he c hc).1) (p.draft.arena.label e).boost
  obtain ⟨-, -, hsettled⟩ := resolve_advance (nodeWithin_advance fuel) hp (fun he c hc => (hquery he c hc).1)
    (hprimary ▸ hexec)
  have hgone := hsettled.isExpansion_eq
  rw [hq] at hgone ⊢
  refine h.worked hasc hworked he hgone fun tree hheld => ?_
  -- what the expansion held at the start
  have hstart := (h.rewrites.pruned hasc).remaining e he
  obtain ⟨hlabel, hchildren⟩ := h.kept e (Query.Arena.lt_size_of_isExpansion hstart) hopen'.below
    fun _ => he
  obtain ⟨label, trees⟩ := tree
  obtain ⟨rfl, hall⟩ := Query.Arena.holds_node.mp hheld
  rcases hplace with ⟨hdraft, hchild⟩ | ⟨values, hvalues, hleaf⟩
  · rw [Query.Arena.child?, hchildren] at hchild
    cases trees with
    | nil =>
      rw [Query.Arena.holdsAll_nil.mp hall] at hchild
      exact absurd hchild (by simp)
    | cons query rest =>
      obtain ⟨c, later, hids, hqueryHeld, -⟩ := Query.Arena.holdsAll_cons.mp hall
      rw [hids] at hchild
      obtain rfl : c = v := Option.some.inj hchild
      have hmem : c ∈ p.draft.arena.children e := by rw [hchildren, hids]; simp
      have hchild' : p.draft.arena.child? e 0 = some c := by rw [Query.Arena.child?, hchildren, hids]; rfl
      obtain ⟨query', hheld', hsettles⟩ := h.settles hasc (hasc.child_lt e c (hchildren ▸ hmem))
        (hopen'.below.trans (.of_mem hmem)) (hquery he c hchild').2 hqueryHeld
      refine ⟨_, ?_, .inPlace _ query query' rest hstart hsettles⟩
      show (substituted s.draft.arena e c (p.draft.arena.label e).boost).Holds e _
      rw [hdraft, hlabel]
      exact hp.ascending.holds_substituted_child hlt hchild' hheld' _
  · refine ⟨_, hleaf, ?_⟩
    rw [hlabel]
    exact .values _ values _ hstart hvalues

end Compile

end LinkedSearch
