import Mathlib.Algebra.GroupWithZero.Nat
import LinkedSearch.Proofs.Arena.Reading

/-! # Settled nodes

A compilation resolves the expansions that it meets, and a node below which it meets none is settled.
Two things are kept on record for the arena as a whole:

* `Arena.Settled`: no expansion is met below a node.
* `Arena.Advanced`: from one arena to a later one, no expansion comes up anew, and what is no
  expansion keeps its kind and its children or loses all of them. Settled nodes stay settled.
* `Arena.pending`: what the expansions of an arena may still cost. Every operation keeps it, and a
  replaced expansion gives back its own share. -/

namespace LinkedSearch.Query

/-- **Scans of a kind**: an expansion is scanned at most once, and one over a synthesized link at most
twice. -/
def Kind.scanWeight : Kind → Nat
  | .expansion _ false => 1
  | .expansion _ true => 2
  | _ => 0

theorem Kind.scanWeight_eq_zero {kind : Kind} (h : kind.isExpansion = false) :
    kind.scanWeight = 0 := by
  cases kind with
  | expansion link generated => exact absurd h (by simp [isExpansion])
  | _ => rfl

/-- An expansion leaves room for a scan. -/
theorem Kind.scanWeight_pos {kind : Kind} (h : kind.isExpansion = true) : 1 ≤ kind.scanWeight := by
  cases kind with
  | expansion link generated => cases generated <;> simp [scanWeight]
  | _ => exact absurd h (by simp [isExpansion])

/-- An expansion over a synthesized link leaves room for two scans. -/
theorem Kind.scanWeight_of_isGenerated {kind : Kind} (h : kind.isGenerated = true) :
    kind.scanWeight = 2 := by
  cases kind with
  | expansion link generated => rw [show generated = true from h]; rfl
  | _ => exact absurd h (by simp [isGenerated])

/-- Which of the children a compilation visits, given the kind of their parent. -/
def Kind.visits (kind : Kind) (children : List NodeId) : List NodeId :=
  match kind with
  | .conjunction | .disjunction | .negation | .scope => children
  | .child _ | .parent _ => children.take 1
  | _ => []

@[simp] theorem Kind.visits_nil (kind : Kind) : kind.visits [] = [] := by
  cases kind <;> rfl

theorem Kind.visits_subset (kind : Kind) {children : List NodeId} {child : NodeId}
    (h : child ∈ kind.visits children) : child ∈ children := by
  cases kind with
  | conjunction | disjunction | negation | scope => exact h
  | child _ | parent _ => exact List.mem_of_mem_take h
  | _ => exact absurd h (by simp [visits])

namespace Arena

variable {arena other last : Arena} {n id target source : Nat}

/-! ## Settled nodes -/

/-- **Settled**: an existing node that is no expansion, with settled nodes where a compilation goes
on. -/
inductive Settled (arena : Arena) : Nat → Prop where
  | intro (n : Nat) (hlt : n < arena.size) (hkind : (arena.label n).kind.isExpansion = false)
      (hvisits : ∀ c ∈ (arena.label n).kind.visits (arena.children n), Settled arena c) :
      Settled arena n

namespace Settled

theorem lt_size (h : arena.Settled n) : n < arena.size := by
  cases h with
  | intro n hlt _ _ => exact hlt

theorem isExpansion_eq (h : arena.Settled n) : (arena.label n).kind.isExpansion = false := by
  cases h with
  | intro n _ hkind _ => exact hkind

theorem visited (h : arena.Settled n) :
    ∀ c ∈ (arena.label n).kind.visits (arena.children n), arena.Settled c := by
  cases h with
  | intro n _ _ hvisits => exact hvisits

/-- A node without children is settled if it is no expansion. -/
theorem of_childless (hlt : n < arena.size) (hkind : (arena.label n).kind.isExpansion = false)
    (hchildren : arena.children n = []) : arena.Settled n := by
  refine .intro n hlt hkind ?_
  rw [hchildren, Kind.visits_nil]
  simp

end Settled

/-! ## Advanced arenas -/

/-- **Advance** from an arena to a later one. -/
structure Advanced (arena other : Arena) : Prop where
  size_le : arena.size ≤ other.size
  kept : ∀ i : Nat, i < arena.size → (arena.label i).kind.isExpansion = false →
    (other.label i).kind = (arena.label i).kind ∧
      (other.children i = arena.children i ∨ other.children i = [])
  remaining : ∀ i : Nat, (other.label i).kind.isExpansion = true →
    (arena.label i).kind = (other.label i).kind ∧ arena.children i = other.children i

namespace Advanced

@[refl] theorem refl (arena : Arena) : Advanced arena arena :=
  ⟨Nat.le_refl _, fun _ _ _ => ⟨rfl, .inl rfl⟩, fun _ _ => ⟨rfl, rfl⟩⟩

theorem trans (h : Advanced arena other) (h' : Advanced other last) : Advanced arena last where
  size_le := Nat.le_trans h.size_le h'.size_le
  kept := by
    intro i hi hkind
    obtain ⟨hkind₁, hchildren₁⟩ := h.kept i hi hkind
    obtain ⟨hkind₂, hchildren₂⟩ := h'.kept i (Nat.lt_of_lt_of_le hi h.size_le) (hkind₁ ▸ hkind)
    refine ⟨hkind₂.trans hkind₁, ?_⟩
    rcases hchildren₂ with heq | hnil
    · rw [heq]
      exact hchildren₁
    · exact .inr hnil
  remaining := by
    intro i hkind
    obtain ⟨hkind₂, hchildren₂⟩ := h'.remaining i hkind
    obtain ⟨hkind₁, hchildren₁⟩ := h.remaining i (hkind₂ ▸ hkind)
    exact ⟨hkind₁.trans hkind₂, hchildren₁.trans hchildren₂⟩

/-- A node that is still an expansion holds the query that it held before. -/
theorem child?_eq (h : Advanced arena other) {m : Nat} (hm : (other.label m).kind.isExpansion = true)
    (i : Nat) : other.child? m i = arena.child? m i := by
  obtain ⟨-, hchildren⟩ := h.remaining m hm
  rw [child?, child?, hchildren]

/-- What a compilation visits below a node that is no expansion can only become less. -/
theorem visits_subset (h : Advanced arena other) (hlt : n < arena.size)
    (hkind : (arena.label n).kind.isExpansion = false) {c : Nat}
    (hc : c ∈ (other.label n).kind.visits (other.children n)) :
    c ∈ (arena.label n).kind.visits (arena.children n) := by
  obtain ⟨hkind', hchildren⟩ := h.kept n hlt hkind
  rw [hkind'] at hc
  rcases hchildren with heq | hnil
  · rwa [heq] at hc
  · rw [hnil, Kind.visits_nil] at hc
    exact absurd hc (by simp)

/-- **Settled nodes stay settled.** -/
theorem settled (h : Advanced arena other) (hn : arena.Settled n) : other.Settled n := by
  induction hn with
  | intro n hlt hkind _ ih =>
    refine .intro n (Nat.lt_of_lt_of_le hlt h.size_le) ?_ ?_
    · rw [(h.kept n hlt hkind).1]
      exact hkind
    · exact fun c hc => ih c (h.visits_subset hlt hkind hc)

/-- A node that is no expansion is settled once everything is that is visited below it. -/
theorem settled_of_visited (h : Advanced arena other) (hlt : n < arena.size)
    (hkind : (arena.label n).kind.isExpansion = false)
    (hvisits : ∀ c ∈ (arena.label n).kind.visits (arena.children n), other.Settled c) :
    other.Settled n := by
  refine .intro n (Nat.lt_of_lt_of_le hlt h.size_le) ?_ ?_
  · rw [(h.kept n hlt hkind).1]
    exact hkind
  · exact fun c hc => hvisits c (h.visits_subset hlt hkind hc)

/-- The same kinds and the same child edges. -/
theorem of_same (hsize : other.size = arena.size)
    (hkind : ∀ i, (other.label i).kind = (arena.label i).kind)
    (hchildren : ∀ i, other.children i = arena.children i) : Advanced arena other where
  size_le := Nat.le_of_eq hsize.symm
  kept := fun i _ _ => ⟨hkind i, .inl (hchildren i)⟩
  remaining := fun i _ => ⟨(hkind i).symm, (hchildren i).symm⟩

/-- Whatever happens to the children of an expansion does not matter once it is none any more. -/
theorem of_except (h : Advanced other last) (hsize : other.size = arena.size)
    (hkind : ∀ i, (other.label i).kind = (arena.label i).kind)
    (hchildren : ∀ i, i ≠ n → other.children i = arena.children i)
    (hn : (arena.label n).kind.isExpansion = true)
    (hlast : (last.label n).kind.isExpansion = false) : Advanced arena last where
  size_le := hsize ▸ h.size_le
  kept := by
    intro i hi hexpansion
    rw [← hkind, ← hchildren i (ne_of_isExpansion hn hexpansion).symm]
    exact h.kept i (hsize ▸ hi) (by rw [hkind]; exact hexpansion)
  remaining := by
    intro i hexpansion
    rw [← hkind, ← hchildren i (ne_of_isExpansion hexpansion hlast)]
    exact h.remaining i hexpansion

/-- A new node that is no expansion. -/
theorem push (arena : Arena) {label : Label} (hlabel : label.kind.isExpansion = false) :
    Advanced arena (arena.push label).1 where
  size_le := by simp
  kept := fun i hi _ => ⟨by rw [label_push_of_lt label hi], .inl (children_push label i)⟩
  remaining := by
    intro i hkind
    rcases Nat.lt_trichotomy i arena.size with hlt | rfl | hgt
    · exact ⟨by rw [label_push_of_lt label hlt], (children_push label i).symm⟩
    · rw [label_push_size, hlabel] at hkind
      exact absurd hkind (by simp)
    · rw [label_of_size_le (by rw [size_push]; exact hgt)] at hkind
      exact absurd hkind (by decide)

/-- **An expansion that is replaced** by a node that is none. -/
theorem replace (h : arena.Ascending) (htarget : (arena.label target).kind.isExpansion = true)
    (hlt : source < arena.size) (hsource : (arena.label source).kind.isExpansion = false) :
    Advanced arena (arena.replace target source) := by
  have hne := ne_of_isExpansion htarget hsource
  have htargetlt := lt_size_of_isExpansion htarget
  have hlabel := label_replace hne htargetlt hlt (h.not_mem_children_self source)
  have hchildren := children_replace hne htargetlt hlt (h.not_mem_children_self source)
  constructor
  · exact Nat.le_of_eq (size_replace ..).symm
  · intro i _ hkind
    have hi := (ne_of_isExpansion htarget hkind).symm
    rw [hlabel, if_neg hi, hchildren]
    refine ⟨rfl, ?_⟩
    split
    · exact .inr rfl
    · exact .inl rfl
  · intro i hkind
    rw [hlabel] at hkind ⊢
    split at hkind
    · rw [hsource] at hkind
      exact absurd hkind (by simp)
    · next hi =>
      rw [hchildren, if_neg hi, if_neg (ne_of_isExpansion hkind hsource), if_neg hi]
      exact ⟨rfl, rfl⟩

/-- What stands in the place of a replaced expansion is settled, as the source was. -/
theorem settled_replace (h : arena.Ascending)
    (htarget : (arena.label target).kind.isExpansion = true) (hsource : arena.Settled source) :
    (arena.replace target source).Settled target := by
  have hadvanced := replace h htarget hsource.lt_size hsource.isExpansion_eq
  have hne := ne_of_isExpansion htarget hsource.isExpansion_eq
  have htargetlt := lt_size_of_isExpansion htarget
  have hlabel := label_replace hne htargetlt hsource.lt_size (h.not_mem_children_self source) target
  have hchildren :=
    children_replace hne htargetlt hsource.lt_size (h.not_mem_children_self source) target
  rw [if_pos rfl] at hlabel
  rw [if_neg hne, if_pos rfl] at hchildren
  refine .intro target (by rw [size_replace]; exact htargetlt) ?_ ?_
  · rw [hlabel]
    exact hsource.isExpansion_eq
  · rw [hlabel, hchildren]
    exact fun c hc => hadvanced.settled (hsource.visited c hc)

end Advanced

/-! ## Pending scans -/

/-- **Pending scans**: as many as the expansions of the arena may still cost. -/
def pending (arena : Arena) : Nat := (arena.labels.map (·.kind.scanWeight)).sum

theorem pending_eq (arena : Arena) :
    arena.pending = ((List.range arena.size).map fun i => (arena.label i).kind.scanWeight).sum := by
  rw [pending, labels_eq, List.map_map]
  rfl

/-- Pending scans only depend on the kinds. -/
theorem pending_congr (hsize : other.size = arena.size)
    (hkind : ∀ i, (other.label i).kind = (arena.label i).kind) : other.pending = arena.pending := by
  rw [pending_eq, pending_eq, hsize]
  simp only [hkind]

/-- Child edges cost nothing. -/
theorem pending_setChild (arena : Arena) (parent index child : NodeId) :
    (arena.setChild parent index child).pending = arena.pending :=
  pending_congr (size_setChild ..) fun i => by rw [label_setChild]

/-- A new node that is no expansion costs nothing. -/
theorem pending_push (arena : Arena) {label : Label} (hlabel : label.kind.isExpansion = false) :
    (arena.push label).1.pending = arena.pending := by
  rw [pending, labels_push, List.map_append, List.sum_append, ← pending, List.map_singleton,
    List.sum_singleton, Kind.scanWeight_eq_zero hlabel, Nat.add_zero]

/-- A sum of which one summand is exchanged. -/
theorem sum_range_exchange {f g : Nat → Nat} {k m : Nat} (hk : k < m)
    (hsame : ∀ i, i ≠ k → f i = g i) :
    ((List.range m).map f).sum + g k = ((List.range m).map g).sum + f k := by
  induction m with
  | zero => exact absurd hk (Nat.not_lt_zero k)
  | succ m ih =>
    simp only [List.range_succ, List.map_append, List.sum_append, List.map_singleton,
      List.sum_singleton]
    by_cases heq : k = m
    · subst heq
      have hinit : (List.range k).map f = (List.range k).map g :=
        List.map_congr_left fun i hi => hsame i (Nat.ne_of_lt (List.mem_range.mp hi))
      rw [hinit]
      omega
    · have hlast := hsame m (Ne.symm heq)
      have hrest := ih (by omega)
      omega

/-- **A replaced expansion** gives back its share. -/
theorem pending_replace (h : arena.Ascending)
    (htarget : (arena.label target).kind.isExpansion = true) (hlt : source < arena.size)
    (hsource : (arena.label source).kind.isExpansion = false) :
    (arena.replace target source).pending + (arena.label target).kind.scanWeight =
      arena.pending := by
  have hne := ne_of_isExpansion htarget hsource
  have htargetlt := lt_size_of_isExpansion htarget
  have hlabel := label_replace hne htargetlt hlt (h.not_mem_children_self source)
  have hexchange := sum_range_exchange (f := fun i =>
    ((arena.replace target source).label i).kind.scanWeight)
    (g := fun i => (arena.label i).kind.scanWeight) htargetlt fun i hi => by
      simp only [hlabel, if_neg hi]
  simp only [hlabel target, if_pos, Kind.scanWeight_eq_zero hsource, Nat.add_zero] at hexchange
  rw [pending_eq, pending_eq, size_replace]
  exact hexchange

end Arena

end LinkedSearch.Query
