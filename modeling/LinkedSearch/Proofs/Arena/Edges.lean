import Mathlib.Tactic.ByContra
import LinkedSearch.Fragment.Basic
import LinkedSearch.Query.Stack

/-! # Edges of an arena

What each operation does to the slots of an arena, and with that to the labels, the child edges and
the parent edges. Nothing is assumed about the shape of the arena here, except that a node which
takes another one's place is not its own child. -/

namespace LinkedSearch.Query.Arena

variable {arena other : Arena} {id target source parent child : Nat}

/-! ## Slots -/

/-- Only slots that exist are found. -/
theorem slot?_eq_none_iff : arena.slot? id = none ↔ arena.size ≤ id := by
  simp [slot?, size]

/-- A slot that exists is found. -/
theorem slot?_of_lt (h : id < arena.size) : ∃ slot, arena.slot? id = some slot := by
  cases hslot : arena.slot? id with
  | none => exact absurd (slot?_eq_none_iff.mp hslot) (by omega)
  | some slot => exact ⟨slot, rfl⟩

/-- A slot that is found exists. -/
theorem lt_size_of_slot? {slot : Slot} (h : arena.slot? id = some slot) : id < arena.size := by
  by_contra hge
  rw [slot?_eq_none_iff.mpr (by omega)] at h
  exact absurd h (by simp)

theorem label_of_slot? {slot : Slot} (h : arena.slot? id = some slot) :
    arena.label id = slot.label := by rw [label, h]; rfl

theorem children_of_slot? {slot : Slot} (h : arena.slot? id = some slot) :
    arena.children id = slot.children := by rw [children, h]; rfl

theorem parent?_of_slot? {slot : Slot} (h : arena.slot? id = some slot) :
    arena.parent? id = slot.parent := by rw [parent?, h]; rfl

/-- Equal slots have equal labels. -/
theorem label_congr (h : other.slot? id = arena.slot? id) : other.label id = arena.label id := by
  rw [label, label, h]

/-- Equal slots have equal children. -/
theorem children_congr (h : other.slot? id = arena.slot? id) :
    other.children id = arena.children id := by
  rw [children, children, h]

/-- Outside the arena there is nothing but a default label. -/
theorem label_of_size_le (h : arena.size ≤ id) : arena.label id = default := by
  rw [label, slot?_eq_none_iff.mpr h]
  rfl

theorem children_of_size_le (h : arena.size ≤ id) : arena.children id = [] := by
  rw [children, slot?_eq_none_iff.mpr h]
  rfl

theorem parent?_of_size_le (h : arena.size ≤ id) : arena.parent? id = none := by
  rw [parent?, slot?_eq_none_iff.mpr h]
  rfl

/-- Only existing nodes have children. -/
theorem lt_size_of_mem_children (h : child ∈ arena.children id) : id < arena.size := by
  by_contra hge
  rw [children_of_size_le (by omega)] at h
  exact absurd h (by simp)

/-- The default label is no expansion, so expansions exist. -/
theorem lt_size_of_isExpansion (h : (arena.label id).kind.isExpansion = true) : id < arena.size := by
  by_contra hge
  rw [label_of_size_le (by omega)] at h
  exact absurd h (by decide)

/-- An expansion is not a node that is none. -/
theorem ne_of_isExpansion {id' : NodeId}
    (h : (arena.label id).kind.isExpansion = true) (h' : (arena.label id').kind.isExpansion = false) :
    id ≠ id' := by
  rintro rfl
  exact absurd (h.symm.trans h') (by simp)

/-- Where nodes keep their kinds and no new one is an expansion, every expansion is one from before. -/
theorem isExpansion_of_kinds {other : Arena}
    (hkind : ∀ id : Nat, id < arena.size → (other.label id).kind = (arena.label id).kind)
    (hnew : ∀ id : Nat, arena.size ≤ id → (other.label id).kind.isExpansion = false)
    (h : (other.label id).kind.isExpansion = true) : (arena.label id).kind.isExpansion = true := by
  by_cases hlt : (id : Nat) < arena.size
  · rwa [← hkind id hlt]
  · exact absurd (h.symm.trans (hnew id (Nat.le_of_not_lt hlt))) (by simp)

/-- The default label is no parent scope, so parent scopes exist. -/
theorem lt_size_of_isParent (h : (arena.label id).kind.isParent = true) : id < arena.size := by
  by_contra hge
  rw [label_of_size_le (by omega)] at h
  exact absurd h (by decide)

/-! ## Pushing -/

theorem slot?_push_of_lt (label : Label) (h : id < arena.size) :
    (arena.push label).1.slot? id = arena.slot? id := by
  rw [slot?_push, if_neg (Nat.ne_of_lt h)]

/-- The new slot has a label and no edges. -/
theorem slot?_push_size (label : Label) :
    (arena.push label).1.slot? arena.size = some { label } := by
  rw [slot?_push, if_pos rfl]

theorem label_push_of_lt (label : Label) (h : id < arena.size) :
    (arena.push label).1.label id = arena.label id :=
  label_congr (slot?_push_of_lt label h)

@[simp] theorem label_push_size (label : Label) :
    (arena.push label).1.label arena.size = label :=
  label_of_slot? (slot?_push_size label)

/-- A new node is an expansion only if its label says so. -/
theorem isExpansion_push {label : Label} (hlabel : label.kind.isExpansion = false)
    (h : arena.size ≤ id) : ((arena.push label).1.label id).kind.isExpansion = false := by
  by_cases heq : id = arena.size
  · rwa [heq, label_push_size]
  · rw [label_of_size_le (by rw [size_push]; omega)]
    rfl

/-- No node gets or loses a child when a node is pushed. -/
@[simp] theorem children_push (label : Label) (id : Nat) :
    (arena.push label).1.children id = arena.children id := by
  rw [children, slot?_push]
  split
  · next heq => exact (children_of_size_le (Nat.le_of_eq heq.symm)).symm
  · rfl

/-- No node gets or loses its parent when a node is pushed. -/
@[simp] theorem parent?_push (label : Label) (id : Nat) :
    (arena.push label).1.parent? id = arena.parent? id := by
  rw [parent?, slot?_push]
  split
  · next heq => exact (parent?_of_size_le (Nat.le_of_eq heq.symm)).symm
  · rfl

/-! ## Changing labels -/

theorem slot?_modifyLabel (change : Label → Label) (id i : Nat) :
    (arena.modifyLabel id change).slot? i =
      if id = i then (arena.slot? i).map fun slot => { slot with label := change slot.label }
      else arena.slot? i :=
  slot?_modify ..

theorem slot?_modifyLabel_of_ne (change : Label → Label) {i : Nat} (h : i ≠ id) :
    (arena.modifyLabel id change).slot? i = arena.slot? i := by
  rw [slot?_modifyLabel, if_neg h.symm]

@[simp] theorem children_modifyLabel (change : Label → Label) (id i : Nat) :
    (arena.modifyLabel id change).children i = arena.children i := by
  rw [children, children, slot?_modifyLabel]
  split <;> cases arena.slot? i <;> rfl

@[simp] theorem parent?_modifyLabel (change : Label → Label) (id i : Nat) :
    (arena.modifyLabel id change).parent? i = arena.parent? i := by
  rw [parent?, parent?, slot?_modifyLabel]
  split <;> cases arena.slot? i <;> rfl

/-- A label after a change of labels. -/
theorem label_modifyLabel (change : Label → Label) (id i : Nat) (h : id < arena.size) :
    (arena.modifyLabel id change).label i =
      if id = i then change (arena.label i) else arena.label i := by
  rw [label, label, slot?_modifyLabel]
  split
  · next heq =>
    subst heq
    obtain ⟨slot, hslot⟩ := slot?_of_lt h
    rw [hslot]
    rfl
  · rfl

/-- A change that keeps the kind of every label keeps it in the arena. -/
theorem kind_modifyLabel (change : Label → Label) (hchange : ∀ l, (change l).kind = l.kind)
    (id i : Nat) : ((arena.modifyLabel id change).label i).kind = (arena.label i).kind := by
  rw [label, label, slot?_modifyLabel]
  split
  · cases arena.slot? i with
    | none => rfl
    | some slot => exact hchange slot.label
  · rfl

/-- A boost is no part of the kind. -/
theorem kind_withBoost (arena : Arena) (id i : Nat) (boost : Boost) :
    ((arena.modifyLabel id fun label => { label with boost }).label i).kind =
      (arena.label i).kind := by
  refine kind_modifyLabel _ ?_ id i
  intro label
  rfl

/-- **Stripping** changes nothing but fields: sizes, kinds and edges are as before. -/
theorem stripName_spec (arena : Arena) (root : NodeId) (name : String) :
    (arena.stripName root name).size = arena.size ∧
      (∀ i, ((arena.stripName root name).label i).kind = (arena.label i).kind) ∧
      (∀ i, (arena.stripName root name).children i = arena.children i) ∧
      ∀ i, (arena.stripName root name).parent? i = arena.parent? i := by
  unfold stripName
  generalize arena.descendants root = ids
  induction ids generalizing arena with
  | nil => exact ⟨rfl, fun _ => rfl, fun _ => rfl, fun _ => rfl⟩
  | cons id rest ih =>
    rw [List.foldl_cons]
    obtain ⟨hsize, hkind, hchildren, hparent⟩ := ih (arena.modifyLabel id _)
    refine ⟨hsize.trans (size_modifyLabel ..), fun i => (hkind i).trans ?_,
      fun i => (hchildren i).trans (children_modifyLabel ..),
      fun i => (hparent i).trans (parent?_modifyLabel ..)⟩
    refine kind_modifyLabel _ ?_ id i
    intro label
    rfl

/-- Stripping leaves the boosts alone. -/
theorem boost_stripName (arena : Arena) (root : NodeId) (name : String) (i : Nat) :
    ((arena.stripName root name).label i).boost = (arena.label i).boost := by
  unfold stripName
  generalize arena.descendants root = ids
  induction ids generalizing arena with
  | nil => rfl
  | cons id rest ih =>
    rw [List.foldl_cons, ih, label, label, slot?_modifyLabel]
    split
    · cases arena.slot? i <;> rfl
    · rfl

/-- Stripping leaves the slots alone that are not among the descendants. -/
theorem slot?_stripName (arena : Arena) {root i : Nat} (name : String)
    (hi : i ∉ arena.descendants root) : (arena.stripName root name).slot? i = arena.slot? i := by
  unfold stripName
  generalize arena.descendants root = ids at hi
  induction ids generalizing arena with
  | nil => rfl
  | cons id rest ih =>
    rw [List.foldl_cons, ih _ fun hmem => hi (List.mem_cons_of_mem id hmem)]
    exact slot?_modifyLabel_of_ne _ fun heq => hi (heq ▸ List.mem_cons_self)

/-! ## Setting a child -/

/-- Slots after a child edge was set to a node that is no child yet. -/
theorem slot?_setChild (arena : Arena) (parent index child i : Nat)
    (hne : parent ≠ child) :
    (arena.setChild parent index child).slot? i =
      if i = parent then (arena.slot? i).map fun slot =>
        { slot with
          children :=
            if index < slot.children.length then slot.children.set index child
            else slot.children ++ [child] }
      else if i = child then (arena.slot? i).map fun slot => { slot with parent := some parent }
      else arena.slot? i := by
  rw [setChild, slot?_modify, slot?_modify]
  by_cases hp : i = parent
  · subst hp
    rw [if_pos rfl, if_pos rfl, if_neg (Ne.symm hne)]
  · rw [if_neg (Ne.symm hp), if_neg hp]
    by_cases hc : i = child
    · subst hc
      rw [if_pos rfl]
    · rw [if_neg (Ne.symm hc), if_neg hc]

@[simp] theorem label_setChild (arena : Arena) (parent index child i : Nat) :
    (arena.setChild parent index child).label i = arena.label i := by
  rw [label, label, setChild, slot?_modify, slot?_modify]
  split <;> split <;> cases arena.slot? i <;> rfl

/-- The parent edges after a child edge was set. -/
theorem parent?_setChild (arena : Arena) (parent index child i : Nat)
    (hlt : child < arena.size) :
    (arena.setChild parent index child).parent? i =
      if i = child then some parent else arena.parent? i := by
  rw [parent?, setChild, slot?_modify, slot?_modify]
  by_cases hc : i = child
  · subst hc
    obtain ⟨slot, hslot⟩ := slot?_of_lt hlt
    rw [hslot, if_pos rfl, if_pos rfl]
    split <;> rfl
  · rw [if_neg (Ne.symm hc), if_neg hc, parent?]
    split <;> cases arena.slot? i <;> rfl

/-- The children after a child edge was set. -/
theorem children_setChild (arena : Arena) (parent index child i : Nat)
    (hlt : parent < arena.size) :
    (arena.setChild parent index child).children i =
      if i = parent then
        if index < (arena.children i).length then (arena.children i).set index child
        else arena.children i ++ [child]
      else arena.children i := by
  rw [children, setChild, slot?_modify, slot?_modify]
  by_cases hp : i = parent
  · subst hp
    obtain ⟨slot, hslot⟩ := slot?_of_lt hlt
    rw [children_of_slot? hslot, hslot, if_pos rfl, if_pos rfl]
    split <;> rfl
  · rw [if_neg (Ne.symm hp), if_neg hp, children]
    split <;> cases arena.slot? i <;> rfl

/-- After the first child edge was set, it leads to the new node. -/
theorem child?_setChild (arena : Arena) (parent child : Nat) (hlt : parent < arena.size) :
    (arena.setChild parent 0 child).child? parent 0 = some child := by
  rw [child?, children_setChild _ _ _ _ _ hlt, if_pos rfl]
  cases arena.children parent <;> rfl

/-- The only child that a node may have got is the new one of the parent. -/
theorem mem_children_setChild {index i c : Nat} (hlt : parent < arena.size)
    (hc : c ∈ (arena.setChild parent index child).children i) :
    c ∈ arena.children i ∨ i = parent ∧ c = child := by
  rw [children_setChild _ _ _ _ _ hlt] at hc
  split at hc
  · next heq =>
    split at hc
    · exact (List.mem_or_eq_of_mem_set hc).imp_right fun hnew => ⟨heq, hnew⟩
    · exact (List.mem_append.mp hc).imp_right fun hnew => ⟨heq, List.mem_singleton.mp hnew⟩
  · exact .inl hc

/-! ## A new node as a child -/

section NewChild

variable {index i c : Nat} (label : Label)

/-- Existing nodes keep their labels. -/
theorem label_push_setChild (hi : i < arena.size) :
    ((arena.push label).1.setChild parent index arena.size).label i = arena.label i := by
  rw [label_setChild, label_push_of_lt label hi]

/-- Only the parent gets a child. -/
theorem children_push_setChild (hlt : parent < arena.size) (hne : i ≠ parent) :
    ((arena.push label).1.setChild parent index arena.size).children i = arena.children i := by
  rw [children_setChild _ _ _ _ _ (by rw [size_push]; omega), if_neg hne, children_push]

/-- The new node has no children. -/
theorem children_push_setChild_size (hlt : parent < arena.size) :
    ((arena.push label).1.setChild parent index arena.size).children arena.size = [] := by
  rw [children_push_setChild label hlt (Nat.ne_of_gt hlt), children_of_size_le (Nat.le_refl _)]

/-- A child that is not new was one before. -/
theorem mem_children_push_setChild (hlt : parent < arena.size)
    (hc : c ∈ ((arena.push label).1.setChild parent index arena.size).children i)
    (hold : c < arena.size) : c ∈ arena.children i := by
  rcases mem_children_setChild (by rw [size_push]; omega) hc with hc | ⟨-, rfl⟩
  · rwa [children_push] at hc
  · exact absurd hold (Nat.lt_irrefl _)

end NewChild

/-! ## Replacing -/

/-- The slots after some nodes were adopted. -/
theorem slot?_adopt (arena : Arena) (parent : Nat) (ids : List NodeId) (i : Nat) :
    (arena.adopt parent ids).slot? i =
      if i ∈ ids then (arena.slot? i).map fun slot => { slot with parent := some parent }
      else arena.slot? i := by
  induction ids generalizing arena with
  | nil => rfl
  | cons id rest ih =>
    rw [adopt, List.foldl_cons, ← adopt, ih, slot?_modify]
    by_cases hid : id = i
    · subst hid
      rw [if_pos rfl, if_pos List.mem_cons_self, Option.map_map]
      split <;> rfl
    · rw [if_neg hid]
      simp only [List.mem_cons, Ne.symm hid, false_or]

/-- A replacement by the node itself does nothing. -/
@[simp] theorem replace_self (arena : Arena) (id : Nat) : arena.replace id id = arena := by
  rw [replace, if_pos rfl]

/-- A replacement by a node that does not exist does nothing. -/
theorem replace_of_size_le (h : arena.size ≤ source) : arena.replace target source = arena := by
  rw [replace, slot?_eq_none_iff.mpr h]
  split <;> rfl

/-- **Slots after a replacement**: the target has what the source had, the source lost its edges, and
the children of the source know their new parent. -/
theorem slot?_replace (hne : target ≠ source) (hsource : source < arena.size)
    (hloop : source ∉ arena.children source) (i : Nat) :
    (arena.replace target source).slot? i =
      if i = source then
        (arena.slot? i).map fun slot => { slot with children := [], parent := none }
      else if i = target then
        (arena.slot? i).map fun slot =>
          { label := arena.label source, children := arena.children source, parent := slot.parent }
      else if i ∈ arena.children source then
        (arena.slot? i).map fun slot => { slot with parent := some target }
      else arena.slot? i := by
  obtain ⟨slot, hslot⟩ := slot?_of_lt hsource
  have hchildren := children_of_slot? hslot
  rw [replace, if_neg hne, hslot]
  simp only
  rw [slot?_modify, slot?_modify, slot?_adopt, ← hchildren]
  -- the three cases of the statement, in its order
  by_cases hs : i = source
  · subst hs
    rw [if_pos rfl, if_pos rfl, if_neg hne, if_neg hloop]
  · rw [if_neg (Ne.symm hs), if_neg hs]
    by_cases ht : i = target
    · subst ht
      rw [if_pos rfl, if_pos rfl, hchildren, label_of_slot? hslot]
      cases hi : arena.slot? i with
      | none => split <;> rfl
      | some old =>
        rw [parent?_of_slot? hi]
        split <;> rfl
    · rw [if_neg (Ne.symm ht), if_neg ht]

variable (hne : target ≠ source) (htarget : target < arena.size) (hsource : source < arena.size)
  (hloop : source ∉ arena.children source)

include hne htarget hsource hloop in
/-- **Labels after a replacement.** -/
theorem label_replace (i : Nat) :
    (arena.replace target source).label i =
      if i = target then arena.label source else arena.label i := by
  rw [label, slot?_replace hne hsource hloop]
  by_cases hs : i = source
  · subst hs
    rw [if_pos rfl, if_neg (Ne.symm hne), label]
    cases arena.slot? i <;> rfl
  · rw [if_neg hs]
    by_cases ht : i = target
    · subst ht
      obtain ⟨slot, hslot⟩ := slot?_of_lt htarget
      rw [if_pos rfl, if_pos rfl, hslot]
      rfl
    · rw [if_neg ht, if_neg ht]
      show _ = (arena.slot? i).elim default (·.label)
      split <;> cases arena.slot? i <;> rfl

include hne htarget hsource hloop in
/-- **Children after a replacement.** -/
theorem children_replace (i : Nat) :
    (arena.replace target source).children i =
      if i = source then [] else if i = target then arena.children source
      else arena.children i := by
  rw [children, slot?_replace hne hsource hloop]
  by_cases hs : i = source
  · rw [if_pos hs, if_pos hs]
    cases arena.slot? i <;> rfl
  · rw [if_neg hs, if_neg hs]
    by_cases ht : i = target
    · subst ht
      obtain ⟨slot, hslot⟩ := slot?_of_lt htarget
      rw [if_pos rfl, if_pos rfl, hslot]
      rfl
    · rw [if_neg ht, if_neg ht]
      show _ = (arena.slot? i).elim [] (·.children)
      split <;> cases arena.slot? i <;> rfl

include hne htarget hsource hloop in
/-- **Parents after a replacement.** -/
theorem parent?_replace (hinner : target ∉ arena.children source)
    (hexist : ∀ child ∈ arena.children source, child < arena.size) (i : Nat) :
    (arena.replace target source).parent? i =
      if i = source then none
      else if i ∈ arena.children source then some target
      else arena.parent? i := by
  rw [parent?, slot?_replace hne hsource hloop]
  by_cases hs : i = source
  · rw [if_pos hs, if_pos hs]
    cases arena.slot? i <;> rfl
  · rw [if_neg hs, if_neg hs]
    by_cases ht : i = target
    · subst ht
      obtain ⟨slot, hslot⟩ := slot?_of_lt htarget
      rw [if_pos rfl, if_neg hinner, hslot, parent?_of_slot? hslot]
      rfl
    · rw [if_neg ht]
      show _ = if i ∈ arena.children source then some target else (arena.slot? i).bind (·.parent)
      by_cases hc : i ∈ arena.children source
      · obtain ⟨slot, hslot⟩ := slot?_of_lt (hexist i hc)
        rw [if_pos hc, if_pos hc, hslot]
        rfl
      · rw [if_neg hc, if_neg hc]

/-! ## What is true of all labels -/

/-- A label after a change that keeps all labels. -/
theorem label_modify_of_label {change : Slot → Slot} (hchange : ∀ slot, (change slot).label = slot.label)
    (id i : Nat) : (arena.modify id change).label i = arena.label i := by
  rw [label, label, slot?_modify]
  split
  · cases arena.slot? i with
    | none => rfl
    | some slot => exact hchange slot
  · rfl

/-- A replacement brings up no new labels. -/
theorem exists_label_replace (arena : Arena) (target source i : Nat) :
    ∃ j, (arena.replace target source).label i = arena.label j := by
  have hadopt : ∀ ids : List NodeId, (arena.adopt target ids).label i = arena.label i := by
    intro ids
    rw [label, label, slot?_adopt]
    split
    · cases arena.slot? i <;> rfl
    · rfl
  unfold replace
  split
  · exact ⟨i, rfl⟩
  · split
    · exact ⟨i, rfl⟩
    · next replacement hreplacement =>
      simp only
      rw [label_modify_of_label (by exact fun _ => rfl), label, slot?_modify]
      split
      · cases hslot : (arena.adopt target replacement.children).slot? i with
        | none => exact ⟨i, by rw [← hadopt replacement.children, label, hslot]; rfl⟩
        | some slot => exact ⟨source, by rw [label, hreplacement]; rfl⟩
      · exact ⟨i, hadopt replacement.children⟩

section AllLabels

variable {P : Label → Prop} (h : ∀ i, P (arena.label i))

include h

/-- What is true of all labels stays so if it stays so where a label changes. -/
theorem forall_label_modifyLabel {change : Label → Label} (hchange : ∀ label, P label → P (change label))
    (id i : Nat) : P ((arena.modifyLabel id change).label i) := by
  have hi := h i
  rw [label] at hi ⊢
  rw [slot?_modifyLabel]
  split
  · cases hslot : arena.slot? i with
    | none => rwa [hslot] at hi
    | some slot =>
      rw [hslot] at hi
      exact hchange slot.label hi
  · exact hi

/-- What is true of all labels stays so if it is true of a new one. -/
theorem forall_label_push {label : Label} (hlabel : P label) (i : Nat) : P ((arena.push label).1.label i) := by
  have hi := h i
  rw [Arena.label] at hi ⊢
  rw [slot?_push]
  split
  · exact hlabel
  · exact hi

/-- What is true of all labels stays so when names are stripped from fields, if it has nothing to do with
those. -/
theorem forall_label_stripName {name : String}
    (hstrip : ∀ label, P label → P { label with field := label.field.map (withoutName name) })
    (root i : Nat) : P ((arena.stripName root name).label i) := by
  unfold stripName
  generalize arena.descendants root = ids
  induction ids generalizing arena with
  | nil => exact h i
  | cons id rest ih =>
    rw [List.foldl_cons]
    exact ih (forall_label_modifyLabel h hstrip id)

/-- What is true of all labels stays so after a replacement. -/
theorem forall_label_replace (target source i : Nat) : P ((arena.replace target source).label i) := by
  obtain ⟨j, hj⟩ := arena.exists_label_replace target source i
  rw [hj]
  exact h j

end AllLabels

end LinkedSearch.Query.Arena
