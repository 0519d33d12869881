import LinkedSearch.Proofs.Collecting

/-! # The order of sort keys

Keys are compared by their kind first, and keys of one kind by their values. Two keys count as one if
neither is before the other; only the two zeros among the numbers are different keys and count as one, so
that a key without the sign of a zero is a name for all keys that count as one.

* `SortKey.compare_swap`, `SortKey.lt_trans`: keys are compared like the members of a linear order.
* `SortKey.canonical`, `sortKeys`: the names of keys, and those of the keys of some values.
* `Collected.Ascending`: collections in strictly ascending order, as insertions leave them.
* `Distills`: what is left of some values: one for each of their keys, in ascending order. -/

namespace LinkedSearch

open Number (Finite)

/-! ## Numbers -/

namespace Number.Finite

/-- One number is before another one if its value is smaller. -/
theorem compare_eq_lt {a b : Finite} : a.compare b = .lt ↔ a.value < b.value := by
  show _ ↔ a.value.blt b.value = true
  unfold compare
  split
  · next hlt => simp [hlt]
  · next hlt => split <;> simp [hlt]

/-- Comparing two numbers the other way round. -/
theorem compare_swap (a b : Finite) : (a.compare b).swap = b.compare a := by
  by_cases hlt : a.value < b.value
  · -- the second test of the other comparison is the first one of this
    have hnot : ¬b.value < a.value := fun hgt => Std.lt_irrefl (Std.lt_trans hlt hgt)
    have hlt' : a.value.blt b.value = true := hlt
    have hnot' : b.value.blt a.value = false := eq_false_of_ne_true hnot
    simp [compare, hlt', hnot']
  · have hlt' : a.value.blt b.value = false := eq_false_of_ne_true hlt
    unfold compare
    rw [hlt']
    cases b.value.blt a.value <;> rfl

end Number.Finite

/-! ## Keys -/

namespace SortKey

variable {k l m : SortKey}

/-- Keys of different kinds are compared by their kinds. -/
theorem compare_of_rank_ne (h : k.rank ≠ l.rank) : k.compare l = Ord.compare k.rank l.rank := by
  cases k <;> cases l <;> first | rfl | exact absurd rfl h

/-- **Comparing the other way round.** Keys of different kinds are compared by two numbers that are known. -/
theorem compare_swap (k l : SortKey) : (k.compare l).swap = l.compare k := by
  cases k with
  | bool a =>
    cases l with
    | bool b => exact (Std.OrientedOrd.eq_swap : Ord.compare b a = _).symm
    | _ => rfl
  | int a =>
    cases l with
    | int b => exact (Std.OrientedOrd.eq_swap : Ord.compare b a = _).symm
    | _ => rfl
  | float a =>
    cases l with
    | float b => exact Finite.compare_swap a b
    | _ => rfl
  | text a =>
    cases l with
    | text b => exact (Std.OrientedOrd.eq_swap : Ord.compare b a = _).symm
    | _ => rfl

/-- A key that is before another one has no later kind. -/
theorem rank_le_of_lt (h : k.compare l = .lt) : k.rank ≤ l.rank := by
  by_cases hrank : k.rank = l.rank
  · exact Nat.le_of_eq hrank
  · rw [compare_of_rank_ne hrank] at h
    exact Nat.le_of_lt (Nat.compare_eq_lt.mp h)

/-- Keys of one kind are made in the same way. -/
theorem same_kind (h : k.rank = l.rank) :
    (∃ a b, k = bool a ∧ l = bool b) ∨ (∃ a b, k = int a ∧ l = int b) ∨
      (∃ a b, k = float a ∧ l = float b) ∨ ∃ a b, k = text a ∧ l = text b := by
  cases k <;> cases l <;> simp [rank] at h ⊢

/-- **Transitivity**: either the kinds differ somewhere on the way, or all three keys are of one kind. -/
theorem lt_trans (hkl : k.compare l = .lt) (hlm : l.compare m = .lt) : k.compare m = .lt := by
  have hle := rank_le_of_lt hkl
  have hle' := rank_le_of_lt hlm
  by_cases hrank : k.rank = m.rank
  · have hsame : k.rank = l.rank := by omega
    have hsame' : l.rank = m.rank := by omega
    rcases same_kind hsame with
        ⟨a, b, rfl, rfl⟩ | ⟨a, b, rfl, rfl⟩ | ⟨a, b, rfl, rfl⟩ | ⟨a, b, rfl, rfl⟩ <;>
      rcases same_kind hsame' with
        ⟨_, c, heq, rfl⟩ | ⟨_, c, heq, rfl⟩ | ⟨_, c, heq, rfl⟩ | ⟨_, c, heq, rfl⟩ <;>
      cases heq
    · exact (Std.TransCmp.lt_trans hkl hlm : Ord.compare a c = .lt)
    · exact (Std.TransCmp.lt_trans hkl hlm : Ord.compare a c = .lt)
    · exact Finite.compare_eq_lt.mpr
        (Std.lt_trans (Finite.compare_eq_lt.mp hkl) (Finite.compare_eq_lt.mp hlm))
    · exact (Std.TransCmp.lt_trans hkl hlm : Ord.compare a c = .lt)
  · rw [compare_of_rank_ne hrank]
    exact Nat.compare_eq_lt.mpr (by omega)

/-- No key is before itself. -/
theorem ne_of_lt (h : k.compare l = .lt) : k ≠ l := by
  rintro rfl
  rw [compare_self] at h
  exact absurd h (by simp)

theorem lt_asymm (h : k.compare l = .lt) : l.compare k ≠ .lt := by
  rw [← compare_swap, h]
  simp

/-- **A name for all keys that count as one**: a key without the sign of a zero. -/
def canonical : SortKey → SortKey
  | float number => float (.dyadic number.value)
  | key => key

/-- Names are compared like the keys that they stand for. -/
@[simp] theorem compare_canonical (k l : SortKey) : k.canonical.compare l.canonical = k.compare l := by
  cases k <;> cases l <;> rfl

/-- **Keys that count as one** have the same name. -/
theorem canonical_eq_iff : k.canonical = l.canonical ↔ k.compare l = .eq := by
  constructor
  · intro h
    rw [← compare_canonical, h, compare_self]
  · intro h
    rcases eq_of_compare h with rfl | ⟨a, b, rfl, rfl, hvalue⟩
    · rfl
    · exact congrArg (fun value => float (.dyadic value)) hvalue

/-- Ascending sequences of the same keys are the same. -/
theorem eq_of_ascending {keys keys' : List SortKey} (h : keys.Pairwise fun k l => k.compare l = .lt)
    (h' : keys'.Pairwise fun k l => k.compare l = .lt) (hmem : ∀ key, key ∈ keys ↔ key ∈ keys') :
    keys = keys' := by
  have hnodup : ∀ {keys : List SortKey}, keys.Pairwise (fun k l => k.compare l = .lt) → keys.Nodup :=
    fun hkeys => hkeys.imp ne_of_lt
  have hperm : keys.Perm keys' := (List.perm_ext_iff_of_nodup (hnodup h) (hnodup h')).mpr hmem
  exact hperm.eq_of_pairwise (fun _ _ _ _ hlt hgt => absurd hgt (lt_asymm hlt)) h h'

end SortKey

/-- **The keys of some values**, without the signs of zeros; lists and `null` have none. -/
def sortKeys (values : List Json) : List SortKey :=
  values.filterMap fun value => (SortKey.of? value).map SortKey.canonical

theorem mem_sortKeys {values : List Json} {key : SortKey} :
    key ∈ sortKeys values ↔ ∃ value ∈ values, ∃ k, SortKey.of? value = some k ∧ k.canonical = key := by
  simp [sortKeys]

/-! ## Collections -/

namespace Collected

variable {collected : Collected} {key : SortKey} {value : Json}

/-- **Ascending** collections: every key is before all later ones. -/
def Ascending (collected : Collected) : Prop := collected.Pairwise fun e f => e.1.compare f.1 = .lt

/-- **An insertion** keeps a collection ascending. -/
theorem Ascending.insert (h : collected.Ascending) (key : SortKey) (value : Json) :
    (collected.insert key value).Ascending := by
  induction collected with
  | nil => exact List.pairwise_singleton _ _
  | cons entry rest ih =>
    obtain ⟨k, v⟩ := entry
    obtain ⟨hfirst, hrest⟩ := List.pairwise_cons.mp h
    rw [Collected.insert]
    split
    · next hlt =>
      refine List.pairwise_cons.mpr ⟨fun f hf => ?_, h⟩
      rcases List.mem_cons.mp hf with rfl | hf
      · exact hlt
      · exact SortKey.lt_trans hlt (hfirst f hf)
    · exact h
    · next hgt =>
      refine List.pairwise_cons.mpr ⟨fun f hf => ?_, ih hrest⟩
      rcases mem_insert hf with hf | rfl
      · exact hfirst f hf
      · show k.compare key = .lt
        rw [← SortKey.compare_swap, hgt]
        rfl

/-- Adding values one list after the other. -/
theorem addAll_append (collected : Collected) (values later : List Json) :
    collected.addAll (values ++ later) = (collected.addAll values).addAll later := by
  induction values generalizing collected with
  | nil => rfl
  | cons value rest ih => exact ih _

mutual

/-- **Adding a value** is adding its scalars. -/
theorem add_eq_addAll_scalars : ∀ (value : Json) (collected : Collected),
    collected.add value = collected.addAll value.scalars
  | .null, _ => rfl
  | .arr items, collected => by
    rw [add, Json.scalars]
    exact addAll_eq_addAll_scalars items collected
  | .bool _, _ | .int _, _ | .float _, _ | .str _, _ | .obj _, _ => rfl

/-- Adding some values is adding their scalars. -/
theorem addAll_eq_addAll_scalars : ∀ (values : List Json) (collected : Collected),
    collected.addAll values = collected.addAll (Json.scalarsOfItems values)
  | [], _ => rfl
  | value :: rest, collected => by
    rw [addAll, Json.scalarsOfItems, addAll_append, ← add_eq_addAll_scalars value]
    exact addAll_eq_addAll_scalars rest _

end

/-- Adding values keeps a collection ascending. -/
theorem Ascending.addAll (h : collected.Ascending) {values : List Json}
    (hvalues : ∀ value ∈ values, value.HasKey) : (collected.addAll values).Ascending := by
  induction values generalizing collected with
  | nil => exact h
  | cons value rest ih =>
    obtain ⟨key, hkey⟩ := hvalues value List.mem_cons_self
    rw [Collected.addAll, add_of_key hkey]
    exact ih (h.insert key value) fun v hv => hvalues v (List.mem_cons_of_mem _ hv)

end Collected

/-! ## Distilled values -/

/-- **Distilling**: what is left of some scalars is one of them for each of their keys, in strictly ascending
order. -/
structure Distills (values found : List Json) : Prop where
  mem_found : ∀ value ∈ values, value ∈ found
  keyed : ∀ value ∈ values, value.HasKey
  ascending : (sortKeys values).Pairwise fun k l => k.compare l = .lt
  mem_keys : ∀ key, key ∈ sortKeys values ↔ key ∈ sortKeys found

/-- The keys of gathered values are those under which they are kept. -/
theorem Gathers.sortKeys_values {collected : Collected} {found : List Json} (h : Gathers collected found) :
    sortKeys collected.values = collected.map fun entry => entry.1.canonical := by
  have hsound := h.sound
  clear h
  induction collected with
  | nil => rfl
  | cons entry rest ih =>
    have hkey := (hsound entry List.mem_cons_self).2
    have hrest := ih fun e he => hsound e (List.mem_cons_of_mem _ he)
    simp only [Collected.values, sortKeys] at hrest
    simp [Collected.values, sortKeys, hkey, hrest]

/-- **Collected values** are the distilled scalars of what was found. -/
theorem Collected.distills (found : List Json) :
    Distills (addAll [] found).values (Json.scalarsOfItems found) := by
  have hkeyed : ∀ value ∈ Json.scalarsOfItems found, value.HasKey :=
    fun value hvalue => Json.hasKey_of_mem_scalarsOfItems found hvalue
  rw [addAll_eq_addAll_scalars]
  have hgathers : Gathers (addAll [] (Json.scalarsOfItems found)) (Json.scalarsOfItems found) :=
    Gathers.nil.addAll _ hkeyed
  have hnone : Collected.Ascending [] := List.Pairwise.nil
  have hascending : (addAll [] (Json.scalarsOfItems found)).Ascending := hnone.addAll hkeyed
  have hfound : ∀ value ∈ (addAll [] (Json.scalarsOfItems found)).values,
      value ∈ Json.scalarsOfItems found := by
    intro value hvalue
    obtain ⟨entry, hentry, rfl⟩ := List.mem_map.mp hvalue
    exact (hgathers.sound entry hentry).1
  refine ⟨hfound, fun value hvalue => hkeyed value (hfound value hvalue), ?_, fun key => ?_⟩
  · rw [hgathers.sortKeys_values, List.pairwise_map]
    exact hascending.imp fun hlt => (SortKey.compare_canonical _ _).trans hlt
  · constructor
    · intro hkey
      obtain ⟨value, hvalue, k, hk, rfl⟩ := mem_sortKeys.mp hkey
      exact mem_sortKeys.mpr ⟨value, hfound value hvalue, k, hk, rfl⟩
    · intro hkey
      obtain ⟨value, hvalue, k, hk, rfl⟩ := mem_sortKeys.mp hkey
      obtain ⟨entry, hentry, heq⟩ := hgathers.complete value hvalue k hk
      rw [hgathers.sortKeys_values]
      exact List.mem_map.mpr ⟨entry, hentry, (SortKey.canonical_eq_iff.mpr heq).symm⟩

end LinkedSearch
