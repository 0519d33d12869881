import LinkedSearch.Json.Decode

/-!
# Tables in ascending order

A keyed list is a table once its keys ascend. Every table the library builds is one, and building a
table again from an ascending one changes nothing; so a canonical value is its own canonical form,
and a decoder finds in a canonical object exactly the members it was made of.

* `Keyed.Ascending`: a table whose keys ascend.
* `Keyed.ofList_of_ascending`: an ascending table is built from its own entries.
* `Json.isCanonical`: every object inside a value is an ascending table.
* `Json.fields?_of_subset`: the fields of a record that was written with its members.
-/

namespace LinkedSearch

namespace Keyed

variable {α : Type}

/-- The keys of a table ascend, so that each occurs once. -/
def Ascending (table : List (String × α)) : Prop := (keys table).Pairwise (· < ·)

instance (table : List (String × α)) : Decidable (Ascending table) :=
  inferInstanceAs (Decidable ((keys table).Pairwise (· < ·)))

@[simp] theorem ascending_nil : Ascending ([] : List (String × α)) := List.Pairwise.nil

@[simp] theorem ascending_cons (key : String) (value : α) (table : List (String × α)) :
    Ascending ((key, value) :: table) ↔ (∀ other ∈ keys table, key < other) ∧ Ascending table :=
  List.pairwise_cons

/-- The keys of an ascending table are all different. -/
theorem Ascending.nodup {table : List (String × α)} (h : Ascending table) : (keys table).Nodup :=
  List.Pairwise.imp (S := (· ≠ ·)) (fun lt same => String.lt_irrefl _ (same ▸ lt)) h

/-- What an insertion leaves in a table. -/
theorem eq_or_mem_of_mem_insert {key : String} {value : α} {entry : String × α}
    {table : List (String × α)} (h : entry ∈ insert key value table) :
    entry = (key, value) ∨ entry ∈ table := by
  induction table with
  | nil => exact .inl (List.mem_singleton.mp h)
  | cons head rest ih =>
    obtain ⟨k, v⟩ := head
    simp only [insert] at h
    split at h
    · exact List.mem_cons.mp h
    · split at h
      · exact (List.mem_cons.mp h).imp_right (List.mem_cons_of_mem _)
      · rcases List.mem_cons.mp h with rfl | h
        · exact .inr List.mem_cons_self
        · exact (ih h).imp_right (List.mem_cons_of_mem _)

theorem mem_keys_insert {key other : String} {value : α} {table : List (String × α)}
    (h : other ∈ keys (insert key value table)) : other = key ∨ other ∈ keys table := by
  obtain ⟨entry, mem, rfl⟩ := List.mem_map.mp h
  rcases eq_or_mem_of_mem_insert mem with rfl | mem
  · exact .inl rfl
  · exact .inr (List.mem_map_of_mem mem)

/-- A table holds only entries it was built from. -/
theorem mem_of_mem_extend {entry : String × α} {table new : List (String × α)}
    (h : entry ∈ extend table new) : entry ∈ table ∨ entry ∈ new := by
  induction new generalizing table with
  | nil => exact .inl h
  | cons head rest ih =>
    rcases ih h with mem | mem
    · rcases eq_or_mem_of_mem_insert mem with rfl | mem
      · exact .inr List.mem_cons_self
      · exact .inl mem
    · exact .inr (List.mem_cons_of_mem _ mem)

theorem mem_of_mem_ofList {entry : String × α} {entries : List (String × α)}
    (h : entry ∈ ofList entries) : entry ∈ entries :=
  (mem_of_mem_extend h).resolve_left List.not_mem_nil

/-- An insertion keeps the order. -/
theorem Ascending.insert {table : List (String × α)} (h : Ascending table) (key : String)
    (value : α) : Ascending (Keyed.insert key value table) := by
  induction table with
  | nil => simp [keys]
  | cons entry rest ih =>
    obtain ⟨k, v⟩ := entry
    obtain ⟨above, ascending⟩ := (ascending_cons ..).mp h
    simp only [Keyed.insert]
    split
    · next before =>
      refine (ascending_cons ..).mpr ⟨fun other mem => ?_, h⟩
      rcases List.mem_cons.mp mem with rfl | mem
      · exact before
      · exact String.lt_trans before (above other mem)
    · next notBefore =>
      split
      · next same => exact (ascending_cons ..).mpr ⟨same ▸ above, ascending⟩
      · next different =>
        have after : k < key := by
          rcases Std.lt_trichotomy k key with lt | eq | gt
          · exact lt
          · exact absurd eq different
          · exact absurd gt notBefore
        refine (ascending_cons ..).mpr ⟨fun other mem => ?_, ih ascending⟩
        rcases mem_keys_insert mem with rfl | mem
        · exact after
        · exact above other mem

theorem Ascending.extend {table : List (String × α)} (h : Ascending table)
    (new : List (String × α)) : Ascending (Keyed.extend table new) := by
  induction new generalizing table with
  | nil => exact h
  | cons entry rest ih => exact ih (h.insert entry.1 entry.2)

/-- **Every table that is built ascends.** -/
theorem ascending_ofList (entries : List (String × α)) : Ascending (ofList entries) :=
  ascending_nil.extend entries

/-- A key above all others is inserted at the end. -/
theorem insert_of_above {key : String} {table : List (String × α)} (value : α)
    (h : ∀ other ∈ keys table, other < key) : insert key value table = table ++ [(key, value)] := by
  induction table with
  | nil => rfl
  | cons entry rest ih =>
    obtain ⟨k, v⟩ := entry
    have below : k < key := h k List.mem_cons_self
    have different : k ≠ key := fun same => String.lt_irrefl _ (same ▸ below)
    rw [insert, if_neg (String.lt_asymm below), if_neg different,
      ih fun other mem => h other (List.mem_cons_of_mem _ mem), List.cons_append]

/-- Entries that go on ascending are appended. -/
theorem extend_of_ascending {table new : List (String × α)} (h : Ascending (table ++ new)) :
    extend table new = table ++ new := by
  induction new generalizing table with
  | nil => simp
  | cons entry rest ih =>
    obtain ⟨key, value⟩ := entry
    have above : ∀ other ∈ keys table, other < key := by
      have ordered := h
      rw [Ascending, keys, List.map_append, List.pairwise_append] at ordered
      exact fun other mem => ordered.2.2 other mem key List.mem_cons_self
    rw [extend_cons, insert_of_above value above, ih (by simpa using h)]
    simp

/-- **An ascending table is built from its own entries.** -/
theorem ofList_of_ascending {table : List (String × α)} (h : Ascending table) :
    ofList table = table :=
  extend_of_ascending h

/-- The value found under the key of an entry, when the keys are different. -/
theorem find?_of_mem {table : List (String × α)} (distinct : (keys table).Nodup) {key : String}
    {value : α} (mem : (key, value) ∈ table) : find? key table = some value := by
  induction table with
  | nil => cases mem
  | cons entry rest ih =>
    obtain ⟨fresh, distinct⟩ := List.nodup_cons.mp distinct
    rcases List.mem_cons.mp mem with rfl | mem
    · simp
    · have different : entry.1 ≠ key := fun same =>
        fresh (same ▸ List.mem_map_of_mem (f := Prod.fst) mem)
      rw [find?_cons, if_neg different, ih distinct mem]

theorem find?_eq_none {key : String} {table : List (String × α)} (h : key ∉ keys table) :
    find? key table = none := by
  induction table with
  | nil => rfl
  | cons entry rest ih =>
    have different : entry.1 ≠ key := fun same => h (same ▸ List.mem_cons_self)
    rw [find?_cons, if_neg different, ih fun mem => h (List.mem_cons_of_mem _ mem)]

/-- Look-up in a table that was built from entries with different keys. -/
theorem find?_extend {key : String} {table new : List (String × α)} (distinct : (keys new).Nodup) :
    find? key (extend table new) = (find? key new).or (find? key table) := by
  induction new generalizing table with
  | nil => rfl
  | cons entry rest ih =>
    obtain ⟨k, v⟩ := entry
    obtain ⟨fresh, distinct⟩ := List.nodup_cons.mp distinct
    rw [extend_cons, ih distinct, find?_insert, find?_cons]
    split
    · next same => rw [find?_eq_none (same ▸ fresh)]; rfl
    · rfl

theorem find?_ofList {entries : List (String × α)} (distinct : (keys entries).Nodup)
    (key : String) : find? key (ofList entries) = find? key entries := by
  rw [ofList, find?_extend distinct, find?_nil, Option.or_none]

/-- What is found in a table is one of its entries. -/
theorem mem_of_find? {key : String} {value : α} {table : List (String × α)}
    (h : find? key table = some value) : (key, value) ∈ table := by
  induction table with
  | nil => exact absurd h (by simp)
  | cons entry rest ih =>
    obtain ⟨k, v⟩ := entry
    rw [find?_cons] at h
    split at h
    · next same =>
      rw [same, Option.some.inj h]
      exact List.mem_cons_self
    · exact List.mem_cons_of_mem _ (ih h)

theorem find?_append (key : String) (table others : List (String × α)) :
    find? key (table ++ others) = (find? key table).or (find? key others) := by
  induction table with
  | nil => rfl
  | cons entry rest ih =>
    obtain ⟨k, v⟩ := entry
    rw [List.cons_append, find?_cons, find?_cons, ih]
    split <;> rfl

theorem find?_extend_reverse (key : String) (table new : List (String × α)) :
    find? key (extend table new) = find? key (new.reverse ++ table) := by
  induction new generalizing table with
  | nil => rfl
  | cons entry rest ih =>
    obtain ⟨k, v⟩ := entry
    rw [extend_cons, ih, List.reverse_cons, List.append_assoc, find?_append, find?_append, find?_insert]
    rfl

/-- **Of several entries under a key** the last one is found. -/
theorem find?_ofList_reverse (key : String) (entries : List (String × α)) :
    find? key (ofList entries) = find? key entries.reverse := by
  rw [ofList, find?_extend_reverse, List.append_nil]

/-- A key is in a table if something is found under it. -/
theorem isSome_find?_iff {key : String} {table : List (String × α)} :
    (find? key table).isSome = true ↔ key ∈ keys table := by
  induction table with
  | nil => simp [keys]
  | cons entry rest ih =>
    obtain ⟨k, v⟩ := entry
    rw [find?_cons, keys, List.map_cons, List.mem_cons, ← keys, ← ih]
    split
    · next same => simp [same]
    · next different => simp [Ne.symm different]

/-- A table has the keys of its entries. -/
theorem mem_keys_ofList {key : String} {entries : List (String × α)} :
    key ∈ keys (ofList entries) ↔ key ∈ keys entries := by
  rw [← isSome_find?_iff, find?_ofList_reverse, isSome_find?_iff, keys, keys, List.map_reverse,
    List.mem_reverse]

end Keyed

namespace Json

/-! ## Canonical values -/

mutual

/-- Whether the members of every object in a value are an ascending table. -/
def isCanonical : Json → Bool
  | .arr items => areCanonical items
  | .obj members => decide (Keyed.Ascending members) && holdCanonical members
  | .null | .bool _ | .int _ | .float _ | .str _ => true

/-- Whether all items are canonical. -/
def areCanonical : List Json → Bool
  | [] => true
  | item :: rest => item.isCanonical && areCanonical rest

/-- Whether all members have canonical values. -/
def holdCanonical : List (String × Json) → Bool
  | [] => true
  | (_, value) :: rest => value.isCanonical && holdCanonical rest

end

theorem areCanonical_iff {items : List Json} :
    areCanonical items = true ↔ ∀ item ∈ items, item.isCanonical = true := by
  induction items with
  | nil => simp [areCanonical]
  | cons item rest ih => simp [areCanonical, ih]

theorem holdCanonical_iff {members : List (String × Json)} :
    holdCanonical members = true ↔ ∀ member ∈ members, member.2.isCanonical = true := by
  induction members with
  | nil => simp [holdCanonical]
  | cons member rest ih => simp [holdCanonical, ih]

mutual

/-- **A canonical value is its own canonical form.** -/
theorem canonical_of_isCanonical : (value : Json) → value.isCanonical = true →
    value.canonical = value
  | .arr items, h => by
    rw [isCanonical] at h
    rw [canonical, canonicalItems_of_areCanonical items h]
  | .obj members, h => by
    rw [isCanonical, Bool.and_eq_true, decide_eq_true_iff] at h
    rw [canonical, canonicalMembers_of_holdCanonical members h.2, ofMembers,
      Keyed.ofList_of_ascending h.1]
  | .null, _ | .bool _, _ | .int _, _ | .float _, _ | .str _, _ => rfl

theorem canonicalItems_of_areCanonical : (items : List Json) → areCanonical items = true →
    canonicalItems items = items
  | [], _ => rfl
  | item :: rest, h => by
    rw [areCanonical, Bool.and_eq_true] at h
    rw [canonicalItems, canonical_of_isCanonical item h.1, canonicalItems_of_areCanonical rest h.2]

theorem canonicalMembers_of_holdCanonical : (members : List (String × Json)) →
    holdCanonical members = true → canonicalMembers members = members
  | [], _ => rfl
  | (key, value) :: rest, h => by
    rw [holdCanonical, Bool.and_eq_true] at h
    rw [canonicalMembers, canonical_of_isCanonical value h.1,
      canonicalMembers_of_holdCanonical rest h.2]

end

mutual

/-- The canonical form of a value is canonical. -/
theorem isCanonical_canonical : (value : Json) → value.canonical.isCanonical = true
  | .arr items => areCanonical_canonicalItems items
  | .obj members => by
    rw [canonical, ofMembers, isCanonical, Bool.and_eq_true, decide_eq_true_iff]
    refine ⟨Keyed.ascending_ofList _, holdCanonical_iff.mpr fun member mem => ?_⟩
    exact holdCanonical_iff.mp (holdCanonical_canonicalMembers members) member
      (Keyed.mem_of_mem_ofList mem)
  | .null | .bool _ | .int _ | .float _ | .str _ => rfl

theorem areCanonical_canonicalItems : (items : List Json) →
    areCanonical (canonicalItems items) = true
  | [] => rfl
  | item :: rest => by
    rw [canonicalItems, areCanonical, isCanonical_canonical item,
      areCanonical_canonicalItems rest, Bool.and_self]

theorem holdCanonical_canonicalMembers : (members : List (String × Json)) →
    holdCanonical (canonicalMembers members) = true
  | [] => rfl
  | (key, value) :: rest => by
    rw [canonicalMembers, holdCanonical, isCanonical_canonical value,
      holdCanonical_canonicalMembers rest, Bool.and_self]

end

/-! ## Records -/

/-- A table repeats no key. -/
theorem unrepeated_of_ascending (names : List String) {members : List (String × Json)}
    (h : Keyed.Ascending members) : unrepeated names members = true := by
  refine List.all_eq_true.mpr fun name _ => decide_eq_true ?_
  have once := List.nodup_iff_count.mp h.nodup name
  rwa [Keyed.keys, List.count_eq_countP, List.countP_map] at once

/-- The members of a record that are present. -/
def present (members : List (String × Option Json)) : List (String × Json) :=
  members.filterMap fun (key, value) => value.map (key, ·)

theorem ofPresent_eq (members : List (String × Option Json)) :
    ofPresent members = .obj (Keyed.ofList (present members)) := rfl

theorem mem_keys_of_mem_present {key : String} {members : List (String × Option Json)}
    (h : key ∈ Keyed.keys (present members)) : key ∈ Keyed.keys members := by
  obtain ⟨entry, mem, rfl⟩ := List.mem_map.mp h
  obtain ⟨⟨name, value⟩, written, eq⟩ := List.mem_filterMap.mp mem
  obtain ⟨_, _, rfl⟩ := Option.map_eq_some_iff.mp eq
  exact List.mem_map_of_mem (f := Prod.fst) written

theorem nodup_present {members : List (String × Option Json)}
    (distinct : (Keyed.keys members).Nodup) : (Keyed.keys (present members)).Nodup := by
  induction members with
  | nil => exact List.nodup_nil
  | cons member rest ih =>
    obtain ⟨name, value⟩ := member
    obtain ⟨fresh, others⟩ := List.nodup_cons.mp distinct
    cases value with
    | none => exact ih others
    | some value =>
      exact List.nodup_cons.mpr ⟨fun mem => fresh (mem_keys_of_mem_present mem), ih others⟩

/-- A record has what it was written with under a name, or nothing. -/
theorem find?_present {members : List (String × Option Json)}
    (distinct : (Keyed.keys members).Nodup) {name : String} {value : Option Json}
    (mem : (name, value) ∈ members) :
    Keyed.find? name (Keyed.ofList (present members)) = value := by
  rw [Keyed.find?_ofList (nodup_present distinct)]
  cases value with
  | some value =>
    exact Keyed.find?_of_mem (nodup_present distinct) (List.mem_filterMap.mpr ⟨_, mem, rfl⟩)
  | none =>
    refine Keyed.find?_eq_none fun found => ?_
    obtain ⟨entry, found, same⟩ := List.mem_map.mp found
    obtain ⟨⟨other, value⟩, other_mem, eq⟩ := List.mem_filterMap.mp found
    obtain ⟨value, rfl, rfl⟩ := Option.map_eq_some_iff.mp eq
    cases same
    have first := Keyed.find?_of_mem distinct mem
    rw [Keyed.find?_of_mem distinct other_mem] at first
    cases first

/-- **Fields of a written record**: some of the members it was written with, in their order. -/
theorem fields?_of_subset {members parts : List (String × Option Json)}
    (distinct : (Keyed.keys members).Nodup) (part : parts ⊆ members) :
    (ofPresent members).fields? (Keyed.keys parts) = some (parts.map Prod.snd) := by
  rw [ofPresent_eq, fields?, if_pos (unrepeated_of_ascending _ (Keyed.ascending_ofList _)),
    Keyed.keys, List.map_map]
  exact congrArg some (List.map_congr_left fun member mem => find?_present distinct (part mem))

/-- All fields of a written record. -/
theorem fields?_ofPresent (members : List (String × Option Json))
    (distinct : (Keyed.keys members).Nodup) :
    (ofPresent members).fields? (Keyed.keys members) = some (members.map Prod.snd) :=
  fields?_of_subset distinct (List.Subset.refl _)

/-- Fields of a record without optional members. -/
theorem fields?_ofMembers_of_subset {members parts : List (String × Json)}
    (distinct : (Keyed.keys members).Nodup) (part : parts ⊆ members) :
    (ofMembers members).fields? (Keyed.keys parts) =
      some (parts.map fun member => some member.2) := by
  rw [ofMembers, fields?, if_pos (unrepeated_of_ascending _ (Keyed.ascending_ofList _)),
    Keyed.keys, List.map_map]
  refine congrArg some (List.map_congr_left fun member mem => ?_)
  exact (Keyed.find?_ofList distinct _).trans (Keyed.find?_of_mem distinct (part mem))

theorem fields?_ofMembers (members : List (String × Json))
    (distinct : (Keyed.keys members).Nodup) :
    (ofMembers members).fields? (Keyed.keys members) =
      some (members.map fun member => some member.2) :=
  fields?_ofMembers_of_subset distinct (List.Subset.refl _)

end Json

end LinkedSearch
