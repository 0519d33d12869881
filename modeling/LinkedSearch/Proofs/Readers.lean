import LinkedSearch.Proofs.Rounding
import LinkedSearch.Proofs.Tables

/-!
# Readers of values

A reader gives a value of some type, or nothing. Two things are said about each of them: that it
gives back what was written for a value of its type, and what holds of everything it gives. Both
carry over to lists, optional members, members with a default and records.

* `Gives`: what holds of the result of a reader, if it has one.
* `Json.list?_map`, `Json.optional_map`: reading back a list and an optional member.
* `Json.binary?_single_gives`: a number that was read has single precision.
-/

namespace LinkedSearch

open Number (Binary)

/-- A property holds of the result of a reader, if it has one. -/
def Gives {α : Type} (p : α → Prop) (result : Option α) : Prop := ∀ x ∈ result, p x

namespace Gives

variable {α β : Type} {p : α → Prop} {q : β → Prop}

theorem none : Gives p none := by
  rintro _ ⟨⟩

theorem some {x : α} (h : p x) : Gives p (some x) := by
  rintro _ ⟨⟩
  exact h

theorem any {result : Option α} : Gives (fun _ => True) result := fun _ _ => trivial

theorem bind {result : Option α} {f : α → Option β} (h : Gives p result)
    (next : ∀ x, p x → Gives q (f x)) : Gives q (result.bind f) := by
  intro y mem
  obtain ⟨x, read, given⟩ := Option.bind_eq_some_iff.mp mem
  exact next x (h x read) y given

/-- A reader followed by a reader, where nothing is known about the first. -/
theorem after {result : Option α} {f : α → Option β} (next : ∀ x, Gives q (f x)) :
    Gives q (result.bind f) :=
  any.bind fun x _ => next x

end Gives

/-- A finite binary number. -/
def Number.Binary.isFinite : Binary → Bool
  | .finite _ => true
  | .nan | .infinite _ => false

namespace Json

variable {α : Type} {p : α → Prop} {read : Json → Option α} {write : α → Json}

@[simp] theorem required_some (value : Json) : required read (some value) = read value := rfl

@[simp] theorem withDefault_some (default : α) (value : Json) :
    withDefault default read (some value) = read value := rfl

@[simp] theorem string?_str (text : String) : string? (.str text) = some text := rfl

@[simp] theorem bool?_bool (value : Bool) : bool? (.bool value) = some value := rfl

theorem natBelow?_ofNat {bound n : Nat} (h : n < bound) : natBelow? bound (ofNat n) = some n := by
  rw [ofNat, natBelow?, if_pos ⟨Int.natCast_nonneg n, Int.ofNat_lt.mpr h⟩, Int.toNat_natCast]

-- The written number gets a name, lest its comparison with the bound be evaluated by unfolding.
theorem nat32?_written {n : Nat} (h : n < 4294967296) :
    ∃ number, ofNat n = number ∧ nat32? number = some n :=
  ⟨_, rfl, natBelow?_ofNat h⟩

theorem nat64?_written {n : Nat} (h : n < 18446744073709551616) :
    ∃ number, ofNat n = number ∧ nat64? number = some n :=
  ⟨_, rfl, natBelow?_ofNat h⟩

theorem ofMembers_ne_null (members : List (String × Json)) : ofMembers members ≠ .null := by
  simp [ofMembers]

theorem any?_of_isCanonical {value : Json} (h : value.isCanonical = true) :
    any? value = some value := by
  rw [any?, canonical_of_isCanonical value h]

theorem nullable?_of_ne_null {value : Json} (h : value ≠ .null) :
    nullable? read value = (read value).map some := by
  cases value with
  | null => exact absurd rfl h
  | bool | int | float | str | arr | obj => rfl

/-- An optional member is read back from what is written where it is present. -/
theorem optional_map {x : Option α} (back : ∀ y ∈ x, read (write y) = some y)
    (nonnull : ∀ y ∈ x, write y ≠ .null) : optional read (x.map write) = some x := by
  cases x with
  | none => rfl
  | some y =>
    rw [Option.map_some, optional, withDefault_some, nullable?_of_ne_null (nonnull y rfl),
      back y rfl, Option.map_some]

@[simp] theorem optional_string? (text : Option String) :
    optional string? (text.map .str) = some text :=
  optional_map (fun _ _ => rfl) (fun _ _ => by simp)

/-- A number of single precision is read back, unless it is not finite. -/
theorem optional_binary? {number : Option Binary}
    (single : ∀ b ∈ number, b.convert .single = b) (finite : ∀ b ∈ number, b.isFinite = true) :
    optional (binary? .single) (number.map .ofBinary) = some number := by
  refine optional_map (fun b mem => ?_) (fun b mem => ?_)
  · cases b with
    | finite x => exact congrArg some (single _ mem)
    | nan | infinite => exact absurd (finite _ mem) Bool.false_ne_true
  · cases b with
    | finite x => simp [ofBinary]
    | nan | infinite => exact absurd (finite _ mem) Bool.false_ne_true

theorem mapM_map {β : Type} {read : β → Option α} {write : α → β} {items : List α}
    (back : ∀ x ∈ items, read (write x) = some x) : (items.map write).mapM read = some items := by
  induction items with
  | nil => rfl
  | cons x rest ih =>
    rw [List.map_cons, List.mapM_cons, back x List.mem_cons_self,
      ih fun y mem => back y (List.mem_cons_of_mem _ mem)]
    rfl

/-- A list is read back from what is written for its items. -/
theorem list?_map {items : List α} (back : ∀ x ∈ items, read (write x) = some x) :
    list? read (.arr (items.map write)) = some items :=
  mapM_map back

theorem list?_any? {items : List Json} (h : ∀ item ∈ items, item.isCanonical = true) :
    list? any? (.arr items) = some items := by
  have read_back : list? any? (.arr (items.map id)) = some items :=
    list?_map fun item mem => any?_of_isCanonical (h item mem)
  rwa [List.map_id] at read_back

/-- A table is read back from what is written for its values. -/
theorem table?_mapValues {table : List (String × α)} (ascending : Keyed.Ascending table)
    (back : ∀ x, read (write x) = some x) :
    table? read (.obj (Keyed.mapValues write table)) = some table := by
  refine Option.bind_eq_some_iff.mpr ⟨table, ?_, ?_⟩
  · exact mapM_map fun entry _ => by simp [back]
  · exact congrArg some (Keyed.ofList_of_ascending ascending)

/-! ### What readers give -/

theorem required_gives {field : Option Json} (h : ∀ value, Gives p (read value)) :
    Gives p (required read field) :=
  Gives.after h

theorem withDefault_gives {default : α} {field : Option Json} (trivial : p default)
    (h : ∀ value, Gives p (read value)) : Gives p (withDefault default read field) := by
  cases field with
  | none => exact .some trivial
  | some value => exact h value

theorem optional_gives {field : Option Json} (h : ∀ value, Gives p (read value)) :
    Gives (fun x : Option α => ∀ y ∈ x, p y) (optional read field) := by
  cases field with
  | none => exact .some (by simp)
  | some value =>
    rw [optional, withDefault_some]
    by_cases null : value = .null
    · rw [null]
      exact .some (by simp)
    · rw [nullable?_of_ne_null null]
      intro x mem
      obtain ⟨y, given, rfl⟩ := Option.map_eq_some_iff.mp mem
      rintro _ ⟨⟩
      exact h value y given

theorem list?_gives (h : ∀ value, Gives p (read value)) (value : Json) :
    Gives (fun items : List α => ∀ item ∈ items, p item) (list? read value) := by
  cases value with
  | arr items =>
    simp only [list?]
    induction items with
    | nil => exact .some (by simp)
    | cons item rest ih =>
      rw [List.mapM_cons]
      exact (h item).bind fun x hx => ih.bind fun xs hxs =>
        .some (List.forall_mem_cons.mpr ⟨hx, hxs⟩)
  | null | bool | int | float | str | obj => exact .none

theorem natBelow?_gives (bound : Nat) (value : Json) :
    Gives (fun n : Nat => n < bound) (natBelow? bound value) := by
  cases value with
  | int n =>
    rw [natBelow?]
    split
    · next within => exact .some (by omega)
    · exact .none
  | null | bool | float | str | arr | obj => exact .none

theorem any?_gives (value : Json) : Gives (fun x : Json => x.isCanonical = true) (any? value) :=
  .some (isCanonical_canonical value)

theorem table?_gives (read : Json → Option α) (value : Json) :
    Gives Keyed.Ascending (table? read value) := by
  cases value with
  | obj members => exact .after fun entries => .some (Keyed.ascending_ofList entries)
  | null | bool | int | float | str | arr => exact .none

/-- A number that is read as single precision has single precision. -/
theorem binary?_single_gives (value : Json) :
    Gives (fun b : Binary => b.convert .single = b) (binary? .single value) := by
  cases value with
  | int n => exact .some (Binary.convert_ofInt (by decide) (by decide) n)
  | float x => exact .some (Binary.convert_ofFinite (by decide) (by decide) x)
  | null | bool | str | arr | obj => exact .none

end Json

end LinkedSearch
