import Mathlib.Tactic.ByContra
import LinkedSearch.Cluster

/-! # The values that a scan collects

A scan collects values in ascending order, one for each sort key. For the documents that are joined
by them nothing is lost by this: two values with one key have the same matches.

* `Json.hasTerm_congr`: values with the same sort key are the same terms.
* `Gathers`: a collection stands for a list of values. It is built up value by value, and page by
  page (`gathers_readFrom`).
* `Cluster.run_any_hasTerm`: a value matches something that a scan has collected if and only if it
  matches a value of a document that the scan hits.
* `Cluster.run_any_joined`: the same for several values, as a join of documents. -/

namespace LinkedSearch

open Number (Binary Finite)

/-! ## Values with the same key -/

namespace Number.Finite

/-- Numbers that compare equal have the same value. -/
theorem value_eq_of_compare {a b : Finite} (h : a.compare b = .eq) : a.value = b.value := by
  unfold compare at h
  split at h
  · exact absurd h (by simp)
  · next hlt =>
    split at h
    · exact absurd h (by simp)
    · next hgt =>
      have hle := Dyadic.blt_eq_false_iff.mp (eq_false_of_ne_true hlt)
      have hge := Dyadic.blt_eq_false_iff.mp (eq_false_of_ne_true hgt)
      exact Dyadic.le_antisymm hge hle

theorem compare_self (a : Finite) : a.compare a = .eq := by
  have hirrefl : a.value.blt a.value = false :=
    Dyadic.blt_eq_false_iff.mpr (Dyadic.le_refl a.value)
  simp [compare, hirrefl]

end Number.Finite

namespace SortKey

/-- The value that a key is made from, objects apart. -/
def value : SortKey → Json
  | bool value => .bool value
  | int value => .int value
  | float value => .float value
  | text value => .str value

theorem compare_self (k : SortKey) : k.compare k = .eq := by
  cases k with
  | float a => exact Finite.compare_self a
  | _ => exact Std.LawfulEqOrd.compare_eq_iff_eq.mpr rfl

/-- Keys that compare equal are of the same kind. -/
theorem rank_eq_of_compare {k l : SortKey} (h : k.compare l = .eq) : k.rank = l.rank := by
  by_contra hne
  have hrank : k.compare l = Ord.compare k.rank l.rank := by
    cases k <;> cases l <;> first | rfl | exact absurd rfl hne
  exact hne (Std.LawfulEqOrd.compare_eq_iff_eq.mp (hrank.symm.trans h))

/-- Keys that compare equal are equal, or numbers of the same value. -/
theorem eq_of_compare {k l : SortKey} (h : k.compare l = .eq) :
    k = l ∨ ∃ a b, k = .float a ∧ l = .float b ∧ a.value = b.value := by
  have hrank := rank_eq_of_compare h
  cases k with
  | bool a =>
    cases l with
    | bool b => exact .inl (congrArg _ (Std.LawfulEqOrd.compare_eq_iff_eq.mp h))
    | _ => exact absurd hrank (by simp [rank])
  | int a =>
    cases l with
    | int b => exact .inl (congrArg _ (Std.LawfulEqOrd.compare_eq_iff_eq.mp h))
    | _ => exact absurd hrank (by simp [rank])
  | float a =>
    cases l with
    | float b => exact .inr ⟨a, b, rfl, rfl, Finite.value_eq_of_compare h⟩
    | _ => exact absurd hrank (by simp [rank])
  | text a =>
    cases l with
    | text b => exact .inl (congrArg _ (Std.LawfulEqOrd.compare_eq_iff_eq.mp h))
    | _ => exact absurd hrank (by simp [rank])

end SortKey

namespace Json

/-- Whether a value is an object. -/
def isObject : Json → Bool
  | .obj _ => true
  | _ => false

/-- What does not read as a number is not spelled like a zero. -/
theorem scalarText_ne_zero {w : Json} (h : w.readNumber? = none) :
    w.scalarText ≠ "0.0" ∧ w.scalarText ≠ "-0.0" := by
  cases w with
  | null => decide
  | bool value => cases value <;> decide
  | int value => exact absurd h (by simp [readNumber?, number?])
  | float value => exact absurd h (by simp [readNumber?, number?])
  | str text =>
    constructor
    · rintro rfl
      exact absurd h (by decide +kernel)
    · rintro rfl
      exact absurd h (by decide +kernel)
  | arr items =>
    constructor <;> intro heq <;>
      exact absurd (congrArg String.toList heq) (by simp [scalarText, compact])
  | obj members =>
    constructor <;> intro heq <;>
      exact absurd (congrArg String.toList heq) (by simp [scalarText, compact])

/-- A number of either spelling compares alike with other numbers. -/
theorem binary_compare?_congr {a b : Finite} (h : a.value = b.value) (l : Binary) :
    Binary.compare? l (.finite a) = Binary.compare? l (.finite b) := by
  cases l with
  | nan => rfl
  | infinite negative => rfl
  | finite x => simp [Finite.compare, h]

/-- Only zeros have two spellings. -/
theorem eq_or_zeros {a b : Finite} (h : a.value = b.value) :
    a = b ∨ (∃ n, a = .zero n) ∧ ∃ n, b = .zero n := by
  cases a with
  | negZero =>
    cases b with
    | negZero => exact .inl rfl
    | dyadic d => exact .inr ⟨⟨true, rfl⟩, false, by rw [show d = 0 from h.symm]; rfl⟩
  | dyadic d =>
    cases b with
    | negZero => exact .inr ⟨⟨false, by rw [show d = 0 from h]; rfl⟩, true, rfl⟩
    | dyadic e => exact .inl (congrArg Finite.dyadic h)

/-- The spelling of a zero. -/
theorem jsonText_zero (negative : Bool) :
    (Finite.zero negative).jsonText = "0.0" ∨ (Finite.zero negative).jsonText = "-0.0" := by
  cases negative
  · exact .inl (by decide +kernel)
  · exact .inr (by decide +kernel)

/-- Numbers of the same value are the same terms: only a zero has two spellings, and neither of them
is the text of a value that is no number. -/
theorem compare?_float_congr {a b : Finite} (h : a.value = b.value) (w : Json) :
    (w.compare? (.float a) == some .eq) = (w.compare? (.float b) == some .eq) := by
  rcases eq_or_zeros h with rfl | ⟨⟨n, hn⟩, m, hm⟩
  · rfl
  have hnumbers : ∀ x : Finite, numbers? w (.float x) = w.readNumber?.map fun l => (l, .finite x) := by
    intro x
    rw [numbers?, if_pos (by simp [isNumber, number?])]
    cases w.readNumber? <;> rfl
  unfold compare?
  simp only [hnumbers, reduceCtorEq, or_false]
  split
  · rfl
  · cases hread : w.readNumber? with
    | some l => simp only [Option.map_some, binary_compare?_congr h]
    | none =>
      obtain ⟨hplus, hminus⟩ := scalarText_ne_zero hread
      -- neither of the two texts of a zero is the text of this value
      have hne : ∀ x : Finite, (∃ n, x = .zero n) →
          (compare w.scalarText (scalarText (.float x)) == .eq) = false := by
        rintro x ⟨negative, rfl⟩
        rw [beq_eq_false_iff_ne, Ne, Std.LawfulEqOrd.compare_eq_iff_eq]
        rcases jsonText_zero negative with htext | htext
        · exact fun heq => hplus (heq.trans htext)
        · exact fun heq => hminus (heq.trans htext)
      simpa using (hne a ⟨n, hn⟩).trans (hne b ⟨m, hm⟩).symm

/-- **Values with the same sort key** are the same terms. -/
theorem hasTerm_congr {u v : Json} {k l : SortKey} (hu : SortKey.of? u = some k)
    (hv : SortKey.of? v = some l) (hkl : k.compare l = .eq) (hu' : u.isObject = false)
    (hv' : v.isObject = false) (w : Json) : w.hasTerm u = w.hasTerm v := by
  have hkey : ∀ {value : Json} {key : SortKey}, value.isObject = false →
      SortKey.of? value = some key → value = key.value := by
    intro value key hvalue hkey
    cases value with
    | null => exact absurd hkey (by simp [SortKey.of?])
    | arr items => exact absurd hkey (by simp [SortKey.of?])
    | obj members => exact absurd hvalue (by simp [isObject])
    | _ => cases hkey; rfl
  obtain rfl := hkey hu' hu
  obtain rfl := hkey hv' hv
  rcases SortKey.eq_of_compare hkl with rfl | ⟨a, b, rfl, rfl, hvalue⟩
  · rfl
  · have hfloat := compare?_float_congr hvalue w
    cases w <;> simpa only [hasTerm, SortKey.value, Bool.or_false] using hfloat

end Json

/-! ## Values of a field -/

/-- Whether a value has a sort key, as everything has but lists and `null`. -/
def Json.HasKey (value : Json) : Prop := ∃ key, SortKey.of? value = some key

mutual

/-- Scalars have sort keys. -/
theorem Json.hasKey_of_mem_scalars : ∀ (value : Json) {v : Json}, v ∈ value.scalars → v.HasKey
  | .null, v, h => absurd h (by simp [scalars])
  | .arr items, v, h => hasKey_of_mem_scalarsOfItems items (by simpa [scalars] using h)
  | .bool b, v, h => by
    obtain rfl : v = .bool b := by simpa [scalars] using h
    exact ⟨_, rfl⟩
  | .int n, v, h => by
    obtain rfl : v = .int n := by simpa [scalars] using h
    exact ⟨_, rfl⟩
  | .float x, v, h => by
    obtain rfl : v = .float x := by simpa [scalars] using h
    exact ⟨_, rfl⟩
  | .str text, v, h => by
    obtain rfl : v = .str text := by simpa [scalars] using h
    exact ⟨_, rfl⟩
  | .obj members, v, h => by
    obtain rfl : v = .obj members := by simpa [scalars] using h
    exact ⟨_, rfl⟩

theorem Json.hasKey_of_mem_scalarsOfItems : ∀ (items : List Json) {v : Json},
    v ∈ scalarsOfItems items → v.HasKey
  | [], v, h => absurd h (by simp [scalarsOfItems])
  | item :: rest, v, h => by
    rw [scalarsOfItems] at h
    rcases List.mem_append.mp h with h | h
    · exact hasKey_of_mem_scalars item h
    · exact hasKey_of_mem_scalarsOfItems rest h

end

mutual

/-- What is found along a path has sort keys. -/
theorem Json.hasKey_of_mem_valuesAlong : ∀ (value : Json) (path : List String) {v : Json},
    v ∈ value.valuesAlong path → v.HasKey
  | .arr items, path, v, h => hasKey_of_mem_valuesOfItems items path (by simpa [valuesAlong] using h)
  | .obj members, [], v, h => absurd h (by simp [valuesAlong])
  | .obj members, head :: rest, v, h =>
    hasKey_of_mem_valuesOfMember members head rest (by simpa [valuesAlong] using h)
  | .null, path, v, h | .bool _, path, v, h | .int _, path, v, h | .float _, path, v, h
  | .str _, path, v, h => absurd h (by simp [valuesAlong])

theorem Json.hasKey_of_mem_valuesOfItems : ∀ (items : List Json) (path : List String) {v : Json},
    v ∈ valuesOfItems items path → v.HasKey
  | [], path, v, h => absurd h (by simp [valuesOfItems])
  | item :: rest, path, v, h => by
    rw [valuesOfItems] at h
    rcases List.mem_append.mp h with h | h
    · exact hasKey_of_mem_valuesAlong item path h
    · exact hasKey_of_mem_valuesOfItems rest path h

theorem Json.hasKey_of_mem_valuesOfMember : ∀ (members : List (String × Json)) (head : String)
    (rest : List String) {v : Json}, v ∈ valuesOfMember members head rest → v.HasKey
  | [], head, rest, v, h => absurd h (by simp [valuesOfMember])
  | (key, value) :: others, head, rest, v, h => by
    rw [valuesOfMember.eq_def] at h
    simp only at h
    split at h
    · split at h
      · exact hasKey_of_mem_scalars value h
      · exact hasKey_of_mem_valuesAlong value _ h
    · exact hasKey_of_mem_valuesOfMember others head rest h

end

/-- **Values of a field** have sort keys. -/
theorem Document.hasKey_of_mem_values {document v : Json} {field : String}
    (h : v ∈ Document.values document field) : v.HasKey := by
  unfold values at h
  split at h
  · exact Json.hasKey_of_mem_scalars _ h
  · exact Json.hasKey_of_mem_valuesAlong _ _ h

/-! ## Collections -/

/-- **Gathering**: a collection holds values that were found, and for every value that was found one
with the same key. -/
structure Gathers (collected : Collected) (found : List Json) : Prop where
  sound : ∀ entry ∈ collected, entry.2 ∈ found ∧ SortKey.of? entry.2 = some entry.1
  complete : ∀ value ∈ found, ∀ key, SortKey.of? value = some key →
    ∃ entry ∈ collected, key.compare entry.1 = .eq

namespace Collected

/-- An inserted value adds nothing but itself. -/
theorem mem_insert {key : SortKey} {value : Json} {collected : Collected} {entry : SortKey × Json}
    (h : entry ∈ insert key value collected) : entry ∈ collected ∨ entry = (key, value) := by
  induction collected with
  | nil => exact .inr (List.mem_singleton.mp h)
  | cons head rest ih =>
    obtain ⟨k, v⟩ := head
    rw [insert] at h
    split at h
    · exact (List.mem_cons.mp h).symm
    · exact .inl h
    · rcases List.mem_cons.mp h with rfl | h
      · exact .inl List.mem_cons_self
      · exact (ih h).imp_left (List.mem_cons_of_mem _)

/-- An insertion loses nothing. -/
theorem mem_insert_of_mem {key : SortKey} {value : Json} {collected : Collected}
    {entry : SortKey × Json} (h : entry ∈ collected) : entry ∈ insert key value collected := by
  induction collected with
  | nil => exact absurd h (by simp)
  | cons head rest ih =>
    obtain ⟨k, v⟩ := head
    rw [insert]
    split
    · exact List.mem_cons_of_mem _ h
    · exact h
    · rcases List.mem_cons.mp h with rfl | h
      · exact List.mem_cons_self
      · exact List.mem_cons_of_mem _ (ih h)

/-- After an insertion there is a value with the key. -/
theorem exists_mem_insert (key : SortKey) (value : Json) (collected : Collected) :
    ∃ entry ∈ insert key value collected, key.compare entry.1 = .eq := by
  induction collected with
  | nil => exact ⟨(key, value), List.mem_singleton_self _, key.compare_self⟩
  | cons head rest ih =>
    obtain ⟨k, v⟩ := head
    rw [insert]
    split
    · exact ⟨(key, value), List.mem_cons_self, key.compare_self⟩
    · next heq => exact ⟨(k, v), List.mem_cons_self, heq⟩
    · obtain ⟨entry, hentry, heq⟩ := ih
      exact ⟨entry, List.mem_cons_of_mem _ hentry, heq⟩

/-- Adding a value with a key inserts it. -/
theorem add_of_key {value : Json} {key : SortKey} (h : SortKey.of? value = some key)
    (collected : Collected) : collected.add value = insert key value collected := by
  cases value with
  | null => exact absurd h (by simp [SortKey.of?])
  | arr items => exact absurd h (by simp [SortKey.of?])
  | _ => simp [add, h]

end Collected

namespace Gathers

variable {collected : Collected} {found : List Json}

theorem nil : Gathers [] [] := ⟨by simp, by simp⟩

/-- One more value. -/
theorem insert (h : Gathers collected found) {value : Json} {key : SortKey}
    (hkey : SortKey.of? value = some key) :
    Gathers (collected.insert key value) (found ++ [value]) := by
  constructor
  · intro entry hentry
    rcases Collected.mem_insert hentry with hold | rfl
    · exact (h.sound entry hold).imp_left (List.mem_append_left _)
    · exact ⟨List.mem_append_right _ (List.mem_singleton_self _), hkey⟩
  · intro v hv k hk
    rcases List.mem_append.mp hv with hold | hnew
    · obtain ⟨entry, hentry, heq⟩ := h.complete v hold k hk
      exact ⟨entry, Collected.mem_insert_of_mem hentry, heq⟩
    · rw [List.mem_singleton.mp hnew, hkey] at hk
      cases hk
      exact Collected.exists_mem_insert key value collected

/-- **A page of values.** -/
theorem addAll (h : Gathers collected found) (values : List Json)
    (hvalues : ∀ value ∈ values, value.HasKey) :
    Gathers (collected.addAll values) (found ++ values) := by
  induction values generalizing collected found with
  | nil => simpa [Collected.addAll] using h
  | cons value rest ih =>
    obtain ⟨key, hkey⟩ := hvalues value List.mem_cons_self
    rw [Collected.addAll, Collected.add_of_key hkey]
    have hrest := ih (h.insert hkey) fun v hv => hvalues v (List.mem_cons_of_mem value hv)
    rwa [List.append_assoc] at hrest

/-- **What a value matches** in a collection is what it matches among the values that were found. -/
theorem any_hasTerm (h : Gathers collected found) (hfound : ∀ value ∈ found, value.HasKey)
    (hobjects : ∀ value ∈ found, value.isObject = false) (w : Json) :
    (collected.values.any fun value => w.hasTerm value) = found.any fun value => w.hasTerm value := by
  rw [Bool.eq_iff_iff, List.any_eq_true, List.any_eq_true]
  constructor
  · rintro ⟨value, hvalue, hterm⟩
    obtain ⟨entry, hentry, rfl⟩ := List.mem_map.mp hvalue
    exact ⟨entry.2, (h.sound entry hentry).1, hterm⟩
  · rintro ⟨value, hvalue, hterm⟩
    obtain ⟨key, hkey⟩ := hfound value hvalue
    obtain ⟨entry, hentry, heq⟩ := h.complete value hvalue key hkey
    obtain ⟨hmem, hkey'⟩ := h.sound entry hentry
    refine ⟨entry.2, List.mem_map_of_mem hentry, ?_⟩
    rw [← Json.hasTerm_congr hkey hkey' heq (hobjects value hvalue) (hobjects _ hmem)]
    exact hterm

end Gathers

/-! ## Pages -/

/-- The values of a field in some documents. -/
def valuesIn (field : String) (documents : List Json) : List Json :=
  documents.flatMap fun document => Document.values document field

/-- **Reading on**: when the values of the first `seen` hits are gathered, reading the remaining pages
gathers those of all hits. -/
theorem gathers_readFrom (index field : String) (scan : OpenScan) (hits : List Json) {size : Nat}
    (hsize : 0 < size) (htotal : scan.total = hits.length)
    (hpage : ∀ number, scan.page number = .ok {
      hits := ((hits.drop (number * size)).take size).length
      values := valuesIn field ((hits.drop (number * size)).take size) })
    (next seen : Nat) (hseen : seen = min (next * size) hits.length) (collected : Collected)
    (hcollected : Gathers collected (valuesIn field (hits.take seen))) {found : List Json} {n : Nat}
    (h : (scan.readFrom index next seen collected).outcome = .ok (found, n)) :
    ∃ all : Collected, found = all.values ∧ Gathers all (valuesIn field hits) := by
  -- the induction is on how many hits are left to read; that the pages so far have been full is what
  -- keeps their number and the count of the values in step
  induction hleft : hits.length - seen using Nat.strongRecOn
    generalizing next seen collected with
  | ind left ih =>
    rw [OpenScan.readFrom, htotal] at h
    split at h
    · next hlt =>
      rw [hpage] at h
      simp only [ne_eq, not_true_eq_false, if_false] at h
      obtain rfl : seen = next * size := by omega
      generalize hpage' : (hits.drop (next * size)).take size = page at h
      have hprefix : page <+: hits.drop (next * size) := hpage' ▸ List.take_prefix size _
      have hlength : page.length = min size (hits.length - next * size) := by
        rw [← hpage', List.length_take, List.length_drop]
      have htake : hits.take (next * size + page.length) = hits.take (next * size) ++ page := by
        rw [List.take_add, ← List.prefix_iff_eq_take.mp hprefix]
      split at h
      · exact absurd h (by simp)
      · have hpageGathered := hcollected.addAll (valuesIn field page) fun value hvalue => by
          obtain ⟨document, -, hmem⟩ := List.mem_flatMap.mp hvalue
          exact Document.hasKey_of_mem_values hmem
        refine ih (hits.length - (next * size + page.length)) (by omega) (next + 1)
          (next * size + page.length) ?_ _ ?_ h rfl
        · rw [Nat.add_mul, Nat.one_mul]
          omega
        · have happend : valuesIn field (hits.take (next * size) ++ page) =
              valuesIn field (hits.take (next * size)) ++ valuesIn field page :=
            List.flatMap_append
          rw [htake, happend]
          exact hpageGathered
    · next hge =>
      have hall : hits.take seen = hits := List.take_of_length_le (Nat.le_of_not_lt hge)
      rw [hall] at hcollected
      obtain ⟨rfl, -⟩ := Prod.mk.inj (Except.ok.inj h)
      exact ⟨collected, rfl, hcollected⟩

namespace Cluster

variable (cluster : Cluster)

/-- The documents of an index. -/
def documentsOf (index : String) : List Json :=
  (Keyed.find? index cluster.documents).getD []

/-- **Scanned values**: a value matches one of the values of a scan if and only if it matches a value
of the field in a document that satisfies the query of the scan. -/
theorem run_any_hasTerm {earlier : List ScanRequest} {request : ScanRequest} {values : List Json}
    {n : Nat} (hfilter : request.postFilter = none)
    (hrun : (cluster.executor.run earlier request).outcome = .ok (values, n))
    (hobjects : ∀ document ∈ cluster.documentsOf request.index,
      ∀ value ∈ Document.values document request.field, value.isObject = false) (w : Json) :
    (values.any fun value => w.hasTerm value) =
      (cluster.documentsOf request.index).any fun document =>
        request.query.holds document &&
          (Document.values document request.field).any fun value => w.hasTerm value := by
  unfold Executor.run executor openScan hits search at hrun
  unfold documentsOf at hobjects ⊢
  -- only an existing index is opened at all
  cases hfind : Keyed.find? request.index cluster.documents with
  | none =>
    rw [hfind] at hrun
    exact absurd hrun (by simp [bind, Except.bind])
  | some documents =>
    rw [hfind] at hobjects
    simp only [hfind, hfilter, bind, Except.bind, pure, Except.pure, Option.getD_some] at hrun ⊢
    generalize hhits : (documents.filter fun document => request.query.holds document) = hits at hrun
    unfold OpenScan.collect at hrun
    simp only at hrun
    split at hrun
    · exact absurd hrun (by simp)
    · obtain ⟨all, rfl, hall⟩ := gathers_readFrom request.index request.field _ hits
        (Nat.lt_of_lt_of_le Nat.zero_lt_one (Nat.le_max_right request.batchSize 1)) rfl
        (fun _ => rfl) 0 0 (by simp) [] (by simpa [valuesIn] using Gathers.nil) hrun
      have hmem : ∀ value ∈ valuesIn request.field hits, ∃ document ∈ documents,
          value ∈ Document.values document request.field := by
        intro value hvalue
        obtain ⟨document, hdocument, hvalue⟩ := List.mem_flatMap.mp hvalue
        rw [← hhits] at hdocument
        exact ⟨document, (List.mem_filter.mp hdocument).1, hvalue⟩
      rw [hall.any_hasTerm]
      · rw [valuesIn, List.any_flatMap, ← hhits, List.any_filter]
      · intro value hvalue
        obtain ⟨document, -, hvalue⟩ := hmem value hvalue
        exact Document.hasKey_of_mem_values hvalue
      · intro value hvalue
        obtain ⟨document, hdocument, hvalue⟩ := hmem value hvalue
        exact hobjects document hdocument value hvalue

/-- **Joined by a scan**: one of some values has a scanned value as a term if and only if it has a value of the
field in a document that satisfies the query of the scan. -/
theorem run_any_joined {earlier : List ScanRequest} {request : ScanRequest} {values : List Json}
    {n : Nat} (hfilter : request.postFilter = none)
    (hrun : (cluster.executor.run earlier request).outcome = .ok (values, n))
    (hobjects : ∀ document ∈ cluster.documentsOf request.index,
      ∀ value ∈ Document.values document request.field, value.isObject = false) (found : List Json) :
    (values.any fun value => found.any (·.hasTerm value)) =
      (cluster.documentsOf request.index).any fun document =>
        request.query.holds document &&
          (Document.values document request.field).any fun value => found.any (·.hasTerm value) := by
  have hterm : ∀ w : Json, (∃ value ∈ values, w.hasTerm value = true) ↔
      ∃ document ∈ cluster.documentsOf request.index, request.query.holds document = true ∧
        ∃ value ∈ Document.values document request.field, w.hasTerm value = true := by
    intro w
    have hany := cluster.run_any_hasTerm hfilter hrun hobjects w
    rw [Bool.eq_iff_iff] at hany
    simpa only [List.any_eq_true, Bool.and_eq_true] using hany
  rw [Bool.eq_iff_iff]
  simp only [List.any_eq_true, Bool.and_eq_true]
  constructor
  · rintro ⟨value, hvalue, w, hw, hmatch⟩
    obtain ⟨document, hdocument, hholds, value', hvalue', hmatch'⟩ :=
      (hterm w).mp ⟨value, hvalue, hmatch⟩
    exact ⟨document, hdocument, hholds, value', hvalue', w, hw, hmatch'⟩
  · rintro ⟨document, hdocument, hholds, value, hvalue, w, hw, hmatch⟩
    obtain ⟨value', hvalue', hmatch'⟩ :=
      (hterm w).mpr ⟨document, hdocument, hholds, value, hvalue, hmatch⟩
    exact ⟨value', hvalue', w, hw, hmatch'⟩

end Cluster

end LinkedSearch
