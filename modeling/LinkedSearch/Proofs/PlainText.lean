import LinkedSearch.Fragment.Matching

/-! # Plain texts

A text is plain if all of its characters are ASCII and none is a line feed. Case is simple for such texts: lower case
goes character by character, and two characters differ in case only if they have the same lower case. A value is plain
if all texts in it are, the names of members included; the text under which it is indexed is plain then, however it
is printed.

* `Text.IsPlain`: plain texts.
* `Text.lower_of_ascii`, `Text.contains_single_folded`: case.
* `Json.isPlain`, `Json.isPlain_scalarText`: plain values and their texts.
* `Document.isPlain_of_mem_values`: the values of a field of a plain document.
* `Json.anyTerm_congr`: conditions on the terms of a plain value. -/

namespace LinkedSearch

open Number (Decimal Finite)

namespace Text

variable {text text' : List Char} {c d : Char}

/-! ## Characters -/

/-- What can be checked for all ASCII characters one by one. -/
theorem ascii_forall {P : Char → Prop} (h : ∀ n < 128, P (Char.ofNat n)) : ∀ c : Char, c.toNat < 128 → P c := by
  intro c hc
  have hchar := h c.toNat hc
  rwa [Char.ofNat_toNat] at hchar

/-- **Plain texts**: ASCII without line feeds. -/
def IsPlain (text : List Char) : Prop := ∀ c ∈ text, c.toNat < 128 ∧ c ≠ '\n'

instance (text : List Char) : Decidable (IsPlain text) :=
  List.decidableBAll (fun c : Char => c.toNat < 128 ∧ c ≠ '\n') text

@[simp] theorem isPlain_nil : IsPlain [] := nofun

@[simp] theorem isPlain_cons : IsPlain (c :: text) ↔ (c.toNat < 128 ∧ c ≠ '\n') ∧ IsPlain text :=
  List.forall_mem_cons

@[simp] theorem isPlain_append : IsPlain (text ++ text') ↔ IsPlain text ∧ IsPlain text' :=
  List.forall_mem_append

/-- A text with no other characters than a plain one. -/
theorem IsPlain.subset (h : IsPlain text) (hsubset : text' ⊆ text) : IsPlain text' :=
  fun c hc => h c (hsubset hc)

theorem isPlain_of_isDigit (h : ∀ c ∈ text, c.isDigit = true) : IsPlain text := by
  intro c hc
  have hdigit := h c hc
  have hupper : c.toNat ≤ 57 := by
    simp only [Char.isDigit, Bool.and_eq_true, decide_eq_true_eq] at hdigit
    exact hdigit.2
  constructor
  · omega
  · rintro rfl
    exact absurd hdigit (by decide)

theorem isPlain_toDigits (n : Nat) : IsPlain (Nat.toDigits 10 n) :=
  isPlain_of_isDigit fun _ hc => Nat.isDigit_of_mem_toDigits (by decide) (by decide) hc

/-! ## Case -/

/-- Lower case of an ASCII character is an ASCII character in lower case. -/
theorem toLower_spec : ∀ c : Char, c.toNat < 128 →
    c.toLower.toNat < 128 ∧ c.toLower.toLower = c.toLower ∧ (c ≠ '\n' → c.toLower ≠ '\n') :=
  ascii_forall (by decide +kernel)

/-- **Lower case of ASCII texts** goes character by character: neither of the two exceptions is among them. -/
theorem lower_of_ascii (h : ∀ c ∈ text, c.toNat < 128) : lower text = text.map Char.toLower := by
  suffices hafter : ∀ before, lowerAfter before text = text.map Char.toLower from hafter []
  induction text with
  | nil => exact fun _ => rfl
  | cons c rest ih =>
    intro before
    have hc : c.toNat < 128 := h c List.mem_cons_self
    have hsigma : c ≠ 'Σ' := by
      rintro rfl
      exact absurd hc (by decide)
    have hdotted : c ≠ 'İ' := by
      rintro rfl
      exact absurd hc (by decide)
    rw [lowerAfter, ih (fun d hd => h d (List.mem_cons_of_mem c hd))]
    simp [hsigma, hdotted, lowerChar, hc]

theorem IsPlain.lower (h : IsPlain text) : lower text = text.map Char.toLower :=
  lower_of_ascii fun c hc => (h c hc).1

theorem IsPlain.map_toLower (h : IsPlain text) : IsPlain (text.map Char.toLower) := by
  intro d hd
  obtain ⟨c, hc, rfl⟩ := List.mem_map.mp hd
  obtain ⟨hascii, -, hbreak⟩ := toLower_spec c (h c hc).1
  exact ⟨hascii, hbreak (h c hc).2⟩

/-- An ASCII character is among those that differ in case only from its lower case. -/
theorem mem_alike_toLower : ∀ c : Char, c.toNat < 128 → c ∈ alike c.toLower :=
  ascii_forall (by decide +kernel)

/-- Characters that differ in case only have one folded form. -/
theorem fold_of_mem_alike (h : d ∈ alike c) : fold d = fold c := by
  unfold alike at h
  rcases List.mem_cons.mp h with rfl | h
  · rfl
  · exact of_decide_eq_true (List.mem_filter.mp h).2

/-- **A literal that ignores case** matches an ASCII character in lower case exactly if that is its own lower case. -/
theorem contains_single_folded (hc : c.toNat < 128) (hd : d.toNat < 128) (hlower : d.toLower = d) :
    (CharClass.single c true).contains d = (c.toLower == d) := by
  have hsame : ∀ e : Char, (c.toNat ≤ e.toNat && e.toNat ≤ c.toNat) = true ↔ e = c := by
    intro e
    rw [Bool.and_eq_true, decide_eq_true_iff, decide_eq_true_iff, ← Char.toNat_inj]
    omega
  have hcontains : (CharClass.single c true).contains d = true ↔ c ∈ alike d := by
    simp only [CharClass.single, CharClass.contains, CharClass.holdsUpToCase, if_true, List.any_eq_true, hsame]
    constructor
    · rintro ⟨e, he, rfl⟩
      exact he
    · intro h
      exact ⟨c, h, rfl⟩
  rw [Bool.eq_iff_iff, hcontains, beq_iff_eq]
  constructor
  · intro h
    have hfold := fold_of_mem_alike h
    rw [fold, fold, if_pos hc, if_pos hd, hlower] at hfold
    exact hfold
  · rintro rfl
    exact mem_alike_toLower c hc

/-! ## Runs -/

/-- A run has no other characters than those read before it and those of the text. -/
theorem mem_of_mem_runsAfter {run current : List Char} (h : run ∈ runsAfter current text) (hc : c ∈ run) :
    c ∈ current ∨ c ∈ text := by
  induction text generalizing current with
  | nil =>
    rw [runsAfter] at h
    split at h
    · exact absurd h List.not_mem_nil
    · rw [List.mem_singleton.mp h] at hc
      exact .inl (List.mem_reverse.mp hc)
  | cons d rest ih =>
    have hnext : c ∈ ([] : List Char) ∨ c ∈ rest → c ∈ current ∨ c ∈ d :: rest := by
      rintro (hnone | hrest)
      · exact absurd hnone List.not_mem_nil
      · exact .inr (List.mem_cons_of_mem d hrest)
    rw [runsAfter] at h
    split at h
    · rcases ih h with hcurrent | hrest
      · rcases List.mem_cons.mp hcurrent with rfl | hcurrent
        · exact .inr List.mem_cons_self
        · exact .inl hcurrent
      · exact .inr (List.mem_cons_of_mem d hrest)
    · split at h
      · exact hnext (ih h)
      · rcases List.mem_cons.mp h with rfl | h
        · exact .inl (List.mem_reverse.mp hc)
        · exact hnext (ih h)

/-- **Runs** have no other characters than the text. -/
theorem subset_of_mem_runs {run : List Char} (h : run ∈ runs text) : run ⊆ text := by
  intro c hc
  rcases mem_of_mem_runsAfter h hc with hnone | htext
  · exact absurd hnone List.not_mem_nil
  · exact htext

end Text

/-! ## Printing -/

open Text (IsPlain ascii_forall isPlain_toDigits isPlain_append isPlain_cons isPlain_nil)

theorem isPlain_toString_nat (n : Nat) : IsPlain (toString n).toList := by
  rw [Nat.toString_eq_ofList_toDigits, String.toList_ofList]
  exact isPlain_toDigits n

theorem isPlain_toString_int (n : Int) : IsPlain (toString n).toList := by
  cases n with
  | ofNat n => exact isPlain_toString_nat n
  | negSucc n =>
    show IsPlain ("-" ++ toString (n + 1)).toList
    rw [String.toList_append, isPlain_append]
    exact ⟨by decide, isPlain_toString_nat _⟩

namespace Number

/-- Both sides of the point have digits only. -/
theorem Decimal.isPlain_positional (d : Decimal) : IsPlain d.positional.1 ∧ IsPlain d.positional.2 := by
  have hzeros : ∀ n, IsPlain (List.replicate n '0') := by
    intro n c hc
    rw [List.eq_of_mem_replicate hc]
    decide
  have hdigits : IsPlain d.digits := isPlain_toDigits _
  unfold positional
  dsimp only
  split
  · exact ⟨isPlain_append.mpr ⟨hdigits, hzeros _⟩, isPlain_nil⟩
  · split
    · have hzero : IsPlain ['0'] := by decide
      exact ⟨hzero, isPlain_append.mpr ⟨hzeros _, hdigits⟩⟩
    · rw [List.splitAt_eq]
      exact ⟨hdigits.subset (List.take_subset _ _), hdigits.subset (List.drop_subset _ _)⟩

theorem Decimal.isPlain_jsonText (d : Decimal) : IsPlain d.jsonText.toList := by
  obtain ⟨hwhole, hfraction⟩ := d.isPlain_positional
  have hdigits : IsPlain d.digits := isPlain_toDigits _
  unfold jsonText
  split
  · unfold pointText
    rw [String.toList_ofList, isPlain_append, isPlain_cons]
    refine ⟨hwhole, by decide, ?_⟩
    split
    · decide
    · exact hfraction
  · have hsign : IsPlain (if d.leading < 0 then "e-" else "e+").toList := by
      split <;> decide
    unfold exponentText
    dsimp only
    rw [String.toList_append, String.toList_append, String.toList_ofList, isPlain_append, isPlain_append]
    refine ⟨⟨?_, hsign⟩, isPlain_toString_nat _⟩
    split
    · next first second rest heq =>
      rw [heq, isPlain_cons] at hdigits
      exact isPlain_cons.mpr ⟨hdigits.1, isPlain_cons.mpr ⟨by decide, hdigits.2⟩⟩
    · exact hdigits

theorem Finite.isPlain_jsonText (x : Finite) : IsPlain x.jsonText.toList := by
  have hsign : IsPlain (signText x.isNegative).toList := by
    cases x.isNegative <;> decide
  unfold jsonText
  dsimp only
  rw [String.toList_append, isPlain_append]
  refine ⟨hsign, ?_⟩
  split
  · decide
  · exact Decimal.isPlain_jsonText _

end Number

namespace Json

/-- A quoted text shows no other characters than ASCII ones, and no line feed even if there is one in it. -/
theorem isPlain_quote {text : String} (h : IsPlain text.toList) : IsPlain (quote text).toList := by
  have hchar : ∀ c : Char, c.toNat < 128 → IsPlain (escapeChar c) := ascii_forall (by decide +kernel)
  have hbody : IsPlain (text.toList.flatMap escapeChar) := by
    intro d hd
    obtain ⟨c, hc, hd⟩ := List.mem_flatMap.mp hd
    exact hchar c (h c hc).1 d hd
  rw [quote, String.toList_ofList, List.cons_append, isPlain_cons, isPlain_append]
  exact ⟨by decide, hbody, by decide⟩

mutual

/-- **Plain values**: all texts in them are plain, those of the names of members too. -/
def isPlain : Json → Bool
  | .str text => decide (IsPlain text.toList)
  | .arr items => isPlainItems items
  | .obj members => isPlainMembers members
  | _ => true

/-- Whether all items are plain. -/
def isPlainItems : List Json → Bool
  | [] => true
  | item :: rest => item.isPlain && isPlainItems rest

/-- Whether all members and their names are plain. -/
def isPlainMembers : List (String × Json) → Bool
  | [] => true
  | (key, value) :: rest => decide (IsPlain key.toList) && value.isPlain && isPlainMembers rest

end

theorem isPlainItems_cons {item : Json} {rest : List Json} :
    isPlainItems (item :: rest) = true ↔ item.isPlain = true ∧ isPlainItems rest = true := by
  rw [isPlainItems, Bool.and_eq_true]

theorem isPlainMembers_cons {key : String} {value : Json} {rest : List (String × Json)} :
    isPlainMembers ((key, value) :: rest) = true ↔
      IsPlain key.toList ∧ value.isPlain = true ∧ isPlainMembers rest = true := by
  rw [isPlainMembers, Bool.and_eq_true, Bool.and_eq_true, decide_eq_true_iff, and_assoc]

theorem isPlain_atomText {value : Json} (h : value.isPlain = true) : IsPlain value.atomText.toList := by
  cases value with
  | null => decide
  | bool value => cases value <;> decide
  | int n => exact isPlain_toString_int n
  | float x => exact Number.Finite.isPlain_jsonText x
  | str text =>
    rw [isPlain, decide_eq_true_iff] at h
    exact isPlain_quote h
  | arr items =>
    show IsPlain "[]".toList
    decide
  | obj members =>
    show IsPlain "\x7b\x7d".toList
    decide

mutual

/-- **The printed text** of a plain value is plain. -/
theorem isPlain_compact : ∀ value : Json, value.isPlain = true → IsPlain value.compact.toList
  | .arr items, h => by
    have hitems := isPlain_compactItems items (by rwa [isPlain] at h)
    rw [compact, String.toList_append, String.toList_append, isPlain_append, isPlain_append]
    exact ⟨⟨by decide, hitems⟩, by decide⟩
  | .obj members, h => by
    have hmembers := isPlain_compactMembers members (by rwa [isPlain] at h)
    rw [compact, String.toList_append, String.toList_append, isPlain_append, isPlain_append]
    exact ⟨⟨by decide, hmembers⟩, by decide⟩
  | .null, h | .bool _, h | .int _, h | .float _, h | .str _, h => by
    rw [compact]
    · exact isPlain_atomText h
    all_goals simp

/-- So is that of the items of a list. -/
theorem isPlain_compactItems : ∀ items : List Json, isPlainItems items = true → IsPlain (compactItems items).toList
  | [], _ => by
    rw [compactItems]
    decide
  | [item], h => by
    rw [compactItems]
    exact isPlain_compact item (isPlainItems_cons.mp h).1
  | item :: second :: rest, h => by
    obtain ⟨hitem, hrest⟩ := isPlainItems_cons.mp h
    have hlater := isPlain_compactItems (second :: rest) hrest
    rw [compactItems, String.toList_append, String.toList_append, isPlain_append, isPlain_append]
    · exact ⟨⟨isPlain_compact item hitem, by decide⟩, hlater⟩
    · simp

/-- And that of the members of an object. -/
theorem isPlain_compactMembers : ∀ members : List (String × Json), isPlainMembers members = true →
    IsPlain (compactMembers members).toList
  | [], _ => by
    rw [compactMembers]
    decide
  | [(key, value)], h => by
    obtain ⟨hkey, hvalue, -⟩ := isPlainMembers_cons.mp h
    rw [compactMembers, String.toList_append, String.toList_append, isPlain_append, isPlain_append]
    exact ⟨⟨isPlain_quote hkey, by decide⟩, isPlain_compact value hvalue⟩
  | (key, value) :: second :: rest, h => by
    obtain ⟨hkey, hvalue, hrest⟩ := isPlainMembers_cons.mp h
    have hlater := isPlain_compactMembers (second :: rest) hrest
    rw [compactMembers]
    · simp only [String.toList_append, isPlain_append]
      exact ⟨⟨⟨⟨isPlain_quote hkey, by decide⟩, isPlain_compact value hvalue⟩, by decide⟩, hlater⟩
    · simp

end

/-- **The text** under which a plain value is indexed is plain. -/
theorem isPlain_scalarText {value : Json} (h : value.isPlain = true) : IsPlain value.scalarText.toList := by
  cases value with
  | str text => exact of_decide_eq_true (by rwa [isPlain] at h)
  | _ => exact isPlain_compact _ h

/-! ## Values of a field -/

mutual

/-- The scalars of a plain value are plain. -/
theorem isPlain_of_mem_scalars : ∀ (value : Json) {v : Json}, value.isPlain = true → v ∈ value.scalars →
    v.isPlain = true
  | .null, v, _, hv => absurd hv (by simp [scalars])
  | .arr items, v, h, hv => by
    rw [isPlain] at h
    rw [scalars] at hv
    exact isPlain_of_mem_scalarsOfItems items h hv
  | .bool _, v, h, hv | .int _, v, h, hv | .float _, v, h, hv | .str _, v, h, hv | .obj _, v, h, hv => by
    rw [scalars] at hv
    · rw [List.mem_singleton.mp hv]
      exact h
    all_goals simp

theorem isPlain_of_mem_scalarsOfItems : ∀ (items : List Json) {v : Json}, isPlainItems items = true →
    v ∈ scalarsOfItems items → v.isPlain = true
  | [], v, _, hv => absurd hv (by simp [scalarsOfItems])
  | item :: rest, v, h, hv => by
    obtain ⟨hitem, hrest⟩ := isPlainItems_cons.mp h
    rw [scalarsOfItems] at hv
    rcases List.mem_append.mp hv with hv | hv
    · exact isPlain_of_mem_scalars item hitem hv
    · exact isPlain_of_mem_scalarsOfItems rest hrest hv

end

mutual

/-- What is found along a path into a plain value is plain. -/
theorem isPlain_of_mem_valuesAlong : ∀ (value : Json) (path : List String) {v : Json}, value.isPlain = true →
    v ∈ value.valuesAlong path → v.isPlain = true
  | .arr items, path, v, h, hv => by
    rw [isPlain] at h
    rw [valuesAlong] at hv
    exact isPlain_of_mem_valuesOfItems items path h hv
  | .obj members, [], v, _, hv => absurd hv (by simp [valuesAlong])
  | .obj members, head :: rest, v, h, hv => by
    rw [isPlain] at h
    rw [valuesAlong] at hv
    exact isPlain_of_mem_valuesOfMember members head rest h hv
  | .null, path, v, _, hv | .bool _, path, v, _, hv | .int _, path, v, _, hv | .float _, path, v, _, hv
  | .str _, path, v, _, hv => absurd hv (by simp [valuesAlong])

theorem isPlain_of_mem_valuesOfItems : ∀ (items : List Json) (path : List String) {v : Json},
    isPlainItems items = true → v ∈ valuesOfItems items path → v.isPlain = true
  | [], path, v, _, hv => absurd hv (by simp [valuesOfItems])
  | item :: rest, path, v, h, hv => by
    obtain ⟨hitem, hrest⟩ := isPlainItems_cons.mp h
    rw [valuesOfItems] at hv
    rcases List.mem_append.mp hv with hv | hv
    · exact isPlain_of_mem_valuesAlong item path hitem hv
    · exact isPlain_of_mem_valuesOfItems rest path hrest hv

theorem isPlain_of_mem_valuesOfMember : ∀ (members : List (String × Json)) (head : String) (rest : List String)
    {v : Json}, isPlainMembers members = true → v ∈ valuesOfMember members head rest → v.isPlain = true
  | [], head, rest, v, _, hv => absurd hv (by simp [valuesOfMember])
  | (key, value) :: others, head, rest, v, h, hv => by
    obtain ⟨-, hvalue, hothers⟩ := isPlainMembers_cons.mp h
    rw [valuesOfMember.eq_def] at hv
    simp only at hv
    split at hv
    · split at hv
      · exact isPlain_of_mem_scalars value hvalue hv
      · exact isPlain_of_mem_valuesAlong value _ hvalue hv
    · exact isPlain_of_mem_valuesOfMember others head rest hothers hv

end

/-- The member of a plain object with some name is plain. -/
theorem isPlain_of_get? {document value : Json} {field : String} (h : document.isPlain = true)
    (hvalue : document.get? field = some value) : value.isPlain = true := by
  cases document with
  | obj members =>
    rw [get?_obj] at hvalue
    rw [isPlain] at h
    induction members with
    | nil => exact nomatch hvalue
    | cons member rest ih =>
      obtain ⟨key, first⟩ := member
      obtain ⟨-, hfirst, hrest⟩ := isPlainMembers_cons.mp h
      rw [Keyed.find?] at hvalue
      split at hvalue
      · obtain rfl := Option.some.inj hvalue
        exact hfirst
      · exact ih hrest hvalue
  | _ => exact nomatch hvalue

end Json

/-- **Values of a field** of a plain document are plain. -/
theorem Document.isPlain_of_mem_values {document v : Json} {field : String} (h : document.isPlain = true)
    (hv : v ∈ Document.values document field) : v.isPlain = true := by
  unfold values at hv
  split at hv
  · next value hvalue => exact Json.isPlain_of_mem_scalars value (Json.isPlain_of_get? h hvalue) hv
  · exact Json.isPlain_of_mem_valuesAlong document _ h hv

/-! ## Terms -/

/-- Conditions that agree on the members of a list. -/
theorem any_congr_of_mem {α : Type} {items : List α} {condition condition' : α → Bool}
    (h : ∀ item ∈ items, condition item = condition' item) : items.any condition = items.any condition' := by
  rw [Bool.eq_iff_iff, List.any_eq_true, List.any_eq_true]
  exact exists_congr fun item => and_congr_right fun hitem => by rw [h item hitem]

/-- **Conditions on the terms of a plain value** are the same if they are the same for plain texts in lower case. -/
theorem Json.anyTerm_congr {condition condition' : List Char → Bool} {value : Json} (hvalue : value.isPlain = true)
    (h : ∀ text, IsPlain text → condition (text.map Char.toLower) = condition' (text.map Char.toLower)) :
    value.anyTerm condition = value.anyTerm condition' := by
  have htext : IsPlain value.scalarText.toList := isPlain_scalarText hvalue
  have hlower : IsPlain (Text.lower value.scalarText.toList) := by
    rw [htext.lower]
    exact htext.map_toLower
  have hruns : ∀ run ∈ Text.runs (Text.lower value.scalarText.toList),
      condition (Text.lower run) = condition' (Text.lower run) := by
    intro run hrun
    have hrun : IsPlain run := hlower.subset (Text.subset_of_mem_runs hrun)
    rw [hrun.lower]
    exact h run hrun
  have hwhole : condition (Text.lower value.scalarText.toList) = condition' (Text.lower value.scalarText.toList) := by
    rw [htext.lower]
    exact h _ htext
  unfold anyTerm
  dsimp only
  rw [hwhole, any_congr_of_mem hruns]

end LinkedSearch
