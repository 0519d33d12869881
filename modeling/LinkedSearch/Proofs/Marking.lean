import Mathlib.Data.List.Infix
import LinkedSearch.Query.PhraseToken
import LinkedSearch.Text.Casing

/-! # What unmarking undoes

Marking puts a word in the place of every special character, and unmarking looks for these words from the left to the
right, in any case of their letters. It may also meet a marker that the text itself has, and, since the letters that
all markers end in are those that all markers start with, a marker that starts in the text and ends in the first
letters of an inserted one.

* `Query.Phrase.HasMarker`, `Query.Phrase.CutsMarker`: the two sorts of texts that are read wrongly.
* `Query.Phrase.prefix_lowerAscii_mark`: what a marked text starts with.
* `Query.Phrase.meetsMarker_iff`: where unmarking meets a marker that marking did not put there.
* `Query.Phrase.marking_undone_iff`: when marking is undone. -/

namespace LinkedSearch.Query.Phrase

open Text (lowerAscii)

variable {c special : Char} {marker text rest : List Char}

/-! ## Special characters -/

theorem toLower_toLower (c : Char) : c.toLower.toLower = c.toLower := by
  by_cases h : c.val ≥ 'A'.val ∧ c.val ≤ 'Z'.val
  · have hmoved : c.toLower.val = c.val + ('a'.val - 'A'.val) := congrArg Char.val (dif_pos h)
    have hfirst : 65 ≤ c.val.toNat := UInt32.le_iff_toNat_le.mp h.1
    have hlast : c.val.toNat ≤ 90 := UInt32.le_iff_toNat_le.mp h.2
    have hcode : c.toLower.val.toNat = c.val.toNat + 32 := by
      rw [hmoved, UInt32.toNat_add]
      exact Nat.mod_eq_of_lt (show c.val.toNat + 32 < 4294967296 by omega)
    -- the letter has left the range
    have hlower : ¬(c.toLower.val ≥ 'A'.val ∧ c.toLower.val ≤ 'Z'.val) := by
      intro hupper
      have hle : c.toLower.val.toNat ≤ 90 := UInt32.le_iff_toNat_le.mp hupper.2
      omega
    exact dif_neg hlower
  · have hsame : c.toLower = c := dif_neg h
    rw [hsame, hsame]

@[simp] theorem lowerAscii_lowerAscii (text : List Char) : lowerAscii (lowerAscii text) = lowerAscii text := by
  rw [lowerAscii, lowerAscii, List.map_map]
  exact List.map_congr_left fun c _ => toLower_toLower c

/-- Whether a character means something else than itself in a query text. -/
def isSpecial (c : Char) : Bool := (markers.lookup c).isSome

theorem isSpecial_iff : isSpecial c = true ↔ c = '\\' ∨ c = '*' ∨ c = '?' ∨ c = '~' := by
  rw [isSpecial, List.lookup_isSome_iff]
  simp [markers]

/-- Special characters have no case. -/
theorem toLower_of_isSpecial (h : isSpecial c = true) : c.toLower = c := by
  rcases isSpecial_iff.mp h with rfl | rfl | rfl | rfl <;> rfl

theorem mem_markers_of_lookup (h : markers.lookup c = some marker) : (c, marker) ∈ markers := by
  obtain ⟨before, after, heq, -⟩ := List.lookup_eq_some_iff.mp h
  rw [heq]
  exact List.mem_append_right before List.mem_cons_self

/-- What markers stand for is special. -/
theorem isSpecial_of_mem_markers (h : (special, marker) ∈ markers) : isSpecial special = true := by
  rw [isSpecial, List.lookup_isSome_iff]
  exact ⟨(special, marker), h, beq_self_eq_true special⟩

/-! ## Markers -/

/-- All markers start alike. -/
theorem prefix_of_mem_markers (h : (special, marker) ∈ markers) : "ZDB_".toList <+: marker := by
  simp only [markers, List.mem_cons, List.not_mem_nil, or_false, Prod.mk.injEq] at h
  rcases h with ⟨-, rfl⟩ | ⟨-, rfl⟩ | ⟨-, rfl⟩ | ⟨-, rfl⟩ <;> decide

/-- Markers are longer than the letters they start with and those they end in. -/
theorem length_of_mem_markers (h : (special, marker) ∈ markers) : 7 < (lowerAscii marker).length := by
  have hlong : ∀ entry ∈ markers, 7 < (lowerAscii entry.2).length := by decide
  exact hlong _ h

/-- No letter of a marker is special. -/
theorem not_isSpecial_of_mem (h : (special, marker) ∈ markers) (hc : c ∈ lowerAscii marker) :
    ¬isSpecial c = true := by
  have hplain : ∀ entry ∈ markers, (lowerAscii entry.2).all (!isSpecial ·) = true := by decide
  simpa using List.all_eq_true.mp (hplain _ h) c hc

/-- No letter of a marker is special, whatever its case. -/
theorem not_isSpecial_of_toLower_mem (h : (special, marker) ∈ markers) (hc : c.toLower ∈ lowerAscii marker) :
    ¬isSpecial c = true := by
  intro hspecial
  rw [toLower_of_isSpecial hspecial] at hc
  exact not_isSpecial_of_mem h hc hspecial

/-- **Overlaps**: behind its first letter, a marker starts like a marker only at its last three letters. -/
theorem overlap_of_mem_markers (h : (special, marker) ∈ markers) {begun ending : List Char}
    (hsplit : lowerAscii marker = begun ++ ending) (hbegun : begun ≠ []) (hending : ending.head? = some 'z') :
    ending = "zdb".toList := by
  have hends : ∀ entry ∈ markers, ∀ ending ∈ (lowerAscii entry.2).tail.tails,
      ending.head? = some 'z' → ending = "zdb".toList := by decide
  refine hends _ h ending ((List.mem_tails ..).mpr ?_) hending
  obtain ⟨b, begun, rfl⟩ := List.exists_cons_of_ne_nil hbegun
  rw [hsplit]
  exact List.suffix_append begun ending

/-- The start of a marker is found in any case of its letters. -/
theorem startsWithMarker_iff : startsWithMarker marker text = true ↔ lowerAscii marker <+: lowerAscii text := by
  rw [startsWithMarker, beq_iff_eq, List.map_take, List.prefix_iff_eq_take, lowerAscii, lowerAscii, List.length_map,
    eq_comm]

theorem markerAt?_isSome_iff :
    (markerAt? text).isSome = true ↔ ∃ entry ∈ markers, lowerAscii entry.2 <+: lowerAscii text := by
  rw [markerAt?, Option.isSome_map, List.find?_isSome]
  exact exists_congr fun entry => and_congr_right fun _ => startsWithMarker_iff

/-- A marker stands for a special character. -/
theorem isSpecial_of_markerAt? {length : Nat} (h : markerAt? text = some (special, length)) :
    isSpecial special = true := by
  rw [markerAt?, Option.map_eq_some_iff] at h
  obtain ⟨⟨found, marker⟩, hfind, heq⟩ := h
  obtain ⟨rfl, -⟩ := Prod.mk.inj heq
  exact isSpecial_of_mem_markers (List.mem_of_find?_eq_some hfind)

/-! ## Marking -/

@[simp] theorem mark_nil : mark [] = [] := rfl

/-- A special character is marked. -/
theorem mark_special (h : isSpecial c = true) (rest : List Char) :
    ∃ marker, (c, marker) ∈ markers ∧ mark (c :: rest) = marker ++ mark rest := by
  obtain ⟨marker, hlookup⟩ := Option.isSome_iff_exists.mp h
  refine ⟨marker, mem_markers_of_lookup hlookup, ?_⟩
  rw [mark, List.flatMap_cons, markChar, hlookup]
  rfl

/-- What is inserted starts with the three letters that markers end in. -/
theorem prefix_mark_special (h : isSpecial c = true) (rest : List Char) :
    "zdb".toList <+: lowerAscii (mark (c :: rest)) := by
  obtain ⟨marker, hmem, hmark⟩ := mark_special h rest
  obtain ⟨later, rfl⟩ := prefix_of_mem_markers hmem
  rw [hmark]
  exact ⟨lowerAscii ('_' :: later ++ mark rest), rfl⟩

/-- Any other character stays. -/
theorem mark_plain (h : ¬isSpecial c = true) (rest : List Char) : mark (c :: rest) = c :: mark rest := by
  rw [isSpecial, Option.not_isSome_iff_eq_none] at h
  rw [mark, List.flatMap_cons, markChar, h]
  rfl

/-- A piece without special characters stays. -/
theorem mark_append_plain {piece : List Char} (h : ∀ c ∈ piece, ¬isSpecial c = true) (rest : List Char) :
    mark (piece ++ rest) = piece ++ mark rest := by
  induction piece with
  | nil => rfl
  | cons c piece ih =>
    rw [List.cons_append, mark_plain (h c List.mem_cons_self), ih fun d hd => h d (List.mem_cons_of_mem c hd)]
    rfl

/-- **The start of a marked text** is the start of the text, or it runs from the text into the first marker that was
inserted, in lower case. -/
theorem prefix_lowerAscii_mark {word : List Char} (h : word <+: lowerAscii (mark text)) :
    word <+: lowerAscii text ∨
      ∃ begun special after ending, text = begun ++ special :: after ∧ isSpecial special = true ∧
        word = lowerAscii begun ++ ending ∧ ending ≠ [] ∧ ending <+: lowerAscii (mark (special :: after)) := by
  induction text generalizing word with
  | nil => exact .inl h
  | cons c rest ih =>
    cases word with
    | nil => exact .inl List.nil_prefix
    | cons w word =>
      -- at the first special character the word leaves the text, and what is left of it is inserted
      by_cases hc : isSpecial c = true
      · exact .inr ⟨[], c, rest, w :: word, rfl, hc, rfl, List.cons_ne_nil w word, h⟩
      · rw [mark_plain hc, lowerAscii, List.map_cons] at h
        obtain ⟨hw, hlater⟩ := List.cons_prefix_cons.mp h
        rcases ih hlater with hthere | ⟨begun, special, after, ending, rfl, hspecial, rfl, hne, hending⟩
        · exact .inl (List.cons_prefix_cons.mpr ⟨hw, hthere⟩)
        · refine .inr ⟨c :: begun, special, after, ending, rfl, hspecial, ?_, hne, hending⟩
          rw [hw]
          rfl

/-! ## Unmarking -/

/-- Skipping a marker. -/
theorem unmarkAfter_eq (skip : Nat) (text : List Char) : unmarkAfter skip text = unmark (text.drop skip) := by
  induction skip generalizing text with
  | zero => rfl
  | succ skip ih =>
    cases text with
    | nil => rfl
    | cons c rest => exact ih rest

@[simp] theorem unmark_nil : unmark [] = [] := rfl

/-- A marker is replaced by its character. -/
theorem unmark_append (h : (special, marker) ∈ markers) (rest : List Char) :
    unmark (marker ++ rest) = special :: unmark rest := by
  simp only [markers, List.mem_cons, List.not_mem_nil, or_false, Prod.mk.injEq] at h
  rcases h with ⟨rfl, rfl⟩ | ⟨rfl, rfl⟩ | ⟨rfl, rfl⟩ | ⟨rfl, rfl⟩ <;> rfl

/-- Any other character stays. -/
theorem unmark_cons (h : ¬(markerAt? (c :: rest)).isSome = true) : unmark (c :: rest) = c :: unmark rest := by
  rw [Option.not_isSome_iff_eq_none] at h
  rw [unmark, unmarkAfter, h]
  rfl

/-- Where a marker starts, another character is read, and not only in another case. -/
theorem unmark_cons_marker (h : (markerAt? (c :: rest)).isSome = true) :
    ∃ special later, unmark (c :: rest) = special :: later ∧ special.toLower ≠ c.toLower := by
  obtain ⟨⟨special, length⟩, hmarker⟩ := Option.isSome_iff_exists.mp h
  refine ⟨special, unmarkAfter (length - 1) rest, ?_, fun hsame => ?_⟩
  · rw [unmark, unmarkAfter, hmarker]
  have hspecial := isSpecial_of_markerAt? hmarker
  obtain ⟨entry, hentry, hstarts⟩ := markerAt?_isSome_iff.mp h
  obtain ⟨later, heq⟩ := prefix_of_mem_markers hentry
  rw [← heq] at hstarts
  have hz : 'z' = c.toLower := (List.cons_prefix_cons.mp hstarts).1
  rw [toLower_of_isSpecial hspecial, ← hz] at hsame
  rw [hsame] at hspecial
  exact absurd hspecial (by decide)

/-- Where a marker starts in a text does not depend on the case of its letters. -/
theorem markerAt?_lowerAscii (text : List Char) : markerAt? (lowerAscii text) = markerAt? text := by
  have hsame : ∀ marker, startsWithMarker marker (lowerAscii text) = startsWithMarker marker text := by
    intro marker
    rw [Bool.eq_iff_iff, startsWithMarker_iff, startsWithMarker_iff, lowerAscii_lowerAscii]
  rw [markerAt?, markerAt?]
  simp only [hsame]

/-- **Unmarking respects case**: it does to a text in lower case what it does to the text. -/
theorem unmark_lowerAscii (text : List Char) : unmark (lowerAscii text) = lowerAscii (unmark text) := by
  -- behind a marker the same number of characters is skipped in both texts
  suffices h : ∀ skip, unmarkAfter skip (lowerAscii text) = lowerAscii (unmarkAfter skip text) from h 0
  induction text with
  | nil => intro skip; cases skip <;> rfl
  | cons c rest ih =>
    intro skip
    cases skip with
    | succ skip => exact ih skip
    | zero =>
      have hsame : markerAt? (c.toLower :: lowerAscii rest) = markerAt? (c :: rest) := markerAt?_lowerAscii (c :: rest)
      show unmarkAfter 0 (c.toLower :: lowerAscii rest) = _
      rw [unmarkAfter, unmarkAfter, hsame]
      cases hmarker : markerAt? (c :: rest) with
      | none => exact congrArg (c.toLower :: ·) (ih 0)
      | some found =>
        obtain ⟨special, length⟩ := found
        have hspecial : special.toLower = special := toLower_of_isSpecial (isSpecial_of_markerAt? hmarker)
        show special :: unmarkAfter (length - 1) (lowerAscii rest) = special.toLower :: lowerAscii _
        rw [hspecial, ih]

/-! ## What is not undone -/

/-- **Texts with a marker**, in any case of its letters. -/
def HasMarker (text : List Char) : Prop := ∃ entry ∈ markers, lowerAscii entry.2 <:+: lowerAscii text

instance (text : List Char) : Decidable (HasMarker text) := inferInstanceAs (Decidable (∃ entry ∈ markers, _))

/-- **Texts that run into a marker**: all but the last three letters of some marker, in any case, right before a
special character. -/
def CutsMarker (text : List Char) : Prop :=
  ∃ stem special, stem ++ [special] <:+: text ∧ isSpecial special = true ∧
    ∃ entry ∈ markers, lowerAscii stem ++ "zdb".toList = lowerAscii entry.2

/-- Unmarking meets a marker where the text has a character that was not marked. -/
def MeetsMarker (text : List Char) : Prop :=
  ∃ c rest, c :: rest <:+ text ∧ ¬isSpecial c = true ∧ (markerAt? (c :: mark rest)).isSome = true

theorem meetsMarker_cons : MeetsMarker (c :: rest) ↔
    ¬isSpecial c = true ∧ (markerAt? (c :: mark rest)).isSome = true ∨ MeetsMarker rest := by
  constructor
  · rintro ⟨d, later, hsuffix, hplain, hmarker⟩
    rcases List.suffix_cons_iff.mp hsuffix with heq | hsuffix
    · obtain ⟨rfl, rfl⟩ := List.cons.inj heq
      exact .inl ⟨hplain, hmarker⟩
    · exact .inr ⟨d, later, hsuffix, hplain, hmarker⟩
  · rintro (⟨hplain, hmarker⟩ | ⟨d, later, hsuffix, hplain, hmarker⟩)
    · exact ⟨c, rest, List.suffix_rfl, hplain, hmarker⟩
    · exact ⟨d, later, hsuffix.trans (List.suffix_cons c rest), hplain, hmarker⟩

/-- **Marking is undone** where unmarking only meets what marking has put there. -/
theorem unmark_mark_of_not_meetsMarker (h : ¬MeetsMarker text) : unmark (mark text) = text := by
  induction text with
  | nil => rfl
  | cons c rest ih =>
    rw [meetsMarker_cons, not_or] at h
    by_cases hc : isSpecial c = true
    · obtain ⟨marker, hmem, hmark⟩ := mark_special hc rest
      rw [hmark, unmark_append hmem, ih h.2]
    · have hnone : ¬(markerAt? (c :: mark rest)).isSome = true := fun hsome => h.1 ⟨hc, hsome⟩
      rw [mark_plain hc, unmark_cons hnone, ih h.2]

/-- **A marker that unmarking meets is seen**: a special character is read in the place of another one, also up to
case. -/
theorem not_meetsMarker_of_lowerAscii (h : lowerAscii (unmark (mark text)) = lowerAscii text) : ¬MeetsMarker text := by
  induction text with
  | nil =>
    rintro ⟨c, rest, hsuffix, -⟩
    exact List.cons_ne_nil c rest (List.suffix_nil.mp hsuffix)
  | cons c rest ih =>
    rw [meetsMarker_cons, not_or]
    by_cases hc : isSpecial c = true
    · obtain ⟨marker, hmem, hmark⟩ := mark_special hc rest
      rw [hmark, unmark_append hmem] at h
      exact ⟨fun hplain => hplain.1 hc, ih (List.cons.inj h).2⟩
    · rw [mark_plain hc] at h
      by_cases hsome : (markerAt? (c :: mark rest)).isSome = true
      -- up to here both texts are the same, so that the first such marker is seen
      · obtain ⟨special, later, hread, hother⟩ := unmark_cons_marker hsome
        rw [hread] at h
        exact absurd (List.cons.inj h).1 hother
      · rw [unmark_cons hsome] at h
        exact ⟨fun hmarker => hsome hmarker.2, ih (List.cons.inj h).2⟩

/-- Where a piece of a text and what is inserted behind it spell a marker, unmarking meets it. -/
theorem meetsMarker_of_prefix {entry : Char × List Char} (hentry : entry ∈ markers) {piece : List Char}
    (hsuffix : piece ++ rest <:+ text) (hne : piece ≠ []) (hpiece : lowerAscii piece <+: lowerAscii entry.2)
    (hspells : lowerAscii entry.2 <+: lowerAscii (piece ++ mark rest)) : MeetsMarker text := by
  have hplain : ∀ c ∈ piece, ¬isSpecial c = true := fun c hc =>
    not_isSpecial_of_toLower_mem hentry (hpiece.subset (List.mem_map_of_mem hc))
  obtain ⟨c, later, rfl⟩ := List.exists_cons_of_ne_nil hne
  refine ⟨c, later ++ rest, hsuffix, hplain c List.mem_cons_self, markerAt?_isSome_iff.mpr ⟨entry, hentry, ?_⟩⟩
  rw [mark_append_plain fun d hd => hplain d (List.mem_cons_of_mem c hd)]
  exact hspells

theorem HasMarker.meetsMarker (h : HasMarker text) : MeetsMarker text := by
  obtain ⟨entry, hentry, hinfix⟩ := h
  obtain ⟨piece, ⟨before, after, rfl⟩, hsame⟩ := List.infix_map_iff.mp hinfix
  have hsame : lowerAscii entry.2 = lowerAscii piece := hsame
  have hlong := length_of_mem_markers hentry
  have hne : piece ≠ [] := by
    rintro rfl
    rw [hsame] at hlong
    exact absurd hlong (by decide)
  have hsplit : before ++ (piece ++ after) = before ++ piece ++ after := (List.append_assoc ..).symm
  refine meetsMarker_of_prefix hentry ⟨before, hsplit⟩ hne (hsame ▸ List.prefix_rfl) ?_
  rw [hsame]
  exact (List.prefix_append piece _).map Char.toLower

theorem CutsMarker.meetsMarker (h : CutsMarker text) : MeetsMarker text := by
  obtain ⟨stem, special, ⟨before, after, rfl⟩, hspecial, entry, hentry, hsame⟩ := h
  have hlong := length_of_mem_markers hentry
  have hne : stem ≠ [] := by
    rintro rfl
    rw [← hsame] at hlong
    exact absurd hlong (by decide)
  have hsplit : before ++ (stem ++ special :: after) = before ++ (stem ++ [special]) ++ after := by simp
  refine meetsMarker_of_prefix hentry ⟨before, hsplit⟩ hne (hsame ▸ List.prefix_append _ _) ?_
  rw [← hsame, lowerAscii, lowerAscii, List.map_append]
  exact (List.prefix_append_right_inj _).mpr (prefix_mark_special hspecial after)

/-- **The markers that unmarking meets** are those of the text and those that the text runs into. -/
theorem meetsMarker_iff : MeetsMarker text ↔ HasMarker text ∨ CutsMarker text := by
  constructor
  · rintro ⟨c, rest, hsuffix, hplain, hmarker⟩
    obtain ⟨entry, hentry, hstarts⟩ := markerAt?_isSome_iff.mp hmarker
    rw [← mark_plain hplain] at hstarts
    rcases prefix_lowerAscii_mark hstarts with
      hthere | ⟨begun, special, after, ending, htext, hspecial, hword, hne, hending⟩
    · exact .inl ⟨entry, hentry, hthere.isInfix.trans (hsuffix.map Char.toLower).isInfix⟩
    · -- the marker continues in an inserted one, so its last three letters are the first three of that
      have hbegun : lowerAscii begun ≠ [] := by
        intro hnil
        rw [List.map_eq_nil_iff.mp hnil, List.nil_append] at htext
        exact hplain ((List.cons.inj htext).1 ▸ hspecial)
      have hz : ending.head? = some 'z' := by
        obtain ⟨e, ending, rfl⟩ := List.exists_cons_of_ne_nil hne
        obtain ⟨later, heq⟩ := prefix_mark_special hspecial after
        rw [← heq] at hending
        exact congrArg some (List.cons_prefix_cons.mp hending).1
      have hinfix : begun ++ [special] <:+: text := by
        refine List.IsInfix.trans ⟨[], after, ?_⟩ hsuffix.isInfix
        rw [htext]
        simp
      refine .inr ⟨begun, special, hinfix, hspecial, entry, hentry, ?_⟩
      rw [hword, overlap_of_mem_markers hentry hword hbegun hz]
  · rintro (h | h)
    · exact h.meetsMarker
    · exact h.meetsMarker

/-- **Marking is undone** exactly for the texts that neither have a marker nor run into one: then unmarking gives back
the text from the marked text, and the text in lower case from the marked text in lower case. For any other text both
fail. -/
theorem marking_undone_iff (text : List Char) :
    (unmark (mark text) = text ↔ ¬HasMarker text ∧ ¬CutsMarker text) ∧
    (unmark (lowerAscii (mark text)) = lowerAscii text ↔ ¬HasMarker text ∧ ¬CutsMarker text) := by
  rw [unmark_lowerAscii, ← not_or, ← meetsMarker_iff]
  refine ⟨⟨fun h => ?_, unmark_mark_of_not_meetsMarker⟩, ⟨not_meetsMarker_of_lowerAscii, fun h => ?_⟩⟩
  · exact not_meetsMarker_of_lowerAscii (congrArg lowerAscii h)
  · exact congrArg lowerAscii (unmark_mark_of_not_meetsMarker h)

/-- A text without a marker that is not read back: it runs into the marker of its star. -/
theorem marking_not_undone :
    ¬HasMarker "ZDB_ESCAPE_*".toList ∧
    unmark (mark "ZDB_ESCAPE_*".toList) = "\\_STAR_ZDB".toList ∧
    unmark (mark "ZDB_ESCAPE_*".toList) ≠ "ZDB_ESCAPE_*".toList ∧
    unmark (lowerAscii (mark "ZDB_ESCAPE_*".toList)) ≠ lowerAscii "ZDB_ESCAPE_*".toList := by
  decide

end LinkedSearch.Query.Phrase
