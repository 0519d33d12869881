import LinkedSearch.Proofs.PlainText
import LinkedSearch.Query.PhraseToken
import Mathlib.Tactic.Tauto

/-! # Prefixes and wildcards

A token whose only wildcard is a star at its end stands for the words that start with the text before the star. The
fragment for it compares the beginnings of the terms of a field with this text; the same token as a wildcard is a
pattern that literals and `.*` make up. On plain documents the two come to the same.

* `Pattern.reach_literals`, `Pattern.mem_reach_many`: where literals and a star lead.
* `Text.isMatch_stem`: when a text matches a stem with a star.
* `Query.Phrase.ofChars_append_star`, `Query.Phrase.exists_of_leading`: tokens that stand for a prefix, and their
  patterns.
* `Fragment.holds_leading_eq_wildcard`: the two fragments agree. -/

namespace LinkedSearch

namespace Text

variable {text : List Char}

/-! ## Positions -/

namespace Pattern

/-- From nowhere a pattern leads nowhere. -/
@[simp] theorem reach_nil (text : Array Char) (pattern : Pattern) : reach text pattern [] = [] := by
  induction pattern with
  | empty => rfl
  | char characters => rfl
  | assertion condition => rfl
  | seq first second ihfirst ihsecond => rw [reach_seq, ihfirst, ihsecond]
  | alt left right ihleft ihright =>
    show Positions.union (reach text left []) (reach text right []) = []
    rw [ihleft, ihright]
    rfl
  | repeated inner least most ih =>
    have hstart : Positions.iterate (reach text inner) least [] = [] := by
      cases least with
      | zero => rfl
      | succ least => rw [Positions.iterate, ih, if_pos rfl]
    have hclosure : ∀ rounds, Positions.closure (reach text inner) rounds [] [] = [] := by
      intro rounds
      cases rounds with
      | zero => rfl
      | succ rounds =>
        rw [Positions.closure, ih]
        rfl
    unfold reach
    dsimp only
    rw [hstart]
    exact hclosure _

/-- Patterns one after the other lead on from where the first ones have led. -/
theorem reach_sequence_append (text : Array Char) (parts later : List Pattern) (positions : Positions) :
    reach text (sequence (parts ++ later)) positions =
      reach text (sequence later) (reach text (sequence parts) positions) := by
  induction parts generalizing positions with
  | nil => rfl
  | cons part parts ih => exact ih _

/-- A text starts at its first position only. -/
theorem reach_textStart (text : List Char) :
    reach text.toArray (.assertion .textStart) (List.range (text.length + 1)) = [0] := by
  have hlater : ((List.range text.length).map Nat.succ).filter (fun position =>
      Assertion.textStart.holds (neighbours text.toArray position).1 (neighbours text.toArray position).2) = [] := by
    apply List.filter_eq_nil_iff.mpr
    intro position hposition
    obtain ⟨before, hbefore, rfl⟩ := List.mem_map.mp hposition
    have hlt : before < text.length := List.mem_range.mp hbefore
    simp [neighbours, Assertion.holds, hlt]
  have hfirst : Assertion.textStart.holds (neighbours text.toArray 0).1 (neighbours text.toArray 0).2 = true := rfl
  rw [List.range_succ_eq_map]
  unfold reach
  rw [List.filter_cons]
  exact (if_pos hfirst).trans (congrArg (0 :: ·) hlater)

/-- A text ends behind its last character. -/
theorem mem_reach_textEnd {positions : Positions} {position : Nat} :
    position ∈ reach text.toArray (.assertion .textEnd) positions ↔
      position ∈ positions ∧ text.length ≤ position := by
  unfold reach
  rw [List.mem_filter]
  simp [neighbours, Assertion.holds]

/-- A character leads one position on, if it is there. -/
theorem reach_char (characters : CharClass) (position : Nat) :
    reach text.toArray (char characters) [position] =
      if text[position]?.any characters.contains then [position + 1] else [] := by
  unfold reach
  by_cases h : text[position]?.any characters.contains = true
  · simp [h]
  · simp [h]

/-- **Literals** that ignore case lead from a position of a text in lower case to the one behind them if their lower
case is there, and nowhere if not. -/
theorem reach_literals {chars : List Char} (hchars : ∀ c ∈ chars, c.toNat < 128)
    (htext : ∀ c ∈ text, c.toNat < 128 ∧ c.toLower = c) (position : Nat) :
    reach text.toArray (sequence (chars.map (literal · true))) [position] =
      if (chars.map Char.toLower).isPrefixOf (text.drop position) then [position + chars.length] else [] := by
  induction chars generalizing position with
  | nil => simp [sequence]
  | cons c rest ih =>
    have hfirst : reach text.toArray (sequence ((c :: rest).map (literal · true))) [position] =
        reach text.toArray (sequence (rest.map (literal · true)))
          (if text[position]?.any (CharClass.single c true).contains then [position + 1] else []) := by
      rw [← reach_char]
      rfl
    rw [hfirst]
    -- the first literal either reads the next character or finds the end of the text
    by_cases hlt : position < text.length
    · obtain ⟨hascii, hlower⟩ := htext text[position] (List.getElem_mem hlt)
      have hcontains := contains_single_folded (hchars c List.mem_cons_self) hascii hlower
      have hrest := ih (fun d hd => hchars d (List.mem_cons_of_mem c hd)) (position + 1)
      have hstarts : ((c :: rest).map Char.toLower).isPrefixOf (text.drop position) =
          (c.toLower == text[position] && (rest.map Char.toLower).isPrefixOf (text.drop (position + 1))) := by
        rw [List.drop_eq_getElem_cons hlt]
        rfl
      rw [hstarts, List.getElem?_eq_getElem hlt, Option.any_some, hcontains]
      cases c.toLower == text[position] with
      | true => rw [if_pos rfl, hrest, Bool.true_and, List.length_cons, Nat.add_right_comm, Nat.add_assoc]
      | false =>
        rw [if_neg Bool.false_ne_true, reach_nil]
        rfl
    · have hnone : text[position]? = none := List.getElem?_eq_none (Nat.le_of_not_lt hlt)
      rw [hnone, List.drop_eq_nil_of_le (Nat.le_of_not_lt hlt), Option.any_none, if_neg Bool.false_ne_true, reach_nil]
      rfl

/-- The dot leads on from every position but the last, in a text without line feeds. -/
theorem reach_dot (htext : ∀ c ∈ text, c ≠ '\n') {position : Nat} (hlt : position < text.length) :
    reach text.toArray dot [position] = [position + 1] := by
  have hne : text[position] ≠ '\n' := htext _ (List.getElem_mem hlt)
  have hcontains : (CharClass.complement (.single '\n' false)).contains text[position] = true := by
    rw [CharClass.contains, CharClass.contains_single, Bool.not_eq_true', ← Bool.not_eq_true, Bool.and_eq_true,
      decide_eq_true_iff, decide_eq_true_iff]
    rintro ⟨hle, hge⟩
    exact hne (Char.toNat_inj.mp (by omega))
  rw [dot, reach_char, List.getElem?_eq_getElem hlt, Option.any_some, if_pos hcontains]

/-- An added position is there, and so are the others. -/
theorem mem_add {position other : Nat} {positions : Positions} :
    other ∈ Positions.add position positions ↔ other = position ∨ other ∈ positions := by
  induction positions with
  | nil => simp [Positions.add]
  | cons p rest ih =>
    rw [Positions.add]
    split
    · simp
    · split
      · next heq => simp [heq]
      · simp only [List.mem_cons, ih]
        tauto

/-- Dots lead from a position to the end of the text, one character in every round. What is reached so far is never
beyond the position that the last round has reached, so that the next one is always new. -/
theorem mem_closure_dot (htext : ∀ c ∈ text, c ≠ '\n') {rounds position : Nat} {reached : Positions}
    (hle : position ≤ text.length) (hrounds : text.length ≤ position + rounds) (hreached : position ∈ reached)
    (hlast : ∀ earlier ∈ reached, earlier ≤ position) :
    text.length ∈ Positions.closure (reach text.toArray dot) rounds reached [position] := by
  induction rounds generalizing position reached with
  | zero =>
    have hend : text.length = position := by omega
    rw [hend]
    exact hreached
  | succ rounds ih =>
    rw [Positions.closure]
    by_cases hlt : position < text.length
    · have hnew : reached.contains (position + 1) = false := by
        rw [List.contains_eq_mem, decide_eq_false_iff_not]
        intro hmem
        have hbeyond := hlast _ hmem
        omega
      have hfresh : (reach text.toArray dot [position]).filter (fun p => !reached.contains p) = [position + 1] := by
        rw [reach_dot htext hlt, List.filter_cons, hnew]
        rfl
      rw [hfresh, if_neg (by simp)]
      apply ih
      · exact hlt
      · omega
      · exact mem_add.mpr (.inl rfl)
      · intro earlier hearlier
        rcases mem_add.mp hearlier with heq | hbefore
        · exact Nat.le_of_eq heq
        · exact Nat.le_succ_of_le (hlast earlier hbefore)
    · have hend : text.length = position := by omega
      have hnone : text[position]? = none := List.getElem?_eq_none (Nat.le_of_not_lt hlt)
      rw [dot, reach_char, hnone, Option.any_none, if_neg Bool.false_ne_true, List.filter_nil, List.isEmpty_nil,
        if_pos rfl, hend]
      exact hreached

/-- **A star** leads to the end of a text without line feeds. -/
theorem mem_reach_many (htext : ∀ c ∈ text, c ≠ '\n') {position : Nat} (hle : position ≤ text.length) :
    text.length ∈ reach text.toArray (.repeated .dot 0 none) [position] := by
  unfold reach
  dsimp only [Positions.iterate]
  refine mem_closure_dot htext hle ?_ List.mem_cons_self ?_
  · rw [List.size_toArray]
    omega
  · intro earlier hearlier
    exact Nat.le_of_eq (List.mem_singleton.mp hearlier)

end Pattern

/-- **A stem with a star** matches the plain texts in lower case that start with the stem in lower case. -/
theorem isMatch_stem {chars : List Char} (hchars : ∀ c ∈ chars, c.toNat < 128) (hplain : IsPlain text)
    (hlower : ∀ c ∈ text, c.toLower = c) :
    (Pattern.seq (.assertion .textStart) (.seq (.sequence (chars.map (Pattern.literal · true) ++
      [.repeated .dot 0 none])) (.assertion .textEnd))).isMatch text = (chars.map Char.toLower).isPrefixOf text := by
  have hliterals := Pattern.reach_literals hchars (fun c hc => ⟨(hplain c hc).1, hlower c hc⟩) 0
  rw [List.drop_zero, Nat.zero_add] at hliterals
  rw [Pattern.isMatch, Pattern.reach_seq, Pattern.reach_seq, Pattern.reach_textStart, Pattern.reach_sequence_append,
    hliterals]
  cases hstarts : (chars.map Char.toLower).isPrefixOf text with
  | true =>
    have hle : chars.length ≤ text.length := by
      have hlength := ( List.isPrefixOf_iff_prefix.mp hstarts).length_le
      rwa [List.length_map] at hlength
    have hmany := Pattern.mem_reach_many (fun c hc => (hplain c hc).2) hle
    have hend : text.length ∈ Pattern.reach text.toArray (.assertion .textEnd)
        (Pattern.reach text.toArray (.sequence [.repeated .dot 0 none]) [chars.length]) :=
      Pattern.mem_reach_textEnd.mpr ⟨hmany, Nat.le_refl _⟩
    rw [if_pos rfl, Bool.not_eq_true', List.isEmpty_eq_false_iff]
    exact List.ne_nil_of_mem hend
  | false =>
    rw [if_neg Bool.false_ne_true, Pattern.reach_nil, Pattern.reach_nil]
    rfl

end Text

/-! ## Tokens -/

namespace Query.Phrase

open Text (WildcardPart unescape)

/-- What does not end in a backslash does not do so behind an escape at its start either. -/
theorem getLast?_of_cons {c : Char} {rest : List Char} (h : (c :: rest).getLast? ≠ some '\\') :
    rest.getLast? ≠ some '\\' := by
  cases rest with
  | nil => simp
  | cons d later => rwa [List.getLast?_cons_cons] at h

/-- A star after a text that does not end in a backslash is a wildcard of its own. -/
theorem wildcardCount_append_star {body : List Char} (hlast : body.getLast? ≠ some '\\') :
    wildcardCount (body ++ ['*']) = wildcardCount body + 1 := by
  induction body using wildcardCount.induct with
  | case1 c rest ih =>
    have hrest := ih (getLast?_of_cons (getLast?_of_cons hlast))
    simp only [List.cons_append, wildcardCount, hrest]
  | case2 c rest hplain ih =>
    have hrest := ih (getLast?_of_cons hlast)
    have hne : c ≠ '\\' := by
      rintro rfl
      cases rest with
      | nil => exact hlast rfl
      | cons d later => exact hplain d later rfl rfl
    rw [List.cons_append, wildcardCount_cons hne, wildcardCount_cons hne, hrest, Nat.add_assoc]
  | case3 => rfl

/-- **The pattern** of a text without wildcards and of a star after it: the characters of the text without its escapes,
and the star. -/
theorem ofChars_append_star {body : List Char} (hlast : body.getLast? ≠ some '\\')
    (hnone : wildcardCount body = 0) :
    WildcardPart.ofChars (body ++ ['*']) = (unescape body).map .literal ++ [.many] := by
  induction body using wildcardCount.induct with
  | case1 c rest ih =>
    rw [wildcardCount] at hnone
    have hrest := ih (getLast?_of_cons (getLast?_of_cons hlast)) hnone
    rw [List.cons_append, List.cons_append, WildcardPart.ofChars, hrest, Text.unescape_backslash]
    rfl
  | case2 c rest hplain ih =>
    have hne : c ≠ '\\' := by
      rintro rfl
      cases rest with
      | nil => exact hlast rfl
      | cons d later => exact hplain d later rfl rfl
    rw [wildcardCount_cons hne] at hnone
    have hwild : ¬(c = '*' ∨ c = '?') := by
      intro hwild
      rw [if_pos hwild] at hnone
      omega
    have hrest := ih (getLast?_of_cons hlast) (by omega)
    rw [List.cons_append, Text.unescape_cons hne, List.map_cons, List.cons_append, ← hrest, WildcardPart.ofChars]
    · exact fun _ _ heq => absurd heq hne
    · exact fun heq => absurd heq hne
    · exact fun heq => absurd (Or.inl heq) hwild
    · exact fun heq => absurd (Or.inr heq) hwild
  | case3 => rfl

/-- A star at the end that is not escaped. -/
theorem exists_of_endsInStar {token : List Char} (h : endsInStar token = true) :
    ∃ body, token = body ++ ['*'] ∧ body.getLast? ≠ some '\\' := by
  unfold endsInStar at h
  split at h
  · exact nomatch h
  · next rest hrest hreverse =>
    refine ⟨rest.reverse, ?_, ?_⟩
    · rw [← List.reverse_reverse token, hreverse, List.reverse_cons]
    · rw [List.getLast?_reverse]
      cases rest with
      | nil => simp
      | cons d later =>
        intro heq
        obtain rfl : d = '\\' := Option.some.inj heq
        exact hrest later rfl
  · exact nomatch h

/-- **A token that stands for a prefix** is a text without wildcards and a star, and the text does not end in a
backslash. The prefix is this text without its escapes. -/
theorem exists_of_leading {token : List Char} {stem : String} (h : tokenKind token = .leading stem) :
    ∃ body, token = body ++ ['*'] ∧ body.getLast? ≠ some '\\' ∧ wildcardCount body = 0 ∧
      stem = String.ofList (unescape body) := by
  have hplain : plainKind token = .leading stem := by
    unfold tokenKind at h
    split at h
    · split at h
      · exact nomatch h
      · exact h
    · exact h
  unfold plainKind at hplain
  split at hplain
  · exact nomatch hplain
  · next hone =>
    split at hplain
    · next hstar =>
      obtain ⟨body, rfl, hlast⟩ := exists_of_endsInStar hstar
      rw [wildcardCount_append_star hlast] at hone
      rw [List.dropLast_concat] at hplain
      exact ⟨body, rfl, hlast, by omega, (Kind.leading.inj hplain).symm⟩
    · exact nomatch hplain
  · exact nomatch hplain

/-- Removing escapes adds no characters. -/
theorem unescape_subset (text : List Char) : unescape text ⊆ text := by
  induction text using wildcardCount.induct with
  | case1 c rest ih =>
    rw [Text.unescape_backslash]
    exact List.Subset.trans (List.cons_subset_cons c ih) (List.subset_cons_self _ _)
  | case2 c rest hplain ih =>
    by_cases hc : c = '\\'
    · cases rest with
      | nil =>
        rw [hc]
        exact List.nil_subset _
      | cons d later => exact absurd rfl (hplain d later hc)
    · rw [Text.unescape_cons hc]
      exact List.cons_subset_cons c ih
  | case3 => exact List.Subset.refl _

end Query.Phrase

/-! ## Fragments -/

namespace Fragment

open Query.Phrase (tokenKind)

/-- **A prefix and a wildcard** that are made of the same token hold of the same documents: for every token of ASCII
characters that is classified as a prefix, wherever it has escapes, on every field of every plain document. -/
theorem holds_leading_eq_wildcard {token : List Char} {stem : String} (hkind : tokenKind token = .leading stem)
    (htoken : ∀ c ∈ token, c.toNat < 128) {document : Json} (hdocument : document.isPlain = true) (field : String)
    (boost boost' : Boost) :
    (Fragment.leading field stem boost).holds document =
      (Fragment.wildcard field (String.ofList token) boost').holds document := by
  obtain ⟨body, rfl, hlast, hnone, rfl⟩ := Query.Phrase.exists_of_leading hkind
  have hstem : ∀ c ∈ Text.unescape body, c.toNat < 128 := by
    intro c hc
    exact htoken c (List.mem_append_left _ (Query.Phrase.unescape_subset body hc))
  have hpattern : Text.wildcard (String.ofList (body ++ ['*'])) =
      .seq (.assertion .textStart) (.seq (.sequence ((Text.unescape body).map (Text.Pattern.literal · true) ++
        [.repeated .dot 0 none])) (.assertion .textEnd)) := by
    rw [Text.wildcard, String.toList_ofList, Query.Phrase.ofChars_append_star hlast hnone, List.map_append,
      List.map_map]
    rfl
  rw [holds, holds, hpattern, String.toList_ofList, Text.lower_of_ascii hstem]
  apply any_congr_of_mem
  intro value hvalue
  apply Json.anyTerm_congr (Document.isPlain_of_mem_values hdocument hvalue)
  intro text htext
  symm
  apply Text.isMatch_stem hstem htext.map_toLower
  intro c hc
  obtain ⟨d, hd, rfl⟩ := List.mem_map.mp hc
  exact (Text.toLower_spec d (htext d hd).1).2.1

/-- With an escaped star in the token, both find the title that has a star in it. -/
theorem holds_leading_eq_wildcard_escaped :
    let document := Json.obj [("title", .arr [.str "Guide", .str "A*b c"]), ("year", .int 1999)]
    tokenKind "a\\**".toList = .leading "a*" ∧ (Fragment.leading "title" "a*" none).holds document = true ∧
      (Fragment.wildcard "title" "a\\**" none).holds document = true := by
  intro document
  have hkind : tokenKind "a\\**".toList = .leading "a*" := by decide +kernel
  have hleading : (Fragment.leading "title" "a*" none).holds document = true := by decide +kernel
  have htoken : Text.IsPlain "a\\**".toList := by decide +kernel
  have hdocument : document.isPlain = true := by decide +kernel
  have hsame := holds_leading_eq_wildcard hkind (fun c hc => (htoken c hc).1) hdocument "title" none none
  refine ⟨hkind, hleading, ?_⟩
  rw [hleading] at hsame
  exact hsame.symm

end Fragment

end LinkedSearch
