import LinkedSearch.Proofs.Escaping
import LinkedSearch.Proofs.ProximityClauses

/-! # Tokens for several words

Two readers of a token decide how a phrase is compiled: one tells whether some token of it stands for several words,
so that the phrase becomes a condition on word positions, and the other what the single tokens stand for. They look
for the same wildcards and the same fuzzy suffix. A fuzzy suffix with nothing before it is no fuzzy text for the second
one, but still a suffix for the first one.

* `Kind.isMultiTerm`: the kinds for several words.
* `Phrase.isBareSuffix`, `Phrase.isMultiTerm_eq`: the tokens on which the readers differ.
* `Compile.NeedsPositions`: what a phrase is compiled to a condition on word positions for.
* `Compile.multiTerm_detected_iff`: where the readers agree, and which phrases become such a condition. -/

namespace LinkedSearch

open Query (Kind Label Tree)

namespace Query

/-- **Kinds for several words**. -/
def Kind.isMultiTerm : Kind → Bool
  | .fuzzy .. | .leading _ | .wildcard _ => true
  | _ => false

namespace Phrase

variable {token stem after digits : List Char} {fuzziness : Nat}

/-- **Bare suffixes**: a tilde and the digits of a fuzziness, with nothing before them. -/
def isBareSuffix : List Char → Bool
  | '~' :: digits => (fuzziness? digits).isSome
  | _ => false

/-! ## Fuzzy suffixes -/

/-- A text is cut into what stands before its last tilde, the tilde, and the rest; its wildcards are those of both
parts. -/
theorem splitLastTilde?_eq_some (h : splitLastTilde? token = some (stem, after)) :
    token = stem ++ '~' :: after ∧ wildcardCount token = wildcardCount stem + wildcardCount after := by
  fun_induction splitLastTilde? token generalizing stem with
  | case1 => exact nomatch h
  | case2 => exact nomatch h
  | case3 c rest ih =>
    obtain ⟨⟨begun, ending⟩, hsplit, heq⟩ := Option.map_eq_some_iff.mp h
    obtain ⟨rfl, rfl⟩ := Prod.mk.inj heq
    obtain ⟨rfl, hcount⟩ := ih hsplit
    refine ⟨rfl, ?_⟩
    rw [wildcardCount, wildcardCount, hcount]
  | case4 c rest hlast hescape begun ending hsplit ih =>
    obtain ⟨rfl, rfl⟩ := Prod.mk.inj (Option.some.inj h)
    obtain ⟨rfl, hcount⟩ := ih hsplit
    -- a backslash and the character behind it are another case
    have hplain : c ≠ '\\' := by
      rintro rfl
      cases begun with
      | nil => exact hescape _ _ rfl rfl
      | cons d begun => exact hescape _ _ rfl rfl
    refine ⟨rfl, ?_⟩
    rw [wildcardCount_cons hplain, wildcardCount_cons hplain, hcount, Nat.add_assoc]
  | case5 rest hsplit =>
    obtain ⟨rfl, rfl⟩ := Prod.mk.inj (Option.some.inj h)
    exact ⟨rfl, wildcardCount_cons (by decide) rest⟩
  | case6 => exact nomatch h

/-- The digits of a fuzziness are not special. -/
theorem not_isSpecial_of_fuzziness? (h : fuzziness? digits = some fuzziness) : ∀ c ∈ digits, ¬isSpecial c = true := by
  intro c hc hspecial
  unfold fuzziness? at h
  split at h
  · next hdigits =>
    have hdigit : c.isDigit = true := List.all_eq_true.mp hdigits c hc
    rcases isSpecial_iff.mp hspecial with rfl | rfl | rfl | rfl <;> exact absurd hdigit (by decide)
  · exact nomatch h

/-- **A fuzzy suffix** is a tilde and the digits of a fuzziness; the wildcards of its token stand before it. -/
theorem fuzzySuffix?_eq_some (h : fuzzySuffix? token = some (stem, fuzziness)) :
    ∃ digits, token = stem ++ '~' :: digits ∧ fuzziness? digits = some fuzziness ∧
      wildcardCount token = wildcardCount stem := by
  simp only [fuzzySuffix?, Option.bind_eq_bind, Option.bind_eq_some_iff, Option.some.injEq, Prod.mk.injEq] at h
  obtain ⟨⟨begun, digits⟩, hsplit, number, hdigits, rfl, rfl⟩ := h
  obtain ⟨htoken, hcount⟩ := splitLastTilde?_eq_some hsplit
  have hdigits : fuzziness? digits = some number := hdigits
  refine ⟨digits, htoken, hdigits, ?_⟩
  have hnone : wildcardCount digits = 0 := by
    rw [← escape_eq_self (not_isSpecial_of_fuzziness? hdigits), wildcardCount_escape]
  rw [hcount, hnone]
  rfl

/-- A bare suffix is found as the suffix of nothing. -/
theorem fuzzySuffix?_bareSuffix (h : fuzziness? digits = some fuzziness) :
    fuzzySuffix? ('~' :: digits) = some ([], fuzziness) := by
  have hnone : splitLastTilde? digits = none := by
    rw [← escape_eq_self (not_isSpecial_of_fuzziness? h), splitLastTilde?_escape]
  have hsplit : splitLastTilde? ('~' :: digits) = some ([], digits) := splitLastTilde?_cons (by decide) hnone
  rw [fuzzySuffix?, hsplit]
  simp [h]

theorem isBareSuffix_iff : isBareSuffix token = true ↔ ∃ fuzziness, fuzzySuffix? token = some ([], fuzziness) := by
  constructor
  · intro h
    unfold isBareSuffix at h
    split at h
    · obtain ⟨fuzziness, hdigits⟩ := Option.isSome_iff_exists.mp h
      exact ⟨fuzziness, fuzzySuffix?_bareSuffix hdigits⟩
    · exact nomatch h
  · rintro ⟨fuzziness, h⟩
    obtain ⟨digits, rfl, hdigits, -⟩ := fuzzySuffix?_eq_some h
    exact Option.isSome_iff_exists.mpr ⟨fuzziness, hdigits⟩

/-! ## The two readers -/

/-- Without a fuzzy suffix a token stands for several words if it has a wildcard. -/
theorem isMultiTerm_plainKind (token : List Char) :
    (plainKind token).isMultiTerm = decide (0 < wildcardCount token) := by
  unfold plainKind
  split
  · next hcount => rw [hcount]; rfl
  · next hcount =>
    rw [hcount]
    split <;> rfl
  · next hzero hone =>
    rw [decide_eq_true (Nat.pos_of_ne_zero hzero)]
    rfl

/-- **A bare suffix** is the word that it is. -/
theorem tokenKind_bareSuffix (h : isBareSuffix token = true) :
    tokenKind token = .word (.str (String.ofList token)) := by
  obtain ⟨fuzziness, hsuffix⟩ := isBareSuffix_iff.mp h
  obtain ⟨digits, rfl, hdigits, hcount⟩ := fuzzySuffix?_eq_some hsuffix
  rw [List.nil_append] at hsuffix hcount ⊢
  have hcount : wildcardCount ('~' :: digits) = 0 := hcount
  have hliteral : Text.unescape digits = digits := by
    have h := unescape_escape digits
    rwa [escape_eq_self (not_isSpecial_of_fuzziness? hdigits)] at h
  rw [tokenKind, hsuffix]
  simp [plainKind, hcount, Text.unescape_cons, hliteral]

/-- **Where the readers differ**: bare suffixes are taken for several words. -/
theorem isMultiTerm_eq (token : List Char) :
    isMultiTerm token = ((tokenKind token).isMultiTerm || isBareSuffix token) := by
  by_cases hbare : isBareSuffix token = true
  · obtain ⟨fuzziness, hsuffix⟩ := isBareSuffix_iff.mp hbare
    rw [isMultiTerm, hsuffix, hbare]
    simp
  rw [isMultiTerm, tokenKind, Bool.eq_false_iff.mpr hbare, Bool.or_false]
  cases hsuffix : fuzzySuffix? token with
  | none => simp [isMultiTerm_plainKind]
  | some found =>
    obtain ⟨stem, fuzziness⟩ := found
    have hstem : stem ≠ [] := by
      rintro rfl
      exact hbare (isBareSuffix_iff.mpr ⟨fuzziness, hsuffix⟩)
    by_cases hplain : wildcardCount stem = 0
    · simp [hstem, hplain, Kind.isMultiTerm]
    · -- a wildcard before the suffix is a wildcard of the token
      obtain ⟨-, -, -, hcount⟩ := fuzzySuffix?_eq_some hsuffix
      have hpos : 0 < wildcardCount token := by omega
      simp [hplain, isMultiTerm_plainKind, hpos]

theorem isMultiTerm_bareSuffix (h : isBareSuffix token = true) : isMultiTerm token = true := by
  rw [isMultiTerm_eq, h, Bool.or_true]

/-- **Where the readers agree**: on all other tokens. -/
theorem isMultiTerm_agrees_iff (token : List Char) :
    (isMultiTerm token = true ↔ (tokenKind token).isMultiTerm = true) ↔ isBareSuffix token = false := by
  constructor
  · intro hagree
    by_contra hbare
    have hbare : isBareSuffix token = true := eq_true_of_ne_false hbare
    have hkind := hagree.mp (isMultiTerm_bareSuffix hbare)
    rw [tokenKind_bareSuffix hbare] at hkind
    exact absurd hkind Bool.false_ne_true
  · intro hbare
    rw [isMultiTerm_eq, hbare, Bool.or_false]

end Phrase

end Query

/-! ## Phrases -/

namespace Compile

open Query.Phrase

variable {env : Environment} {p q : Progress} {label : Label} {tokens : List (List Char)}

/-- A phrase by its text: a term, or a run of text. -/
def byText (env : Environment) (label : Label) (tokens : List (List Char)) : Compile Fragment :=
  standard env label (if tokens.length < 2 then .term label.fieldName (.str label.text) none
    else .phrase label.fieldName (joinTokens tokens) none)

/-- A phrase by its tokens: the only one as a predicate, or a condition on the positions of all. -/
def byTokens (env : Environment) (label : Label) (tokens : List (List Char)) : Compile Fragment :=
  match tokens with
  | [] => byText env label []
  | [token] => plainLeaf env (tokenLabel label token)
  | _ => pure (.span (.near (tokens.map fun token => wordClause label.fieldName (tokenLabel label token) none)
      (phraseDistance label.kind).1 (phraseDistance label.kind).2 none))

/-- **Phrases that need positions**: those with a distance, without an order, or with a token for several words. -/
def NeedsPositions (label : Label) (tokens : List (List Char)) : Prop :=
  0 < (phraseDistance label.kind).1 ∨ (phraseDistance label.kind).2 = false ∨
    ∃ token ∈ tokens, (tokenKind token).isMultiTerm = true

instance (label : Label) (tokens : List (List Char)) : Decidable (NeedsPositions label tokens) :=
  inferInstanceAs (Decidable (_ ∨ _ ∨ ∃ token ∈ tokens, _))

/-- How a phrase with some tokens is compiled. -/
theorem exec_phrase (hregex : label.operator ≠ .regex) (htokens : exec (phraseTokens env label) p = (.ok tokens, q)) :
    exec (phrase env label) p =
      exec (if 0 < (phraseDistance label.kind).1 || !(phraseDistance label.kind).2 || tokens.any isMultiTerm
        then byTokens env label tokens else byText env label tokens) q := by
  have hclause : ∀ token, spanOfLeaf label.operator label.fieldName (tokenLabel label token) =
      pure (wordClause label.fieldName (tokenLabel label token) none) := by
    intro token
    rw [spanOfLeaf, spanOfLeaf?_token hregex]
  unfold phrase
  simp only
  rw [if_neg hregex, exec_bind, htokens]
  simp only [hclause, List.mapM_pure, pure_bind]
  -- whatever the condition is, it is the same on both sides
  generalize (decide (0 < (phraseDistance label.kind).1) || !(phraseDistance label.kind).2 ||
    tokens.any isMultiTerm) = positional
  clear htokens
  cases positional
  all_goals
    rcases tokens with _ | ⟨first, _ | ⟨second, rest⟩⟩
    all_goals rfl

/-- A condition that is put into its nested scope stays no condition on word positions. -/
theorem nest_ne_span {base : Fragment} (hbase : ∀ span, base ≠ .span span) (p : Progress) :
    wp (nest env label base) (fun F _ => ∀ span, F ≠ .span span) (fun _ _ => True) p := by
  unfold nest
  refine wp_bind_any fun path q => ?_
  split
  · refine wp_bind_any fun progress r => ?_
    rw [wp_pure]
    split
    · exact fun _ => Fragment.noConfusion
    · exact hbase
  · refine wp_bind_any fun progress r => ?_
    split
    · exact fun _ => Fragment.noConfusion
    · split
      · split
        · exact hbase
        · exact trivial
      · exact hbase

/-- **No operator** makes a condition on word positions of another one. -/
theorem standard_ne_span {base : Fragment} (hbase : ∀ span, base ≠ .span span) (p : Progress) :
    wp (standard env label base) (fun F _ => ∀ span, F ≠ .span span) (fun _ _ => True) p := by
  unfold standard
  simp only
  split
  case h_9 =>
    unfold similarity
    simp only [bind_assoc, pure_bind]
    exact wp_bind_any fun mapping q => nest_ne_span (fun _ => Fragment.noConfusion) q
  case h_10 => exact trivial
  case h_3 => exact nest_ne_span (fun _ => Fragment.noConfusion) p
  case h_1 | h_2 => exact nest_ne_span hbase p
  all_goals exact nest_ne_span (fun _ => Fragment.noConfusion) p

/-- A phrase of several words is compiled to a condition on word positions by its tokens, and not by its text. -/
theorem byTokens_span (hmany : 2 ≤ tokens.length) (p : Progress) :
    ∃ span, (exec (byTokens env label tokens) p).1 = .ok (.span span) := by
  obtain ⟨first, second, rest, rfl⟩ : ∃ first second rest, tokens = first :: second :: rest := by
    rcases tokens with _ | ⟨first, _ | ⟨second, rest⟩⟩
    · exact absurd hmany (by simp)
    · exact absurd hmany (by simp)
    · exact ⟨first, second, rest, rfl⟩
  exact ⟨_, rfl⟩

theorem byText_ne_span {p : Progress} {F : Fragment} (h : (exec (byText env label tokens) p).1 = .ok F) :
    ∀ span, F ≠ .span span := by
  refine (wp_of_ok (Prod.ext h rfl)).mp (standard_ne_span ?_ p)
  split <;> exact fun _ => Fragment.noConfusion

/-- Whether some token is taken for several words. -/
theorem any_isMultiTerm_iff (tokens : List (List Char)) : tokens.any isMultiTerm = true ↔
    (∃ token ∈ tokens, (tokenKind token).isMultiTerm = true) ∨ ∃ token ∈ tokens, isBareSuffix token = true := by
  simp only [List.any_eq_true, isMultiTerm_eq, Bool.or_eq_true, and_or_left, exists_or]

/-- **Which phrases become conditions on word positions.** Whether a token is taken for several words agrees with
the kind of predicate that it becomes, except for a bare suffix: that is a word, and taken for several ones. A phrase
with any operator but the one for regular expressions is compiled token by token if it has a distance, or has no order,
or has a token of a kind for several words or a bare suffix, and by its text in all other cases. If it has several
tokens, it is compiled to a condition on word positions exactly in the former cases. -/
theorem multiTerm_detected_iff (token : List Char) :
    ((isMultiTerm token = true ↔ (tokenKind token).isMultiTerm = true) ↔ isBareSuffix token = false) ∧
    (isBareSuffix token = true → isMultiTerm token = true ∧ tokenKind token = .word (.str (String.ofList token))) ∧
    ∀ {env : Environment} {p q : Progress} {label : Label} {tokens : List (List Char)},
      label.kind.isPhrase = true → label.operator ≠ .regex → exec (phraseTokens env label) p = (.ok tokens, q) →
      let positional := NeedsPositions label tokens ∨ ∃ token ∈ tokens, isBareSuffix token = true
      (positional → exec (leaf env label) p = exec (byTokens env label tokens) q) ∧
      (¬positional → exec (leaf env label) p = exec (byText env label tokens) q) ∧
      (2 ≤ tokens.length → ((∃ span, (exec (leaf env label) p).1 = .ok (.span span)) ↔ positional)) := by
  refine ⟨isMultiTerm_agrees_iff token, fun h => ⟨isMultiTerm_bareSuffix h, tokenKind_bareSuffix h⟩, ?_⟩
  intro env p q label tokens hkind hregex htokens positional
  have hcond : (decide (0 < (phraseDistance label.kind).1) || !(phraseDistance label.kind).2 ||
      tokens.any isMultiTerm) = true ↔ positional := by
    simp only [Bool.or_eq_true, decide_eq_true_eq, Bool.not_eq_true', any_isMultiTerm_iff, positional, NeedsPositions,
      or_assoc]
  have hexec := exec_phrase hregex htokens
  have htoken : positional → exec (leaf env label) p = exec (byTokens env label tokens) q := fun h => by
    rw [leaf_phrase hkind, hexec, if_pos (hcond.mpr h)]
  have htext : ¬positional → exec (leaf env label) p = exec (byText env label tokens) q := fun h => by
    rw [leaf_phrase hkind, hexec, if_neg fun heq => h (hcond.mp heq)]
  refine ⟨htoken, htext, fun hmany => ⟨?_, fun h => ?_⟩⟩
  · rintro ⟨span, hspan⟩
    by_contra h
    rw [htext h] at hspan
    exact byText_ne_span hspan span rfl
  · rw [htoken h]
    exact byTokens_span hmany q

/-- A phrase of a word and a bare suffix. -/
def quickTilde : Tree := .phrase "title" "quick ~2"

/-- No token of it is of a kind for several words, and yet it is a condition on word positions. -/
theorem multiTerm_detected_quickTilde : isMultiTerm "~2".toList = true ∧ ∃ compiler tokens q span,
    (Compiler.itemSearch quickTilde).start = .ok compiler ∧
    exec (phraseTokens compiler.environment quickTilde.label) compiler.progress = (.ok tokens, q) ∧
    ¬NeedsPositions quickTilde.label tokens ∧
    (exec (leaf compiler.environment quickTilde.label) compiler.progress).1 = .ok (.span span) := by
  have hrun : ((Compiler.itemSearch quickTilde).start.toOption.any fun compiler =>
      (exec (phraseTokens compiler.environment quickTilde.label) compiler.progress).1.toOption.any fun tokens =>
        decide (tokens = ["quick".toList, "~2".toList])) = true := by
    decide +kernel
  simp only [Option.any_eq_true, toOption_eq_some, decide_eq_true_eq] at hrun
  obtain ⟨compiler, hstart, tokens, htokens, rfl⟩ := hrun
  obtain ⟨-, hbare, hphrase⟩ := multiTerm_detected_iff "~2".toList
  have hkind : quickTilde.label.kind.isPhrase = true := rfl
  obtain ⟨-, -, hspan⟩ := hphrase hkind (by decide) (Prod.ext htokens rfl)
  have hneeds : ¬NeedsPositions quickTilde.label ["quick".toList, "~2".toList] := by decide
  have hsuffix : ∃ token ∈ ["quick".toList, "~2".toList], isBareSuffix token = true := by decide
  obtain ⟨span, hcompiled⟩ := (hspan (by decide)).mpr (.inr hsuffix)
  exact ⟨(hbare (by decide)).1, compiler, _, _, span, hstart, Prod.ext htokens rfl, hneeds, hcompiled⟩

/-- The readers differ. -/
theorem multiTerm_not_detected : isMultiTerm "~2".toList = true ∧ (tokenKind "~2".toList).isMultiTerm = false := by
  decide

end Compile

end LinkedSearch
