import LinkedSearch.Proofs.Marking
import LinkedSearch.Proofs.Negating

/-! # Escaped texts are literal

A text in which every special character has a backslash before it stands for itself: the readers of tokens find
neither wildcards nor a fuzzy suffix in it, and drop exactly the backslashes that were put there. On its way to them
it is marked, analyzed and unmarked; this changes nothing as long as the text itself does not spell the start of a
marker.

* `Query.Phrase.escapeText`: a text with its special characters escaped.
* `Query.Phrase.tokenKind_escape`: an escaped token is a word.
* `Query.Phrase.unmark_mark`: marking is undone.
* `Compile.escaped_literally`: what an escaped phrase is compiled to. -/

namespace LinkedSearch

open Query (Kind Label Tree)
open Schema (FieldType Mapping)

namespace Query.Phrase

/-! ## Escaping -/

/-- A character with a backslash before it if it is special. -/
def escapeChar (c : Char) : List Char := if isSpecial c then ['\\', c] else [c]

/-- **Escaping**: a backslash before every special character. -/
def escape (text : List Char) : List Char := text.flatMap escapeChar

/-- An escaped string. -/
def escapeText (text : String) : String := String.ofList (escape text.toList)

@[simp] theorem escape_nil : escape [] = [] := rfl

theorem escape_special {c : Char} (h : isSpecial c = true) (rest : List Char) :
    escape (c :: rest) = '\\' :: c :: escape rest := by
  rw [escape, List.flatMap_cons, escapeChar, if_pos h]
  rfl

theorem escape_plain {c : Char} (h : ¬isSpecial c = true) (rest : List Char) :
    escape (c :: rest) = c :: escape rest := by
  rw [escape, List.flatMap_cons, escapeChar, if_neg h]
  rfl

/-- A text without special characters is escaped as it is. -/
theorem escape_eq_self {text : List Char} (h : ∀ c ∈ text, ¬isSpecial c = true) : escape text = text := by
  induction text with
  | nil => rfl
  | cons c rest ih => rw [escape_plain (h c List.mem_cons_self), ih fun d hd => h d (List.mem_cons_of_mem c hd)]

/-- **Escaping is undone** where escapes are removed. -/
@[simp] theorem unescape_escape (text : List Char) : Text.unescape (escape text) = text := by
  induction text with
  | nil => rfl
  | cons c rest ih =>
    by_cases h : isSpecial c = true
    · rw [escape_special h, Text.unescape_backslash, ih]
    · have hplain : c ≠ '\\' := fun heq => h (isSpecial_iff.mpr (.inl heq))
      rw [escape_plain h, Text.unescape_cons hplain, ih]

/-! ## The readers of tokens -/

/-- No wildcard is left unescaped. -/
@[simp] theorem wildcardCount_escape (text : List Char) : wildcardCount (escape text) = 0 := by
  induction text with
  | nil => rfl
  | cons c rest ih =>
    by_cases h : isSpecial c = true
    · rw [escape_special h, wildcardCount, ih]
    · have hnone : ¬(c = '*' ∨ c = '?') := fun hwild =>
        h (isSpecial_iff.mpr (by rcases hwild with heq | heq <;> simp [heq]))
      have hplain : c ≠ '\\' := fun heq => h (isSpecial_iff.mpr (.inl heq))
      rw [escape_plain h, wildcardCount_cons hplain, if_neg hnone, ih]

/-- No tilde is left unescaped. -/
@[simp] theorem splitLastTilde?_escape (text : List Char) : splitLastTilde? (escape text) = none := by
  induction text with
  | nil => rfl
  | cons c rest ih =>
    by_cases h : isSpecial c = true
    · rw [escape_special h, splitLastTilde?, ih]
      rfl
    · have htilde : c ≠ '~' := fun heq => h (isSpecial_iff.mpr (by simp [heq]))
      have hplain : c ≠ '\\' := fun heq => h (isSpecial_iff.mpr (.inl heq))
      rw [escape_plain h, splitLastTilde?_cons hplain ih, if_neg htilde]

@[simp] theorem fuzzySuffix?_escape (text : List Char) : fuzzySuffix? (escape text) = none := by
  rw [fuzzySuffix?, splitLastTilde?_escape]
  rfl

/-- An escaped token stands for one word only. -/
@[simp] theorem isMultiTerm_escape (text : List Char) : isMultiTerm (escape text) = false := by
  simp [isMultiTerm]

/-- **An escaped token** is the word that it was before. -/
theorem tokenKind_escape (text : List Char) : tokenKind (escape text) = .word (.str (String.ofList text)) := by
  rw [tokenKind, fuzzySuffix?_escape]
  simp [plainKind]

/-- Every backslash of an escaped text comes with another character. -/
theorem escape_ne_backslash (text : List Char) : escape text ≠ ['\\'] := by
  intro h
  have htext : text = Text.unescape ['\\'] := by rw [← h, unescape_escape]
  rw [htext] at h
  exact nomatch h

/-! ## Markers -/

/-- **Plain texts** do not spell the start of a marker, in any case of the letters. -/
def IsUnmarked (text : List Char) : Prop := ¬"zdb_".toList <:+: text.map Char.toLower

instance (text : List Char) : Decidable (IsUnmarked text) := inferInstanceAs (Decidable (¬_))

theorem IsUnmarked.tail {c : Char} {rest : List Char} (h : IsUnmarked (c :: rest)) : IsUnmarked rest := by
  intro hinside
  exact h (hinside.trans (List.suffix_cons _ _).isInfix)

/-- A word at the start of a text in which some characters were replaced by something that does not fit into the word
was there before. -/
theorem prefix_of_flatMap {f : Char → List Char} {word text : List Char}
    (hf : ∀ c, f c = [c] ∨ ∃ d later, f c = d :: later ∧ d.toLower ∉ word)
    (h : word <+: (text.flatMap f).map Char.toLower) : word <+: text.map Char.toLower := by
  induction word generalizing text with
  | nil => exact List.nil_prefix
  | cons w word ih =>
    cases text with
    | nil => exact absurd (List.prefix_nil.mp h) (by simp)
    | cons c rest =>
      rcases hf c with hc | ⟨d, later, hc, hd⟩
      · rw [List.flatMap_cons, hc, List.singleton_append, List.map_cons, List.cons_prefix_cons] at h
        rw [List.map_cons, List.cons_prefix_cons]
        refine ⟨h.1, ih (fun c => ?_) h.2⟩
        rcases hf c with hc | ⟨d, later, hc, hd⟩
        · exact .inl hc
        · exact .inr ⟨d, later, hc, fun hmem => hd (List.mem_cons_of_mem w hmem)⟩
      · rw [List.flatMap_cons, hc, List.cons_append, List.map_cons, List.cons_prefix_cons] at h
        exact absurd (h.1 ▸ List.mem_cons_self) hd

theorem IsUnmarked.not_meetsMarker {text : List Char} (h : IsUnmarked text) : ¬MeetsMarker text := by
  rw [meetsMarker_iff]
  rintro (⟨entry, hentry, hinfix⟩ | ⟨stem, special, hinfix, -, entry, hentry, hsame⟩)
  · have hstart : "zdb_".toList <+: Text.lowerAscii entry.2 := (prefix_of_mem_markers hentry).map Char.toLower
    exact h (hstart.isInfix.trans hinfix)
  · have hlong := length_of_mem_markers hentry
    have hstart : "zdb_".toList <+: Text.lowerAscii entry.2 := (prefix_of_mem_markers hentry).map Char.toLower
    rw [← hsame] at hstart hlong
    have hfits : "zdb_".toList.length ≤ (Text.lowerAscii stem).length := by
      simp at hlong ⊢
      omega
    have hstem : "zdb_".toList <+: Text.lowerAscii stem :=
      List.prefix_of_prefix_length_le hstart (List.prefix_append _ _) hfits
    have hinside : stem <:+: text := (List.prefix_append stem [special]).isInfix.trans hinfix
    exact h (hstem.isInfix.trans (hinside.map Char.toLower))

/-- **Marking is undone** for plain texts. -/
theorem unmark_mark {text : List Char} (h : IsUnmarked text) : unmark (mark text) = text :=
  unmark_mark_of_not_meetsMarker h.not_meetsMarker

-- the condition is needed: a text may spell a whole marker
example : unmark (mark "zdb_star_zdb".toList) = ['*'] := by decide

/-- Escaping does not spell the start of a marker. -/
theorem IsUnmarked.escape {text : List Char} (h : IsUnmarked text) : IsUnmarked (escape text) := by
  have hchar : ∀ c, escapeChar c = [c] ∨ ∃ d later, escapeChar c = d :: later ∧ d.toLower ∉ "zdb_".toList := by
    intro c
    unfold escapeChar
    split
    · exact .inr ⟨'\\', [c], rfl, by decide⟩
    · exact .inl rfl
  induction text with
  | nil => exact h
  | cons c rest ih =>
    have hrest : ¬"zdb_".toList <:+: (Phrase.escape rest).map Char.toLower := ih h.tail
    have hstarts : ¬"zdb_".toList <+: (Phrase.escape (c :: rest)).map Char.toLower := by
      intro hstarts
      exact h (prefix_of_flatMap hchar hstarts).isInfix
    unfold IsUnmarked
    by_cases hspecial : isSpecial c = true
    · rw [escape_special hspecial] at hstarts ⊢
      rw [List.map_cons, List.map_cons] at hstarts ⊢
      rw [List.infix_cons_iff, List.infix_cons_iff, not_or, not_or]
      refine ⟨hstarts, fun hsecond => ?_, hrest⟩
      have hz : 'z' = c.toLower := (List.cons_prefix_cons.mp hsecond).1
      rcases isSpecial_iff.mp hspecial with rfl | rfl | rfl | rfl <;> exact absurd hz (by decide)
    · rw [escape_plain hspecial] at hstarts ⊢
      rw [List.map_cons] at hstarts ⊢
      rw [List.infix_cons_iff, not_or]
      exact ⟨hstarts, hrest⟩

end Query.Phrase

/-! ## Escaped phrases -/

namespace Compile

open Query.Phrase

variable {env : Environment} {p : Progress} {label : Label} {n fuel : Nat}

theorem leaf_phrase (h : label.kind.isPhrase = true) : leaf env label = phrase env label := by
  unfold leaf
  cases hkind : label.kind with
  | phrase text escaped distance ordered => rfl
  | _ =>
    rw [hkind] at h
    exact absurd h Bool.false_ne_true

/-- **The tokens of a phrase** on a field that is not analyzed: its text as a whole, marked and unmarked again. -/
theorem exec_phraseTokens_whole (hp : Sound env p) {settings : TokenizerSettings}
    (hanalyzer : env.analyzer = settings.analyzer) {mapping : Mapping}
    (hmapping : p.metadata.ownerMapping env.resolver label.fieldName = .ok mapping) {type : FieldType}
    (htype : mapping.type? label.fieldName = some type) (hwhole : type.isAnalyzed = false)
    (hunmarked : IsUnmarked label.sourceText.toList) (hne : label.sourceText.toList ≠ ['\\']) :
    ∃ q, exec (phraseTokens env label) p = (.ok [label.sourceText.toList], q) ∧ Looked env p q := by
  obtain ⟨q, hexec, hlooked⟩ := exec_mappingOf hp label.fieldName
  refine ⟨q, ?_, hlooked⟩
  have htokens : env.analyzer label.fieldName (mapping.type? label.fieldName)
      (String.ofList (mark label.sourceText.toList)) = .ok [String.ofList (mark label.sourceText.toList)] := by
    rw [hanalyzer, htype, TokenizerSettings.analyzer, TokenizerSettings.tokenizeFor]
    simp [hwhole]
  have hkept : ([String.ofList (mark label.sourceText.toList)].map fun token => unmark token.toList).filter
      (· ≠ ['\\']) = [label.sourceText.toList] := by
    simp [unmark_mark hunmarked, hne]
  unfold phraseTokens
  simp only
  rw [exec_bind, hexec, hmapping]
  simp only
  rw [htokens, exec_bind]
  exact congrArg (fun tokens => ((.ok tokens : Except Error _), q)) hkept

/-- A phrase of which one plain token is left is a term with its text. -/
theorem phrase_single (h : Bare env p label) (hequal : label.operator = .equal)
    (hdistance : phraseDistance label.kind = (0, true)) {token : List Char} {q : Progress}
    (htokens : exec (phraseTokens env label) p = (.ok [token], q)) (hlooked : Looked env p q)
    (hsingle : isMultiTerm token = false) :
    (exec (phrase env label) p).1 = .ok (.term label.fieldName (.str label.text) none) := by
  unfold phrase
  simp only
  rw [if_neg (by rw [hequal]; simp), hdistance]
  simp only
  rw [exec_bind, htokens]
  simp only [List.any_cons, List.any_nil, hsingle]
  exact (h.looked hlooked).standard_equal hequal _

/-- **Escaped texts are literal.** An escaped text is the word that it was before it was escaped, whatever it is. In
any state of any compilation with the tokenizer of some settings, a phrase with such a text, with the operator for
"equal", without a distance and without a nested path, on a field of a type that is not analyzed, is compiled to the
term with exactly the text, provided that the text does not spell the start of a marker in any case of its letters. -/
theorem escaped_literally (text : String) :
    tokenKind (escapeText text).toList = .word (.str text) ∧
    (IsUnmarked text.toList → ∀ {env : Environment} {p : Progress} {n : Nat} {field : String},
      Sound env p → p.aggregating = false →
      (p.draft.arena.label n).kind = (Tree.escapedPhrase field (escapeText text)).label.kind →
      (p.draft.arena.label n).field = some field → (p.draft.arena.label n).operator = .equal →
      p.metadata.pathOf env.resolver (p.draft.arena.label n) = .ok none →
      (∃ settings : TokenizerSettings, env.analyzer = settings.analyzer) →
      (∃ mapping type, p.metadata.ownerMapping env.resolver field = .ok mapping ∧
        mapping.type? field = some type ∧ type.isAnalyzed = false) →
      ∀ fuel, (exec (nodeWithin env (fuel + 1) n) p).1 =
        .ok ((Fragment.term field (.str text) none).weighted (p.draft.arena.label n).boost)) := by
  refine ⟨?_, fun hunmarked env p n field hp hmode hkind hfield hequal hpath hanalyzer htype fuel => ?_⟩
  · rw [escapeText, String.toList_ofList, tokenKind_escape, String.ofList_toList]
  obtain ⟨settings, hanalyzer⟩ := hanalyzer
  obtain ⟨mapping, type, hmapping, htype, hwhole⟩ := htype
  have hexec : exec (nodeWithin env (fuel + 1) n) p = exec (predicate env (p.draft.arena.label n)) p :=
    exec_node_predicate (by rw [hkind]; rfl)
  rw [hexec]
  generalize p.draft.arena.label n = label at hkind hfield hequal hpath
  have hname : label.fieldName = field := by rw [Label.fieldName, hfield, Option.getD_some]
  have hsource : label.sourceText.toList = escape text.toList := by
    rw [Label.sourceText, hkind]
    exact String.toList_ofList
  have htext : label.text = text := by
    rw [Label.text, hkind]
    show Text.unescapeText (escapeText text) = text
    rw [Text.unescapeText, escapeText, String.toList_ofList, unescape_escape, String.ofList_toList]
  rw [← hname] at hmapping htype
  obtain ⟨q, htokens, hlooked⟩ := exec_phraseTokens_whole hp hanalyzer hmapping htype hwhole
    (hsource ▸ hunmarked.escape) (hsource ▸ escape_ne_backslash _)
  have hphrase := phrase_single ⟨hp, hmode, hpath⟩ hequal (by rw [hkind]; rfl) htokens hlooked
    (by rw [hsource, isMultiTerm_escape])
  rw [hname, htext] at hphrase
  unfold predicate
  rw [exec_bind, leaf_phrase (by rw [hkind]; rfl)]
  rcases hrun : exec (phrase env label) p with ⟨outcome, q'⟩
  rw [hrun] at hphrase
  obtain rfl : outcome = _ := hphrase
  rfl

/-- Books with a code that is not analyzed. -/
def codeSearch (query : Tree) : Setup where
  index := "books"
  request := { query := some query }
  resolver := some (Cluster.resolver { mappings := [
    ("books", (Mapping.keyed "books" "id").withField "code" { type := .keyword none })] })
  executor := some (Cluster.executor { documents := [("books", [])] })

/-- A code with all special characters, escaped. -/
def escapedCode : Tree := (Tree.escapedPhrase "code" (escapeText "C:\\*?~2")).withOperator .equal

/-- Whether all that is asked of an escaped phrase on the code holds of a node. -/
def isEscapedCode (compiler : Compiler) (n : Nat) : Bool :=
  let label := compiler.progress.draft.arena.label n
  !compiler.progress.aggregating && decide (label = escapedCode.label) && compiler.hasPath none label &&
    (compiler.progress.metadata.ownerMapping compiler.environment.resolver "code").toOption.any fun mapping =>
      (mapping.type? "code").any fun type => !type.isAnalyzed

/-- The code is asked for as it is. -/
theorem escaped_literally_escapedCode :
    tokenKind "C:\\\\\\*\\?\\~2".toList = .word (.str "C:\\*?~2") ∧
    ∃ compiler, (codeSearch escapedCode).start = .ok compiler ∧
      (exec (nodeWithin compiler.environment 1 0) compiler.progress).1 = .ok (.term "code" (.str "C:\\*?~2") none) := by
  have hrun : ((codeSearch escapedCode).start.toOption.any fun compiler => isEscapedCode compiler 0) = true := by
    decide +kernel
  simp only [Option.any_eq_true, toOption_eq_some, Bool.and_eq_true, Bool.not_eq_true', isEscapedCode,
    decide_eq_true_eq] at hrun
  obtain ⟨compiler, hstart, ⟨⟨hmode, hlabel⟩, hpath⟩, mapping, hmapping, type, htype, hwhole⟩ := hrun
  obtain ⟨hword, hcompiled⟩ := escaped_literally "C:\\*?~2"
  have hescaped : escapeText "C:\\*?~2" = "C:\\\\\\*\\?\\~2" := by decide +kernel
  rw [hescaped] at hword
  refine ⟨hword, compiler, hstart, ?_⟩
  have hanalyzer : compiler.environment.analyzer = (codeSearch escapedCode).settings.tokenizer.analyzer :=
    (Setup.started_of_ok hstart).analyzer_eq
  have hunmarked : IsUnmarked "C:\\*?~2".toList := by decide +kernel
  have hterm := hcompiled hunmarked (Setup.started_of_ok hstart).sound hmode (by rw [hlabel]; rfl)
    (by rw [hlabel]; rfl) (by rw [hlabel]; rfl) (Compiler.hasPath_iff.mp hpath)
    ⟨_, hanalyzer⟩ ⟨mapping, type, hmapping, htype, hwhole⟩ 0
  rw [hlabel] at hterm
  exact hterm

end Compile

end LinkedSearch
