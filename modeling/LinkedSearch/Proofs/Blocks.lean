import LinkedSearch.Cluster
import LinkedSearch.Compiler
import LinkedSearch.Proofs.Outcome

/-! # Blocks of values

A block of values is read back as what was written into it. A value is written with a backslash before each
character that would not be read as itself, and values are kept apart by delimiters.

* `Query.ArrayData.quote`: a value as it is written.
* `Query.ArrayData.block`, `Query.ArrayData.Separated`: values with delimiters before, between and after them.
* `valuesAfter_quote`, `valuesAfter_gap`: what is read of a value, and of the delimiters behind it.
* `Compile.block_decoded`: a block stands for the array of its values. -/

namespace LinkedSearch

open Query (Label Tree)
open Schema (Mapping)

namespace Query.ArrayData

variable {c : Char} {current value gap rest : List Char}

/-! ## Writing -/

/-- A character as it is written in a value. -/
def quoteChar (c : Char) : List Char := if c = '\\' ∨ c ∈ delimiters then ['\\', c] else [c]

/-- **Quoting**: a value with a backslash before each of its delimiters and backslashes. -/
def quote (value : List Char) : List Char := value.flatMap quoteChar

/-- **A block**: delimiters, and then values with the delimiters behind each of them. -/
def block (before : String) (items : List (String × String)) : String :=
  String.ofList (before.toList ++ items.flatMap fun (value, gap) => quote value.toList ++ gap.toList)

/-- A run of delimiters. -/
def IsGap (gap : List Char) : Prop := ∀ c ∈ gap, c ∈ delimiters

instance (gap : List Char) : Decidable (IsGap gap) := List.decidableBAll (· ∈ delimiters) gap

/-- **Separated** values: none is empty, nothing but delimiters stands around them, and between two of them there is
at least one. -/
structure Separated (before : String) (items : List (String × String)) : Prop where
  isGap_before : IsGap before.toList
  value_ne : ∀ item ∈ items, item.1 ≠ ""
  isGap : ∀ item ∈ items, IsGap item.2.toList
  gap_ne : ∀ item ∈ items.dropLast, item.2 ≠ ""

/-- The delimiters, one by one. -/
theorem mem_delimiters_iff : c ∈ delimiters ↔ c = ',' ∨ c = ' ' ∨ c = '\r' ∨ c = '\n' ∨ c = '\t' ∨ c = '\x0c' ∨
    c = '"' ∨ c = '\x27' ∨ c = '[' ∨ c = ']' := by
  simp [delimiters]

@[simp] theorem isGap_nil : IsGap [] := nofun

@[simp] theorem isGap_cons : IsGap (c :: gap) ↔ c ∈ delimiters ∧ IsGap gap := List.forall_mem_cons

/-! ## Reading -/

/-- Behind a backslash every character belongs to the value. -/
theorem valuesAfter_backslash (current : List Char) (c : Char) (rest : List Char) :
    valuesAfter current ('\\' :: c :: rest) = valuesAfter (c :: current) rest := by
  rw [valuesAfter]

/-- A delimiter ends the value. -/
theorem valuesAfter_delimiter (hc : c ∈ delimiters) (current rest : List Char) :
    valuesAfter current (c :: rest) = finished current ++ valuesAfter [] rest := by
  have hplain : c ≠ '\\' := by
    rintro rfl
    exact absurd hc (by decide)
  rw [valuesAfter, if_pos (List.contains_iff_mem.mpr hc)]
  · exact fun heq => absurd heq hplain
  · exact fun _ _ heq => absurd heq hplain

/-- Any other character belongs to the value. -/
theorem valuesAfter_plain (hplain : ¬(c = '\\' ∨ c ∈ delimiters)) (current rest : List Char) :
    valuesAfter current (c :: rest) = valuesAfter (c :: current) rest := by
  obtain ⟨hplain, hc⟩ := not_or.mp hplain
  rw [valuesAfter, if_neg (mt List.contains_iff_mem.mp hc)]
  · exact fun heq => absurd heq hplain
  · exact fun _ _ heq => absurd heq hplain

/-- **A value** that was written is read. -/
theorem valuesAfter_quote (current value rest : List Char) :
    valuesAfter current (quote value ++ rest) = valuesAfter (value.reverse ++ current) rest := by
  induction value generalizing current with
  | nil => rfl
  | cons c value ih =>
    have hchar : valuesAfter current (quoteChar c ++ (quote value ++ rest)) =
        valuesAfter (c :: current) (quote value ++ rest) := by
      unfold quoteChar
      split
      · exact valuesAfter_backslash current c _
      · next hplain => exact valuesAfter_plain hplain current _
    rw [quote, List.flatMap_cons, List.append_assoc, ← quote, hchar, ih, List.reverse_cons, List.append_assoc]
    rfl

/-- A value that is not empty is kept. -/
theorem finished_reverse (h : value ≠ []) : finished value.reverse = [value] := by
  rw [finished, List.isEmpty_reverse, if_neg (by simpa using h), List.reverse_reverse]

/-- Delimiters before a value are dropped. -/
theorem valuesAfter_nil_gap (hgap : IsGap gap) (rest : List Char) :
    valuesAfter [] (gap ++ rest) = valuesAfter [] rest := by
  induction gap with
  | nil => rfl
  | cons c gap ih =>
    obtain ⟨hc, hgap⟩ := isGap_cons.mp hgap
    rw [List.cons_append, valuesAfter_delimiter hc, ih hgap]
    rfl

/-- **A run of delimiters** ends the value before it. At the end of a text it may be empty. -/
theorem valuesAfter_gap (hgap : IsGap gap) (hne : gap ≠ [] ∨ rest = []) (current : List Char) :
    valuesAfter current (gap ++ rest) = finished current ++ valuesAfter [] rest := by
  cases gap with
  | nil =>
    obtain rfl : rest = [] := hne.resolve_left fun h => h rfl
    exact (List.append_nil _).symm
  | cons c gap =>
    obtain ⟨hc, hgap⟩ := isGap_cons.mp hgap
    rw [List.cons_append, valuesAfter_delimiter hc, valuesAfter_nil_gap hgap]

/-- **Separated values** are read one by one. -/
theorem valuesAfter_items {items : List (String × String)} (hvalues : ∀ item ∈ items, item.1 ≠ "")
    (hgaps : ∀ item ∈ items, IsGap item.2.toList) (hapart : ∀ item ∈ items.dropLast, item.2 ≠ "") :
    valuesAfter [] (items.flatMap fun (value, gap) => quote value.toList ++ gap.toList) =
      items.map (·.1.toList) := by
  induction items with
  | nil => rfl
  | cons item rest ih =>
    obtain ⟨hvalue, hvalues⟩ := List.forall_mem_cons.mp hvalues
    obtain ⟨hgap, hgaps⟩ := List.forall_mem_cons.mp hgaps
    -- only the last value may have nothing behind it
    obtain ⟨hne, hapart⟩ : (item.2.toList ≠ [] ∨ rest = []) ∧ ∀ item ∈ rest.dropLast, item.2 ≠ "" := by
      cases rest with
      | nil => exact ⟨.inr rfl, nofun⟩
      | cons next later =>
        rw [List.dropLast_cons_cons, List.forall_mem_cons] at hapart
        exact ⟨.inl (by simpa using hapart.1), hapart.2⟩
    have hrest := ih hvalues hgaps hapart
    have hend : item.2.toList ≠ [] ∨ (rest.flatMap fun (value, gap) => quote value.toList ++ gap.toList) = [] :=
      hne.imp_right fun h => by rw [h]; rfl
    rw [List.flatMap_cons, List.append_assoc, valuesAfter_quote, List.append_nil, valuesAfter_gap hgap hend,
      finished_reverse (by simpa using hvalue), hrest]
    rfl

/-- **A block is read back** as the values that were written. -/
theorem values_block {before : String} {items : List (String × String)} (h : Separated before items) :
    values (block before items) = items.map Prod.fst := by
  rw [values, block, String.toList_ofList, valuesAfter_nil_gap h.isGap_before,
    valuesAfter_items h.value_ne h.isGap h.gap_ne, List.map_map]
  exact List.map_congr_left fun item _ => String.ofList_toList

/-- No value is empty, whatever the text is. -/
theorem nil_notMem_valuesAfter (current text : List Char) : [] ∉ valuesAfter current text := by
  have hfinished : ∀ current : List Char, [] ∉ finished current := by
    intro current
    unfold finished
    split
    · exact List.not_mem_nil
    · next hne => simpa using hne
  induction current, text using valuesAfter.induct with
  | case1 current => exact hfinished current
  | case2 current => exact hfinished current
  | case3 current c rest ih => rwa [valuesAfter_backslash]
  | case4 current c rest hlast hbackslash hc ih =>
    rw [valuesAfter_delimiter (List.contains_iff_mem.mp hc), List.mem_append, not_or]
    exact ⟨hfinished current, ih⟩
  | case5 current c rest hlast hbackslash hc ih =>
    rw [valuesAfter, if_neg hc]
    · exact ih
    · exact hlast
    · exact hbackslash

end Query.ArrayData

/-! ## Predicates on blocks -/

namespace Query.Label

/-- The predicate that a field has one of some texts, or that it has none of them. -/
def withTexts (texts : List String) (label : Label) : Label :=
  { label with kind := .array (.literal (texts.map .str)) (label.operator == .notEqual) }

end Query.Label

namespace Compile

open Query.ArrayData (Separated block delimiters values)

variable {env : Environment} {p : Progress} {label : Label}

/-- The operators that a predicate on several values may have. -/
theorem validateOperator_eq_pure (h : label.operator ∈ [.equal, .notEqual, .contains]) :
    validateOperator label = pure () := by
  unfold validateOperator
  rcases (by simpa using h : _ ∨ _ ∨ _) with h | h | h <;> rw [h]

/-- A block that is there is read. -/
theorem exec_arrayData {key text : String} (h : Keyed.find? key p.draft.arrayData = some text) :
    exec (arrayData key) p = (.ok (values text), p) := by
  unfold arrayData
  rw [exec_get_bind, h]
  rfl

/-- A predicate on some texts. -/
theorem leaf_withTexts (h : label.operator ∈ [.equal, .notEqual, .contains]) (texts : List String) :
    leaf env (label.withTexts texts) = standard env label (.terms label.fieldName (texts.map .str) none none) := by
  have hkind : (label.withTexts texts).kind =
      .array (.literal (texts.map .str)) (label.operator == .notEqual) := rfl
  have hvalid : validateOperator (label.withTexts texts) = pure () := validateOperator_eq_pure h
  have hany : requiredValues (.literal (texts.map .str)) (label.operator == .notEqual)
      (label.withTexts texts).operator = none := by
    simp [requiredValues, Query.Label.withTexts]
  have hsame : ∀ base, standard env (label.withTexts texts) base = standard env label base := by
    intro base
    unfold standard
    -- with these operators the condition does not depend on the kind
    rcases (by simpa using h : _ ∨ _ ∨ _) with h | h | h
    all_goals
      rw [show (label.withTexts texts).operator = _ from h, h]
      rfl
  unfold leaf plainLeaf
  rw [hkind]
  simp only
  rw [hvalid, pure_bind, hany, hsame]
  rfl

/-- **A predicate on a block** is compiled as the one on its values. -/
theorem exec_leaf_arrayData {key text : String} (hkind : label.kind = .arrayData key)
    (hblock : Keyed.find? key p.draft.arrayData = some text)
    (hoperator : label.operator ∈ [.equal, .notEqual, .contains]) :
    exec (leaf env label) p = exec (leaf env (label.withTexts (values text))) p := by
  have hleft : leaf env label = (do
      let texts ← arrayData key
      standard env label (.terms label.fieldName (texts.map .str) none none)) := by
    unfold leaf plainLeaf
    rw [hkind]
    simp only
    rw [validateOperator_eq_pure hoperator, pure_bind]
  rw [hleft, exec_bind, exec_arrayData hblock, leaf_withTexts hoperator]

/-- **A block is decoded as it was written.** Whatever the values are, as long as none is empty, and however they are
separated by delimiters: a block of them, each with a backslash before its delimiters and backslashes, has exactly
these values, in their order. A predicate on it is then compiled as the one on the array of these texts, in any state
of any compilation. And no text at all has an empty value. -/
theorem block_decoded :
    (∀ c, c ∈ delimiters ↔ c = ',' ∨ c = ' ' ∨ c = '\r' ∨ c = '\n' ∨ c = '\t' ∨ c = '\x0c' ∨ c = '"' ∨ c = '\x27' ∨
      c = '[' ∨ c = ']') ∧
    (∀ {before : String} {items : List (String × String)}, Separated before items →
      values (block before items) = items.map Prod.fst ∧
      ∀ {env : Environment} {p : Progress} {label : Label} {key : String}, label.kind = .arrayData key →
        Keyed.find? key p.draft.arrayData = some (block before items) →
        label.operator ∈ [.equal, .notEqual, .contains] →
        exec (leaf env label) p = exec (leaf env (label.withTexts (items.map Prod.fst))) p) ∧
    ∀ text : String, "" ∉ values text := by
  refine ⟨fun c => Query.ArrayData.mem_delimiters_iff, fun h => ?_, fun text hempty => ?_⟩
  · have hvalues := Query.ArrayData.values_block h
    refine ⟨hvalues, fun hkind hblock hoperator => ?_⟩
    rw [exec_leaf_arrayData hkind hblock hoperator, hvalues]
  · obtain ⟨value, hvalue, hnil⟩ := List.mem_map.mp hempty
    obtain rfl : value = [] := by simpa using hnil
    exact Query.ArrayData.nil_notMem_valuesAfter [] text.toList hvalue

/-- Four values with what stands behind them. One is made of delimiters, and one is a backslash. -/
def shelfMarks : List (String × String) := [("a,b", ", "), ("\\", "\r\n"), ("[]", "'"), ("7", "")]

/-- Books with a mark that is not analyzed, and a block of marks. -/
def markSearch : Setup where
  index := "books"
  request := { query := some (.arrayData "mark" "marks"), arrayData := [("marks", "[a\\,b, \\\\\r\n\\[\\]'7")] }
  resolver := some (Cluster.resolver { mappings := [
    ("books", (Mapping.keyed "books" "id").withField "mark" { type := .keyword none })] })
  executor := some (Cluster.executor { documents := [("books", [])] })

/-- The four marks are asked for. -/
theorem block_decoded_shelfMarks :
    values "[a\\,b, \\\\\r\n\\[\\]'7" = ["a,b", "\\", "[]", "7"] ∧
    ∃ compiler, markSearch.start = .ok compiler ∧
      (exec (leaf compiler.environment (compiler.progress.draft.arena.label 0)) compiler.progress).1.isOk = true ∧
      exec (leaf compiler.environment (compiler.progress.draft.arena.label 0)) compiler.progress =
        exec (leaf compiler.environment
          ((compiler.progress.draft.arena.label 0).withTexts ["a,b", "\\", "[]", "7"])) compiler.progress := by
  have hblock : block "[" shelfMarks = "[a\\,b, \\\\\r\n\\[\\]'7" := by decide +kernel
  have hseparated : Separated "[" shelfMarks := ⟨by decide, by decide, by decide, by decide⟩
  have hrun : (markSearch.start.toOption.any fun compiler =>
      let label := compiler.progress.draft.arena.label 0
      decide (label.kind = .arrayData "marks") && decide (label.operator = .contains) &&
        decide (Keyed.find? "marks" compiler.progress.draft.arrayData = some "[a\\,b, \\\\\r\n\\[\\]'7") &&
        (exec (leaf compiler.environment label) compiler.progress).1.isOk) = true := by
    decide +kernel
  simp only [Option.any_eq_true, toOption_eq_some, Bool.and_eq_true, decide_eq_true_eq] at hrun
  obtain ⟨compiler, hstart, ⟨⟨hkind, hoperator⟩, hfound⟩, hok⟩ := hrun
  obtain ⟨hvalues, hleaf⟩ := block_decoded.2.1 hseparated
  rw [hblock] at hvalues hleaf
  exact ⟨hvalues, compiler, hstart, hok, hleaf hkind hfound (by rw [hoperator]; simp)⟩

end Compile

end LinkedSearch
