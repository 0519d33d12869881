import LinkedSearch.Proofs.Meaning
import LinkedSearch.Proofs.Negating

/-! # Arrays as quantifiers

An array of values asks for some of its values or for all of them. It is compiled to a condition on terms
with a least number of them, and negated for "not equal"; which of the two numbers is needed depends on both.

* `Query.Quantified`, `Query.Accepted`: what an array means.
* `Query.Values.Miscounted`: where the number of hits of a scan is taken for the number of its values.
* `arrayCondition`, `exec_plainLeaf_array`: what an array is compiled to.
* `nodeWithin_quantified`: the documents that it matches. -/

namespace LinkedSearch

open Query (Kind Label Operator Tree Values)

namespace Query

/-- **Quantifying** over values: every one of them, or some. -/
def Quantified (conjunctive : Bool) (values : List Json) (P : Json → Prop) : Prop :=
  if conjunctive then ∀ value ∈ values, P value else ∃ value ∈ values, P value

/-- **Accepting** a value: it matches the field of a document, or, for "not equal", it does not. -/
def Accepted (operator : Operator) (field : String) (document value : Json) : Prop :=
  if operator = .notEqual then (Fragment.term field value none).holds document = false
  else (Fragment.term field value none).holds document = true

/-- **Miscounting**: as many values are asked for as a scan had hits. All of the values may match and still
be too few, and some of them may be enough. -/
def Values.Miscounted (values : Values) (matching : Nat) : Prop :=
  matching = values.list.length ∧ matching < values.count ∨
    0 < matching ∧ matching < values.list.length ∧ values.count ≤ matching

/-- Nothing is miscounted where the values are as many as they are counted. -/
theorem Values.not_miscounted {values : Values} (h : values.count = values.list.length) (matching : Nat) :
    ¬values.Miscounted matching := by
  unfold Miscounted
  omega

/-- The count of the values says whether all of them match, unless they are miscounted. -/
theorem Values.reaches_count_iff {values : Values} (hvalues : values.list ≠ []) {matching : Nat}
    (hle : matching ≤ values.list.length) :
    ((0 < matching ∧ values.count ≤ matching) ↔ matching = values.list.length) ↔
      ¬values.Miscounted matching := by
  have hpos : 0 < values.list.length := List.length_pos_iff.mpr hvalues
  unfold Miscounted
  omega

end Query

namespace Compile

open Query (Accepted Quantified)

variable {env : Environment} {p : Progress} {label : Label} {n fuel : Nat} {field : String}

/-! ## What an array means -/

/-- How many of some values match the field of a document. -/
def matchingValues (field : String) (values : List Json) (document : Json) : Nat :=
  values.countP fun value => (Fragment.term field value none).holds document

theorem matchingValues_le (field : String) (values : List Json) (document : Json) :
    matchingValues field values document ≤ values.length :=
  List.countP_le_length

/-- A condition on terms looks at how many of them match. -/
theorem holds_terms_iff (values : List Json) (least : Option Nat) (boost : Boost) (document : Json) :
    (Fragment.terms field values least boost).holds document = true ↔
      0 < matchingValues field values document ∧
        least.getD 1 ≤ matchingValues field values document := by
  simp [Fragment.holds, matchingValues]

/-- **A quantifier as a number**: some values match if at least one does, and all of them if their number
does. For "not equal" it is the other way round. -/
theorem quantified_iff (conjunctive : Bool) (operator : Operator) (values : List Json) (document : Json) :
    Quantified conjunctive values (Accepted operator field document) ↔
      (if operator = .notEqual then
        ¬(if conjunctive then 0 < matchingValues field values document
          else matchingValues field values document = values.length)
      else
        if conjunctive then matchingValues field values document = values.length
        else 0 < matchingValues field values document) := by
  unfold Quantified Accepted matchingValues
  by_cases hne : operator = .notEqual
  · simp only [if_pos hne]
    cases conjunctive with
    | false => simp [List.countP_eq_length]
    | true => simp [List.countP_pos_iff]
  · simp only [if_neg hne]
    cases conjunctive with
    | false => simp [List.countP_pos_iff]
    | true => simp [List.countP_eq_length]

/-! ## What it is compiled to -/

/-- The condition of an array: enough of the terms, or, for "not equal", not enough of them. -/
def arrayCondition (field : String) (values : Values) (conjunctive : Bool) (operator : Operator) : Fragment :=
  let terms := .terms field values.list (requiredValues values conjunctive operator) none
  if operator = .notEqual then terms.not else terms

/-- **An array** of a valid operator becomes its condition. -/
theorem exec_plainLeaf_array (h : Bare env p label) {values : Values} {conjunctive : Bool}
    (hkind : label.kind = .array values conjunctive)
    (hoperator : label.operator ∈ [Operator.equal, .contains, .notEqual]) :
    (exec (plainLeaf env label) p).1 =
      .ok (arrayCondition label.fieldName values conjunctive label.operator) := by
  unfold plainLeaf arrayCondition
  rw [hkind]
  simp only [List.mem_cons, List.not_mem_nil, or_false] at hoperator
  -- the three operators pass the check, and each of them has its own condition
  rcases hoperator with heq | heq | heq
  all_goals
    unfold validateOperator standard
    simp only [heq, pure_bind]
    exact h.nest _

/-- **When the condition of an array quantifies** over the values: for the documents for which the number of
values that it asks for is not miscounted. -/
theorem holds_arrayCondition_iff {values : Values} (field : String) (conjunctive : Bool) (operator : Operator)
    (hvalues : values.list ≠ []) (document : Json) :
    ((arrayCondition field values conjunctive operator).holds document = true ↔
      Quantified conjunctive values.list (Accepted operator field document)) ↔
      ¬(conjunctive ≠ (operator == .notEqual) ∧
        values.Miscounted (matchingValues field values.list document)) := by
  have hcount := Values.reaches_count_iff hvalues (matchingValues_le field values.list document)
  have hnot : ∀ F : Fragment, F.not.holds document = true ↔ ¬F.holds document = true := by
    intro F
    simp [Fragment.not, Fragment.holds]
  rw [quantified_iff]
  unfold arrayCondition requiredValues
  by_cases hne : operator = .notEqual
  · rw [if_pos hne, if_pos hne, hnot, holds_terms_iff, hne, not_iff_not]
    cases conjunctive with
    | false => simpa using hcount
    | true => simp [Nat.one_le_iff_ne_zero, Nat.pos_iff_ne_zero]
  · rw [if_neg hne, if_neg hne, holds_terms_iff, beq_eq_false_iff_ne.mpr hne]
    cases conjunctive with
    | false => simp [Nat.one_le_iff_ne_zero, Nat.pos_iff_ne_zero]
    | true => simpa using hcount

/-- **When an array of values quantifies over them**, at any moment of any compilation of a query, and for
every array of at least one value that has no nested path, with the operator for "equal", "contains" or "not
equal" and with any boost. It is always compiled. If its values were written in the query, or if its
quantifier needs no count, or if the scan that has found its values had as many hits as it has found values,
then for every document it asks that some value, or every value, matches the field, or does not match it for
"not equal". In general it does so for exactly the documents for which the hits are not miscounted. -/
theorem nodeWithin_quantified (hp : Sound env p) (hmode : p.aggregating = false) {values : Values}
    {conjunctive : Bool} (hkind : (p.draft.arena.label n).kind = .array values conjunctive)
    (hvalues : values.list ≠ [])
    (hoperator : (p.draft.arena.label n).operator ∈ [Operator.equal, .contains, .notEqual])
    (hpath : p.metadata.pathOf env.resolver (p.draft.arena.label n) = .ok none) :
    ∃ F, (exec (nodeWithin env (fuel + 1) n) p).1 = .ok F ∧
      (values.isExternal = false ∨ conjunctive = ((p.draft.arena.label n).operator == .notEqual) ∨
          values.count = values.list.length → ∀ document, F.holds document = true ↔
            Quantified conjunctive values.list (Accepted (p.draft.arena.label n).operator
              (p.draft.arena.label n).fieldName document)) ∧
      ∀ document,
        ((F.holds document = true ↔
            Quantified conjunctive values.list (Accepted (p.draft.arena.label n).operator
              (p.draft.arena.label n).fieldName document)) ↔
          ¬(conjunctive ≠ ((p.draft.arena.label n).operator == .notEqual) ∧
            values.Miscounted
              (matchingValues (p.draft.arena.label n).fieldName values.list document))) := by
  have hexec : exec (nodeWithin env (fuel + 1) n) p = exec (predicate env (p.draft.arena.label n)) p :=
    exec_node_predicate (by rw [hkind]; rfl)
  have hplain : leaf env (p.draft.arena.label n) = plainLeaf env (p.draft.arena.label n) := by
    unfold leaf
    rw [hkind]
  have hcompiled := exec_plainLeaf_array ⟨hp, hmode, hpath⟩ hkind hoperator
  have hholds := fun document => holds_arrayCondition_iff (p.draft.arena.label n).fieldName
    conjunctive (p.draft.arena.label n).operator hvalues document
  rw [hexec]
  unfold predicate
  rw [exec_bind, hplain]
  rcases hleaf : exec (plainLeaf env (p.draft.arena.label n)) p with ⟨outcome, q⟩
  rw [hleaf] at hcompiled
  obtain rfl := hcompiled
  refine ⟨_, rfl, fun hcounted document => ?_, fun document => ?_⟩
  · rw [Fragment.holds_weighted]
    refine (hholds document).mpr ?_
    rintro ⟨hneeds, hmiscounted⟩
    rcases hcounted with hliteral | hneedless | hcount
    · refine Values.not_miscounted ?_ _ hmiscounted
      cases values with
      | literal values => rfl
      | external values hits => exact absurd hliteral (by simp [Values.isExternal])
    · exact hneeds hneedless
    · exact Values.not_miscounted hcount _ hmiscounted
  · rw [Fragment.holds_weighted]
    exact hholds document

/-- Two titles, all of which are asked for, and which were found in as many hits as given. -/
def titleArray (hits : Nat) : Tree :=
  (Tree.leaf "title" (.array (.external [.str "Emma", .str "Persuasion"] hits) true)).withOperator .equal

/-- A book with two titles. -/
def twoTitles : Json := .obj [("title", .arr [.str "Emma", .str "Persuasion"])]

/-- Whether all that is asked of an array holds of a node. -/
def isQuantifier (compiler : Compiler) (n : Nat) : Bool :=
  let label := compiler.progress.draft.arena.label n
  !compiler.progress.aggregating && decide (label = (titleArray 2).label) && compiler.hasPath none label

/-- With two hits for the two titles the book with both of them matches, as it should. -/
theorem nodeWithin_quantified_titleArray : ∃ compiler F,
    (Compiler.itemSearch (titleArray 2)).start = .ok compiler ∧
    (exec (nodeWithin compiler.environment 1 0) compiler.progress).1 = .ok F ∧
    F.holds twoTitles = true ∧
    ∀ document, F.holds document = true ↔
      Quantified true [.str "Emma", .str "Persuasion"] (Accepted .equal "title" document) := by
  have hrun : ((Compiler.itemSearch (titleArray 2)).start.toOption.any fun compiler =>
      isQuantifier compiler 0 &&
        (exec (nodeWithin compiler.environment 1 0) compiler.progress).1.toOption.any
          (·.holds twoTitles)) = true := by
    decide +kernel
  simp only [Option.any_eq_true, toOption_eq_some, Bool.and_eq_true, Bool.not_eq_true', isQuantifier,
    decide_eq_true_eq] at hrun
  obtain ⟨compiler, hstart, ⟨⟨hmode, hlabel⟩, hpath⟩, F, hF, hholds⟩ := hrun
  have hkind : (compiler.progress.draft.arena.label 0).kind =
      .array (.external [.str "Emma", .str "Persuasion"] 2) true := by
    rw [hlabel]
    rfl
  have hcompiled : ∃ G, (exec (nodeWithin compiler.environment 1 0) compiler.progress).1 = .ok G ∧ _ :=
    nodeWithin_quantified (Setup.started_of_ok hstart).sound hmode hkind (by simp)
      (by rw [hlabel]; decide) (Compiler.hasPath_iff.mp hpath)
  obtain ⟨G, hG, hquantified, -⟩ := hcompiled
  obtain rfl := Except.ok.inj (hF.symm.trans hG)
  rw [hlabel] at hquantified
  exact ⟨compiler, F, hstart, hF, hholds, hquantified (.inr (.inr rfl))⟩

/-- **Two titles that were found in three hits**: the query for all of them does not find the book that has
both. -/
theorem not_quantified_titleArray : ∃ compiler F,
    (Compiler.itemSearch (titleArray 3)).start = .ok compiler ∧ compiler.query.1 = .ok F ∧
    compiler.hasPath none (titleArray 3).label = true ∧ F.holds twoTitles = false ∧
    Quantified true [.str "Emma", .str "Persuasion"] (Accepted .equal "title" twoTitles) := by
  have hrun : ((Compiler.itemSearch (titleArray 3)).start.toOption.any fun compiler =>
      compiler.query.1.toOption.any fun F =>
        compiler.hasPath none (titleArray 3).label && !F.holds twoTitles) = true := by
    decide +kernel
  have hboth : matchingValues "title" [.str "Emma", .str "Persuasion"] twoTitles = 2 := by decide +kernel
  simp only [Option.any_eq_true, toOption_eq_some, Bool.and_eq_true, Bool.not_eq_true'] at hrun
  obtain ⟨compiler, hstart, F, hF, hpath, hholds⟩ := hrun
  refine ⟨compiler, F, hstart, hF, hpath, hholds, ?_⟩
  rw [quantified_iff]
  simp [hboth]

end Compile

end LinkedSearch
