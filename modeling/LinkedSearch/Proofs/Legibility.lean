import LinkedSearch.Fragment.Render
import LinkedSearch.Proofs.Readers
import LinkedSearch.Proofs.Weighting

/-! # What rendered fragments show

A fragment can be told from its rendered form, with one exception: the options of a terms fragment stand
beside its field, so that they overwrite the values of a field with the name of an option. All other fragments
write their options below the field, or have no field that is chosen by a query.

* `Fragment.hides`: whether the values of a terms fragment are overwritten.
* `Fragment.every`: what is true of all fragments inside of a fragment.
* `Fragment.isPlain`, `Fragment.isLegible`: finite boosts and scalar values, and no overwritten values.
* `Fragment.shown`: what is left of a fragment without what is overwritten.
* `Fragment.Kin`: fragments of one kind, which is the only key of a rendered fragment.
* `Fragment.toJson_eq_iff`: plain fragments have one rendered form if they show the same. -/

namespace LinkedSearch

open Number (Binary Finite)

/-! ## Records -/

namespace Keyed

variable {α : Type}

/-- The first key of an ascending table is not a key of one that starts after it. -/
theorem find?_eq_none_of_lt {key first : String} {value : α} {table : List (String × α)}
    (ascending : Ascending ((first, value) :: table)) (hlt : key < first) :
    find? key ((first, value) :: table) = none := by
  refine find?_eq_none fun hmem => ?_
  rcases List.mem_cons.mp hmem with rfl | hmem
  · exact String.lt_irrefl _ hlt
  · exact String.lt_irrefl _ (String.lt_trans hlt (((ascending_cons first value table).mp ascending).1 _ hmem))

/-- **Tables in which the same is found** are equal. -/
theorem Ascending.ext {table table' : List (String × α)} (h : Ascending table) (h' : Ascending table')
    (hfind : ∀ key, find? key table = find? key table') : table = table' := by
  induction table generalizing table' with
  | nil =>
    cases table' with
    | nil => rfl
    | cons entry' rest' => simpa [find?] using hfind entry'.1
  | cons entry rest ih =>
    obtain ⟨key, value⟩ := entry
    cases table' with
    | nil => simpa using hfind key
    | cons entry' rest' =>
      obtain ⟨key', value'⟩ := entry'
      obtain ⟨hfirst, hrest⟩ := (ascending_cons key value rest).mp h
      obtain ⟨hfirst', hrest'⟩ := (ascending_cons key' value' rest').mp h'
      -- of two different first keys, the lesser one is not in the other table
      rcases Std.lt_trichotomy key key' with hlt | rfl | hlt
      · have hfound := hfind key
        rw [find?_eq_none_of_lt h' hlt] at hfound
        simp at hfound
      · obtain rfl : value = value' := by simpa using hfind key
        refine congrArg _ (ih hrest hrest' fun other => ?_)
        by_cases hother : key = other
        · subst hother
          rw [find?_eq_none fun hmem => String.lt_irrefl _ (hfirst _ hmem),
            find?_eq_none fun hmem => String.lt_irrefl _ (hfirst' _ hmem)]
        · simpa [hother] using hfind other
      · have hfound := hfind key'
        rw [find?_eq_none_of_lt h hlt] at hfound
        simp at hfound

end Keyed

namespace Json

/-- Values that are neither lists nor objects. -/
def isScalar : Json → Bool
  | .arr _ | .obj _ => false
  | _ => true

theorem single_inj {key key' : String} {value value' : Json} :
    single key value = single key' value' ↔ key = key' ∧ value = value' := by
  simp [single]

/-- **Records with the same names** are equal only if they have the same values. -/
theorem values_eq_of_ofPresent {members others : List (String × Option Json)}
    (h : ofPresent members = ofPresent others) (hnames : Keyed.keys members = Keyed.keys others)
    (distinct : (Keyed.keys members).Nodup) : members.map Prod.snd = others.map Prod.snd := by
  have hfields := fields?_ofPresent members distinct
  rw [h, hnames, fields?_ofPresent others (hnames ▸ distinct)] at hfields
  exact (Option.some.inj hfields).symm

/-- The member that a record is written with last replaces an earlier one of its name. -/
theorem get?_ofPresent_concat (members : List (String × Option Json)) (name : String) (value : Option Json)
    (key : String) : (ofPresent (members ++ [(name, value)])).get? key =
      (if name = key then value else none).or ((ofPresent members).get? key) := by
  cases value with
  | none => simp [ofPresent, List.filterMap_append]
  | some value =>
    simp only [ofPresent, ofMembers, List.filterMap_append, get?_obj, Keyed.ofList, Keyed.extend,
      List.foldl_append, List.filterMap_cons, List.filterMap_nil, Option.map_some, List.foldl_cons,
      List.foldl_nil, Keyed.find?_insert]
    split <;> rfl

/-- Records in which the same is found are equal. -/
theorem ofPresent_ext {members others : List (String × Option Json)}
    (h : ∀ key, (ofPresent members).get? key = (ofPresent others).get? key) :
    ofPresent members = ofPresent others :=
  congrArg obj (Keyed.Ascending.ext (Keyed.ascending_ofList _) (Keyed.ascending_ofList _) h)

/-- Lists of texts can be told from each other. -/
theorem ofStrings_inj {texts texts' : List String} : ofStrings texts = ofStrings texts' ↔ texts = texts' := by
  simp [ofStrings, List.map_inj_right]

theorem ofNat_inj {m n : Nat} : ofNat m = ofNat n ↔ m = n := by simp [ofNat]

end Json

/-- **Finite boosts**: none, or a finite number. -/
def Boost.isFinite (boost : Boost) : Bool := boost.all (·.isFinite)

/-- Finite boosts can be told from their members. -/
theorem Boost.toJson_inj {boost boost' : Boost} (hfinite : boost.isFinite = true)
    (hfinite' : boost'.isFinite = true) : boost.toJson = boost'.toJson ↔ boost = boost' := by
  refine ⟨fun h => ?_, congrArg _⟩
  rcases boost with _ | _ | _ | x <;> rcases boost' with _ | _ | _ | x' <;>
    simp_all [Boost.isFinite, Binary.isFinite, Boost.toJson, Json.ofBinary]

/-- **Conditions on one field** can be told from each other if their values are scalars. -/
theorem eq_of_fieldCondition {kind field field' key : String} {value value' : Json} {boost boost' : Boost}
    (h : fieldCondition kind field key value boost = fieldCondition kind field' key value' boost')
    (hkey : key ≠ "boost") (hvalue : value.isScalar = true) (hvalue' : value'.isScalar = true) :
    field = field' ∧ value = value' ∧ boost.toJson = boost'.toJson := by
  unfold fieldCondition at h
  rw [Json.single_inj, Json.single_inj] at h
  obtain ⟨-, hfield, h⟩ := h
  refine ⟨hfield, ?_⟩
  -- a value that stands alone is a scalar, and one beside a boost is in a record
  cases hweight : boost.toJson with
  | none =>
    cases hweight' : boost'.toJson with
    | none =>
      rw [hweight, hweight'] at h
      exact ⟨h, rfl⟩
    | some weight' =>
      rw [hweight, hweight'] at h
      simp only at h
      rw [h] at hvalue
      exact absurd hvalue (by simp [Json.ofMembers, Json.isScalar])
  | some weight =>
    cases hweight' : boost'.toJson with
    | none =>
      rw [hweight, hweight'] at h
      simp only at h
      rw [← h] at hvalue'
      exact absurd hvalue' (by simp [Json.ofMembers, Json.isScalar])
    | some weight' =>
      rw [hweight, hweight'] at h
      have hvalues := @Json.values_eq_of_ofPresent [(key, some value), ("boost", some weight)]
        [(key, some value'), ("boost", some weight')] h rfl (by simp [Keyed.keys, hkey])
      simpa using hvalues

/-- **Conditions on a text** can be told from each other. -/
theorem eq_of_textCondition {kind field field' key text text' : String} {boost boost' : Boost}
    (h : fieldCondition kind field key (.str text) boost = fieldCondition kind field' key (.str text') boost')
    (hkey : key ≠ "boost") (hfinite : boost.isFinite = true) (hfinite' : boost'.isFinite = true) :
    field = field' ∧ text = text' ∧ boost = boost' := by
  obtain ⟨hfield, htext, hboost⟩ := eq_of_fieldCondition h hkey rfl rfl
  exact ⟨hfield, Json.str.inj htext, (Boost.toJson_inj hfinite hfinite').mp hboost⟩

/-- **Conditions on other documents** can be told from each other by their queries. -/
theorem eq_of_wrapper {kind label name name' : String} {query query' : Json} {boost boost' : Boost}
    (h : Json.single kind (.ofPresent [(label, some (.str name)), ("query", some query), ("boost", boost.toJson)]) =
      .single kind (.ofPresent [(label, some (.str name')), ("query", some query'), ("boost", boost'.toJson)]))
    (hlabel : label ∉ ["query", "boost"]) (hfinite : boost.isFinite = true)
    (hfinite' : boost'.isFinite = true) : name = name' ∧ query = query' ∧ boost = boost' := by
  have hvalues := Json.values_eq_of_ofPresent (Json.single_inj.mp h).2 rfl (by simp_all [Keyed.keys])
  simpa [Boost.toJson_inj hfinite hfinite'] using hvalues

/-- Lists of clauses can be told from each other. -/
theorem clauseList_inj {clauses clauses' : List Json} :
    clauseList clauses = clauseList clauses' ↔ clauses = clauses' := by
  cases clauses <;> cases clauses' <;> simp [clauseList]

theorem toString_inj {m n : Nat} : toString m = toString n ↔ m = n := by
  refine ⟨fun h => ?_, congrArg _⟩
  rw [Nat.toString_eq_ofList_toDigits, Nat.toString_eq_ofList_toDigits, String.ofList_inj] at h
  rw [← Nat.ofDigitChars_ten_toDigits (n := m), h, Nat.ofDigitChars_ten_toDigits]

/-! ## Overwritten values -/

namespace Fragment

/-- The options beside the field of a terms fragment. -/
def option? (least : Option Nat) (boost : Boost) (key : String) : Option Json :=
  if key = "boost" then boost.toJson
  else if key = "minimum_should_match" then least.map fun least => .str (toString least)
  else none

/-- **Overwritten values**: whether the field of a terms fragment has the name of an option that it has. -/
def hides (field : String) (least : Option Nat) (boost : Boost) : Bool :=
  (field = "boost" && boost.isSome) || (field = "minimum_should_match" && least.isSome)

theorem hides_eq_isSome_option? (field : String) (least : Option Nat) (boost : Boost) :
    hides field least boost = (option? least boost field).isSome := by
  unfold hides option?
  by_cases hboost : field = "boost"
  · simp [hboost, Boost.toJson]
  · by_cases hleast : field = "minimum_should_match" <;> simp [hboost, hleast]

/-- No option is a list. -/
theorem option?_ne_arr (least : Option Nat) (boost : Boost) (key : String) (values : List Json) :
    option? least boost key ≠ some (.arr values) := by
  unfold option?
  split
  · rcases boost with _ | _ | _ | x <;> simp [Boost.toJson, Json.ofBinary]
  · split <;> cases least <;> simp

/-- Options can be told from what is found under their names. -/
theorem eq_of_option? {least least' : Option Nat} {boost boost' : Boost} (hfinite : boost.isFinite = true)
    (hfinite' : boost'.isFinite = true) (h : option? least boost = option? least' boost') :
    least = least' ∧ boost = boost' := by
  have hboost := congrFun h "boost"
  have hleast := congrFun h "minimum_should_match"
  simp only [option?, if_true, if_neg (show "minimum_should_match" ≠ "boost" by decide)] at hboost hleast
  refine ⟨?_, (Boost.toJson_inj hfinite hfinite').mp hboost⟩
  cases least with
  | none => cases least' <;> simp_all
  | some n =>
    cases least' with
    | none => simp at hleast
    | some n' => exact congrArg some (toString_inj.mp (Json.str.inj (Option.some.inj hleast)))

/-- **A rendered terms fragment** has its options, and its values if its field is not one of these. -/
theorem get?_terms (field : String) (values : List Json) (least : Option Nat) (boost : Boost) (key : String) :
    ((Fragment.terms field values least boost).toJson.get? "terms").bind (·.get? key) =
      (option? least boost key).or (if field = key then some (.arr values) else none) := by
  -- members are written in this order, so what is found is what was written last under the key
  have hlast := Json.get?_ofPresent_concat [(field, some (.arr values)),
    ("minimum_should_match", least.map fun least => .str (toString least))] "boost" boost.toJson key
  have hmiddle := Json.get?_ofPresent_concat [(field, some (.arr values))] "minimum_should_match"
    (least.map fun least => .str (toString least)) key
  have hfirst := Json.get?_ofPresent_concat [] field (some (.arr values)) key
  rw [List.cons_append, List.nil_append] at hmiddle
  rw [List.nil_append, show (Json.ofPresent []).get? key = none from rfl, Option.or_none] at hfirst
  rw [Fragment.toJson, Json.get?_single, Option.bind_some]
  refine hlast.trans ?_
  rw [hmiddle, hfirst, ← Option.or_assoc]
  congr 1
  by_cases hboost : key = "boost"
  · subst hboost
    simp [option?]
  · simp [option?, hboost, Ne.symm hboost, eq_comm]

theorem or_values_of_hides {field : String} {least : Option Nat} {boost : Boost}
    (hhides : hides field least boost = true) (values : List Json) (key : String) :
    (option? least boost key).or (if field = key then some (.arr values) else none) =
      option? least boost key := by
  rw [hides_eq_isSome_option?] at hhides
  split
  · next hkey =>
    subst hkey
    exact Option.or_of_isSome hhides
  · exact Option.or_none

/-- Terms fragments in which the same is found have the same rendered form. -/
theorem toJson_terms_ext {field field' : String} {values values' : List Json} {least least' : Option Nat}
    {boost boost' : Boost}
    (h : ∀ key, (option? least boost key).or (if field = key then some (.arr values) else none) =
      (option? least' boost' key).or (if field' = key then some (.arr values') else none)) :
    (Fragment.terms field values least boost).toJson = (Fragment.terms field' values' least' boost').toJson := by
  simp only [← get?_terms, Fragment.toJson, Json.get?_single, Option.bind_some] at h
  rw [Fragment.toJson, Fragment.toJson, Json.ofPresent_ext h]

/-- **A terms fragment that shows its values** can be told from all others. -/
theorem terms_inj_of_not_hides {field field' : String} {values values' : List Json}
    {least least' : Option Nat} {boost boost' : Boost} (hfinite : boost.isFinite = true)
    (hfinite' : boost'.isFinite = true) (hshows : hides field least boost = false)
    (h : ∀ key, (option? least boost key).or (if field = key then some (.arr values) else none) =
      (option? least' boost' key).or (if field' = key then some (.arr values') else none)) :
    field = field' ∧ values = values' ∧ least = least' ∧ boost = boost' := by
  rw [hides_eq_isSome_option?, Option.isSome_eq_false_iff, Option.isNone_iff_eq_none] at hshows
  have hfield := h field
  rw [hshows, if_pos rfl, Option.none_or] at hfield
  -- What is found under the field is a list, so it is no option of the other fragment either.
  cases hoption : option? least' boost' field with
  | some value =>
    rw [hoption, Option.some_or] at hfield
    exact absurd (hoption.trans hfield.symm) (option?_ne_arr least' boost' field values)
  | none =>
    rw [hoption, Option.none_or] at hfield
    split at hfield
    · next hfields =>
      subst hfields
      obtain rfl : values = values' := by simpa using hfield
      have hoptions : option? least boost = option? least' boost' := by
        funext key
        by_cases hkey : field' = key
        · subst hkey
          rw [hshows, hoption]
        · simpa [hkey] using h key
      obtain ⟨hleast, hboost⟩ := eq_of_option? hfinite hfinite' hoptions
      exact ⟨rfl, rfl, hleast, hboost⟩
    · simp at hfield

/-- The values of a terms fragment are **present** in its rendered form unless they are overwritten. -/
theorem values_present_iff (field : String) (values : List Json) (least : Option Nat) (boost : Boost) :
    ((Fragment.terms field values least boost).toJson.get? "terms").bind (·.get? field) =
      some (.arr values) ↔ hides field least boost = false := by
  rw [get?_terms, if_pos rfl, hides_eq_isSome_option?]
  cases hoption : option? least boost field with
  | none => simp
  | some value =>
    refine ⟨fun h => absurd (hoption.trans ?_) (option?_ne_arr least boost field values), nofun⟩
    simpa using h

/-- A terms fragment without what is overwritten in its rendered form: neither the values are left nor which of
its options is the field. -/
def shownTerms (field : String) (values : List Json) (least : Option Nat) (boost : Boost) : Fragment :=
  if hides field least boost then
    .terms (if boost.isSome then "boost" else "minimum_should_match") [] least boost
  else .terms field values least boost

/-- What is overwritten does not change the rendered form. -/
theorem toJson_shownTerms (field : String) (values : List Json) (least : Option Nat) (boost : Boost) :
    (shownTerms field values least boost).toJson = (Fragment.terms field values least boost).toJson := by
  unfold shownTerms
  split
  · next hhides =>
    refine toJson_terms_ext fun key => ?_
    have hshown : hides (if boost.isSome then "boost" else "minimum_should_match") least boost = true := by
      cases boost <;> cases least <;> simp_all [hides]
    rw [or_values_of_hides hhides, or_values_of_hides hshown]
  · rfl

/-- **Terms fragments with the same rendered form** are equal, up to what is overwritten. -/
theorem shownTerms_eq {field field' : String} {values values' : List Json} {least least' : Option Nat}
    {boost boost' : Boost} (hfinite : boost.isFinite = true) (hfinite' : boost'.isFinite = true)
    (h : (Fragment.terms field values least boost).toJson = (Fragment.terms field' values' least' boost').toJson) :
    shownTerms field values least boost = shownTerms field' values' least' boost' := by
  have hfound : ∀ key, _ := fun key => congrArg (fun body => (body.get? "terms").bind (·.get? key)) h
  simp only [get?_terms] at hfound
  by_cases hhides : hides field least boost = true ∧ hides field' least' boost' = true
  · -- Both show their options, and nothing else.
    obtain ⟨hhides, hhides'⟩ := hhides
    have hoptions : option? least boost = option? least' boost' := by
      funext key
      have hkey := hfound key
      rwa [or_values_of_hides hhides, or_values_of_hides hhides'] at hkey
    obtain ⟨rfl, rfl⟩ := eq_of_option? hfinite hfinite' hoptions
    rw [shownTerms, shownTerms, if_pos hhides, if_pos hhides']
  · -- One of them shows its values, so the other one does, and nothing is lost in either.
    obtain ⟨rfl, rfl, rfl, rfl⟩ : field = field' ∧ values = values' ∧ least = least' ∧ boost = boost' := by
      rcases not_and_or.mp hhides with hshows | hshows
      · exact terms_inj_of_not_hides hfinite hfinite' (Bool.eq_false_iff.mpr hshows) hfound
      · obtain ⟨hfield, hvalues, hleast, hboost⟩ :=
          terms_inj_of_not_hides hfinite' hfinite (Bool.eq_false_iff.mpr hshows) fun key => (hfound key).symm
        exact ⟨hfield.symm, hvalues.symm, hleast.symm, hboost.symm⟩
    rfl

end Fragment

/-! ## Fragments inside of a fragment -/

mutual

/-- Whether a test passes for a fragment and **for all fragments inside of it**. -/
def Fragment.every (test : Fragment → Bool) : Fragment → Bool
  | .bool must should mustNot least boost =>
    test (.bool must should mustNot least boost) && Fragment.everyOf test must
      && Fragment.everyOf test should && Fragment.everyOf test mustNot
  | .nested path query boost => test (.nested path query boost) && query.every test
  | .hasChild typeName query boost => test (.hasChild typeName query boost) && query.every test
  | .hasParent typeName query boost => test (.hasParent typeName query boost) && query.every test
  | .constantScore filter boost => test (.constantScore filter boost) && filter.every test
  | .span condition => condition.every test
  | fragment => test fragment

/-- Whether a test passes for some fragments and for all fragments inside of these. -/
def Fragment.everyOf (test : Fragment → Bool) : List Fragment → Bool
  | [] => true
  | fragment :: rest => fragment.every test && Fragment.everyOf test rest

/-- Whether a test passes for a condition on word positions and for all fragments inside of it. -/
def Span.every (test : Fragment → Bool) : Span → Bool
  | .term field text boost => test (.span (.term field text boost))
  | .multiTerm query => test (.span (.multiTerm query)) && query.every test
  | .near clauses slop ordered boost =>
    test (.span (.near clauses slop ordered boost)) && Span.everyOf test clauses

/-- Whether a test passes for some conditions on word positions and for all fragments inside of these. -/
def Span.everyOf (test : Fragment → Bool) : List Span → Bool
  | [] => true
  | clause :: rest => clause.every test && Span.everyOf test rest

end

mutual

/-- A fragment without **what is overwritten** in its rendered form. -/
def Fragment.shown : Fragment → Fragment
  | .terms field values least boost => Fragment.shownTerms field values least boost
  | .bool must should mustNot least boost =>
    .bool (Fragment.shownAll must) (Fragment.shownAll should) (Fragment.shownAll mustNot) least boost
  | .nested path query boost => .nested path query.shown boost
  | .hasChild typeName query boost => .hasChild typeName query.shown boost
  | .hasParent typeName query boost => .hasParent typeName query.shown boost
  | .constantScore filter boost => .constantScore filter.shown boost
  | .span condition => .span condition.shown
  | fragment => fragment

/-- Some fragments without what is overwritten. -/
def Fragment.shownAll : List Fragment → List Fragment
  | [] => []
  | fragment :: rest => fragment.shown :: Fragment.shownAll rest

/-- A condition on word positions without what is overwritten. -/
def Span.shown : Span → Span
  | .term field text boost => .term field text boost
  | .multiTerm query => .multiTerm query.shown
  | .near clauses slop ordered boost => .near (Span.shownAll clauses) slop ordered boost

/-- Some conditions on word positions without what is overwritten. -/
def Span.shownAll : List Span → List Span
  | [] => []
  | clause :: rest => clause.shown :: Span.shownAll rest

end

namespace Fragment

/-- A **scalar value**, if the fragment is a condition on a single value. -/
def isScalar : Fragment → Bool
  | .term _ value _ => value.isScalar
  | _ => true

/-- **Finite boosts and scalar values.** -/
def isPlain (fragment : Fragment) : Bool := fragment.boost?.all Boost.isFinite && fragment.isScalar

/-- No **overwritten values**. -/
def isLegible : Fragment → Bool
  | .terms field _ least boost => !hides field least boost
  | _ => true

/-- Fragments **of one kind**. -/
inductive Kin : Fragment → Fragment → Prop where
  | matchAll (boost boost') : Kin (.matchAll boost) (.matchAll boost')
  | term (field value boost field' value' boost') : Kin (.term field value boost) (.term field' value' boost')
  | terms (field values least boost field' values' least' boost') :
    Kin (.terms field values least boost) (.terms field' values' least' boost')
  | phrase (field text boost field' text' boost') : Kin (.phrase field text boost) (.phrase field' text' boost')
  | range (field bounds boost field' bounds' boost') :
    Kin (.range field bounds boost) (.range field' bounds' boost')
  | regexp (field pattern boost field' pattern' boost') :
    Kin (.regexp field pattern boost) (.regexp field' pattern' boost')
  | wildcard (field pattern boost field' pattern' boost') :
    Kin (.wildcard field pattern boost) (.wildcard field' pattern' boost')
  | leading (field text boost field' text' boost') : Kin (.leading field text boost) (.leading field' text' boost')
  | fuzzy (field text exact boost field' text' exact' boost') :
    Kin (.fuzzy field text exact boost) (.fuzzy field' text' exact' boost')
  | missing (field field') : Kin (.missing field) (.missing field')
  | present (field field') : Kin (.present field) (.present field')
  | similar (similarity boost similarity' boost') : Kin (.similar similarity boost) (.similar similarity' boost')
  | script (source source') : Kin (.script source) (.script source')
  | bool (must should mustNot least boost must' should' mustNot' least' boost') :
    Kin (.bool must should mustNot least boost) (.bool must' should' mustNot' least' boost')
  | nested (path query boost path' query' boost') : Kin (.nested path query boost) (.nested path' query' boost')
  | hasChild (typeName query boost typeName' query' boost') :
    Kin (.hasChild typeName query boost) (.hasChild typeName' query' boost')
  | hasParent (typeName query boost typeName' query' boost') :
    Kin (.hasParent typeName query boost) (.hasParent typeName' query' boost')
  | constantScore (filter boost filter' boost') : Kin (.constantScore filter boost) (.constantScore filter' boost')
  | span (condition condition') : Kin (.span condition) (.span condition')

/-- The names of the kinds are all different, and no condition on documents has the name of one on words. -/
theorem kin_of_kind {F G : Fragment} (h : F.kind = G.kind) : Kin F G := by
  cases F with
  | span condition =>
    cases condition <;> cases G <;>
      first | constructor | exact absurd h (by simp [kind, Span.kind])
  | _ =>
    cases G with
    | span condition => cases condition <;> exact absurd h (by simp [kind, Span.kind])
    | _ => first | constructor | exact absurd h (by simp [kind])

/-- **A rendered fragment** has its kind as its only key. -/
theorem exists_toJson_eq (F : Fragment) : ∃ body, F.toJson = .single F.kind body := by
  cases F with
  | span condition => cases condition <;> exact ⟨_, rfl⟩
  | _ => exact ⟨_, rfl⟩

theorem kin_of_toJson {F G : Fragment} (h : F.toJson = G.toJson) : Kin F G := by
  obtain ⟨body, hbody⟩ := F.exists_toJson_eq
  obtain ⟨body', hbody'⟩ := G.exists_toJson_eq
  rw [hbody, hbody', Json.single_inj] at h
  exact kin_of_kind h.1

/-- What passes for all fragments inside of a fragment passes for the fragment. -/
theorem own_of_every {test : Fragment → Bool} {F : Fragment} (h : F.every test = true) : test F = true := by
  cases F with
  | span condition =>
    cases condition <;> simp only [every, Span.every, Bool.and_eq_true] at h <;> first | exact h | exact h.1
  | bool => simp only [every, Bool.and_eq_true] at h; exact h.1.1.1
  | _ => simp only [every, Bool.and_eq_true] at h; first | exact h | exact h.1

/-- The boosts of plain fragments are finite. -/
theorem isFinite_of_every {F : Fragment} {boost : Boost} (h : F.every isPlain = true)
    (hboost : F.boost? = some boost) : boost.isFinite = true := by
  have hown := own_of_every h
  rw [isPlain, hboost, Bool.and_eq_true] at hown
  exact hown.1

theorem isScalar_of_every {F : Fragment} (h : F.every isPlain = true) : F.isScalar = true :=
  (Bool.and_eq_true_iff.mp (own_of_every h)).2

/-- The boosts of plain fragments can be told from their members. -/
theorem boost_eq {F G : Fragment} {boost boost' : Boost} (hF : F.every isPlain = true)
    (hG : G.every isPlain = true) (hboost : F.boost? = some boost) (hboost' : G.boost? = some boost')
    (h : boost.toJson = boost'.toJson) : boost = boost' :=
  (Boost.toJson_inj (isFinite_of_every hF hboost) (isFinite_of_every hG hboost')).mp h

/-- Fragments **without parts**. -/
def isFlat : Fragment → Bool
  | .bool .. | .nested .. | .hasChild .. | .hasParent .. | .constantScore .. | .span _ => false
  | _ => true

/-- Plain fragments without parts that have the same rendered form are equal, up to what is overwritten. -/
theorem shown_eq_of_isFlat {F G : Fragment} (hflat : F.isFlat = true) (hF : F.every isPlain = true)
    (hG : G.every isPlain = true) (h : F.toJson = G.toJson) : F.shown = G.shown := by
  -- fragments that are rendered alike are of the same kind, whose members are compared one after the
  -- other
  cases kin_of_toJson h with
  | matchAll boost boost' =>
    have hvalues := Json.values_eq_of_ofPresent (Json.single_inj.mp h).2 rfl (by simp [Keyed.keys])
    obtain rfl := boost_eq hF hG rfl rfl (List.cons.inj hvalues).1
    rfl
  | term field value boost field' value' boost' =>
    obtain ⟨rfl, rfl, hboost⟩ := eq_of_fieldCondition h (by decide) (isScalar_of_every hF) (isScalar_of_every hG)
    obtain rfl := boost_eq hF hG rfl rfl hboost
    rfl
  | terms => exact shownTerms_eq (isFinite_of_every hF rfl) (isFinite_of_every hG rfl) h
  | phrase | regexp | wildcard | leading =>
    obtain ⟨rfl, rfl, rfl⟩ := eq_of_textCondition h (by decide) (isFinite_of_every hF rfl)
      (isFinite_of_every hG rfl)
    rfl
  | range field bounds boost field' bounds' boost' =>
    obtain ⟨rfl, hbody⟩ := Json.single_inj.mp (Json.single_inj.mp h).2
    have hvalues := Json.values_eq_of_ofPresent hbody rfl (by simp [Keyed.keys])
    simp only [List.map_cons, List.map_nil, List.cons.injEq, and_true] at hvalues
    obtain ⟨habove, hatLeast, hbelow, hatMost, hboost⟩ := hvalues
    obtain rfl := boost_eq hF hG rfl rfl hboost
    obtain rfl : bounds = bounds' := by
      cases bounds
      cases bounds'
      simp_all
    rfl
  | fuzzy field text exact boost field' text' exact' boost' =>
    obtain ⟨rfl, hbody⟩ := Json.single_inj.mp (Json.single_inj.mp h).2
    have hvalues := Json.values_eq_of_ofPresent hbody rfl (by simp [Keyed.keys])
    simp only [List.map_cons, List.map_nil, List.cons.injEq, and_true, Option.some.injEq, Json.str.injEq,
      Json.ofNat_inj] at hvalues
    obtain ⟨rfl, rfl, hboost⟩ := hvalues
    obtain rfl := boost_eq hF hG rfl rfl hboost
    rfl
  | missing | present | script =>
    obtain rfl := Json.str.inj (Json.single_inj.mp (Json.single_inj.mp h).2).2
    rfl
  | similar similarity boost similarity' boost' =>
    have hvalues := Json.values_eq_of_ofPresent (Json.single_inj.mp h).2 rfl (by simp [Keyed.keys])
    simp only [List.map_cons, List.map_nil, List.cons.injEq, and_true, Option.some.injEq, Json.str.injEq,
      Json.ofNat_inj, Json.ofStrings_inj] at hvalues
    obtain ⟨hfields, htext, hterms, hword, hfrequency, hstop, hboost⟩ := hvalues
    obtain rfl := boost_eq hF hG rfl rfl hboost
    obtain rfl : similarity = similarity' := by
      cases similarity
      cases similarity'
      simp_all
    rfl
  | bool | nested | hasChild | hasParent | constantScore | span => exact absurd hflat Bool.false_ne_true

end Fragment

mutual

/-- **Plain fragments with the same rendered form** are equal, up to what is overwritten. The induction is on the
first of them; the second is of the same kind. -/
theorem Fragment.shown_eq_of_toJson : ∀ F G : Fragment, F.every Fragment.isPlain = true →
    G.every Fragment.isPlain = true → F.toJson = G.toJson → F.shown = G.shown
  | .bool must should mustNot least boost, G, hF, hG, h => by
    cases Fragment.kin_of_toJson h with | bool _ _ _ _ _ must' should' mustNot' least' boost' =>
    have hvalues := Json.values_eq_of_ofPresent (Json.single_inj.mp h).2 rfl (by simp [Keyed.keys])
    simp only [List.map_cons, List.map_nil, List.cons.injEq, and_true, clauseList_inj] at hvalues
    obtain ⟨hmust, hshould, hmustNot, hleast, hboost⟩ := hvalues
    obtain rfl := Fragment.boost_eq hF hG rfl rfl hboost
    obtain rfl := Option.map_injective (fun _ _ => Json.ofNat_inj.mp) hleast
    simp only [Fragment.every, Bool.and_eq_true] at hF hG
    rw [Fragment.shown, Fragment.shown, Fragment.shownAll_eq_of_toJson must must' hF.1.1.2 hG.1.1.2 hmust,
      Fragment.shownAll_eq_of_toJson should should' hF.1.2 hG.1.2 hshould,
      Fragment.shownAll_eq_of_toJson mustNot mustNot' hF.2 hG.2 hmustNot]
  | .nested path query boost, G, hF, hG, h => by
    cases Fragment.kin_of_toJson h with | nested _ _ _ path' query' boost' =>
    obtain ⟨rfl, hquery, rfl⟩ := eq_of_wrapper h (by decide) (Fragment.isFinite_of_every hF rfl)
      (Fragment.isFinite_of_every hG rfl)
    simp only [Fragment.every, Bool.and_eq_true] at hF hG
    rw [Fragment.shown, Fragment.shown, Fragment.shown_eq_of_toJson query query' hF.2 hG.2 hquery]
  | .hasChild typeName query boost, G, hF, hG, h => by
    cases Fragment.kin_of_toJson h with | hasChild _ _ _ typeName' query' boost' =>
    obtain ⟨rfl, hquery, rfl⟩ := eq_of_wrapper h (by decide) (Fragment.isFinite_of_every hF rfl)
      (Fragment.isFinite_of_every hG rfl)
    simp only [Fragment.every, Bool.and_eq_true] at hF hG
    rw [Fragment.shown, Fragment.shown, Fragment.shown_eq_of_toJson query query' hF.2 hG.2 hquery]
  | .hasParent typeName query boost, G, hF, hG, h => by
    cases Fragment.kin_of_toJson h with | hasParent _ _ _ typeName' query' boost' =>
    obtain ⟨rfl, hquery, rfl⟩ := eq_of_wrapper h (by decide) (Fragment.isFinite_of_every hF rfl)
      (Fragment.isFinite_of_every hG rfl)
    simp only [Fragment.every, Bool.and_eq_true] at hF hG
    rw [Fragment.shown, Fragment.shown, Fragment.shown_eq_of_toJson query query' hF.2 hG.2 hquery]
  | .constantScore filter boost, G, hF, hG, h => by
    cases Fragment.kin_of_toJson h with | constantScore _ _ filter' boost' =>
    have hvalues := Json.values_eq_of_ofPresent (Json.single_inj.mp h).2 rfl (by simp [Keyed.keys])
    simp only [List.map_cons, List.map_nil, List.cons.injEq, and_true, Option.some.injEq] at hvalues
    obtain ⟨hfilter, hboost⟩ := hvalues
    obtain rfl := Fragment.boost_eq hF hG rfl rfl hboost
    simp only [Fragment.every, Bool.and_eq_true] at hF hG
    rw [Fragment.shown, Fragment.shown, Fragment.shown_eq_of_toJson filter filter' hF.2 hG.2 hfilter]
  | .span condition, G, hF, hG, h => by
    cases Fragment.kin_of_toJson h with | span _ condition' =>
    rw [Fragment.shown, Fragment.shown, Span.shown_eq_of_toJson condition condition' hF hG h]
  | .matchAll _, _, hF, hG, h | .term .., _, hF, hG, h | .terms .., _, hF, hG, h | .phrase .., _, hF, hG, h
  | .range .., _, hF, hG, h | .regexp .., _, hF, hG, h | .wildcard .., _, hF, hG, h | .leading .., _, hF, hG, h
  | .fuzzy .., _, hF, hG, h | .missing _, _, hF, hG, h | .present _, _, hF, hG, h | .similar .., _, hF, hG, h
  | .script _, _, hF, hG, h => Fragment.shown_eq_of_isFlat rfl hF hG h

/-- Plain fragments with the same rendered forms are equal one by one. -/
theorem Fragment.shownAll_eq_of_toJson : ∀ Fs Gs : List Fragment, Fragment.everyOf Fragment.isPlain Fs = true →
    Fragment.everyOf Fragment.isPlain Gs = true → Fragment.listToJson Fs = Fragment.listToJson Gs →
    Fragment.shownAll Fs = Fragment.shownAll Gs
  | [], Gs, _, _, h => by
    cases Gs with
    | nil => rfl
    | cons G Gs => simp [Fragment.listToJson] at h
  | F :: Fs, Gs, hF, hG, h => by
    cases Gs with
    | nil => simp [Fragment.listToJson] at h
    | cons G Gs =>
      simp only [Fragment.everyOf, Bool.and_eq_true] at hF hG
      obtain ⟨hhead, htail⟩ := List.cons.inj h
      rw [Fragment.shownAll, Fragment.shownAll, Fragment.shown_eq_of_toJson F G hF.1 hG.1 hhead,
        Fragment.shownAll_eq_of_toJson Fs Gs hF.2 hG.2 htail]

/-- Plain conditions on word positions with the same rendered form are equal, up to what is overwritten. -/
theorem Span.shown_eq_of_toJson : ∀ c d : Span, c.every Fragment.isPlain = true →
    d.every Fragment.isPlain = true → c.toJson = d.toJson → c.shown = d.shown
  | .term field text boost, d, hc, hd, h => by
    cases d with
    | term field' text' boost' =>
      obtain ⟨rfl, rfl, rfl⟩ := eq_of_textCondition h (by decide)
        (@Fragment.isFinite_of_every (.span _) _ hc rfl) (@Fragment.isFinite_of_every (.span _) _ hd rfl)
      rfl
    | _ => exact absurd (Json.single_inj.mp h).1 (by decide)
  | .multiTerm query, d, hc, hd, h => by
    cases d with
    | multiTerm query' =>
      simp only [Span.every, Bool.and_eq_true] at hc hd
      have hquery := (Json.single_inj.mp (Json.single_inj.mp h).2).2
      rw [Span.shown, Span.shown, Fragment.shown_eq_of_toJson query query' hc.2 hd.2 hquery]
    | _ => exact absurd (Json.single_inj.mp h).1 (by decide)
  | .near clauses slop ordered boost, d, hc, hd, h => by
    cases d with
    | near clauses' slop' ordered' boost' =>
      have hvalues := Json.values_eq_of_ofPresent (Json.single_inj.mp h).2 rfl (by simp [Keyed.keys])
      simp only [List.map_cons, List.map_nil, List.cons.injEq, and_true, Option.some.injEq, Json.arr.injEq,
        Json.ofNat_inj, Json.bool.injEq] at hvalues
      obtain ⟨hclauses, rfl, rfl, hboost⟩ := hvalues
      obtain rfl := @Fragment.boost_eq (.span _) (.span _) _ _ hc hd rfl rfl hboost
      simp only [Span.every, Bool.and_eq_true] at hc hd
      rw [Span.shown, Span.shown, Span.shownAll_eq_of_toJson clauses clauses' hc.2 hd.2 hclauses]
    | _ => exact absurd (Json.single_inj.mp h).1 (by decide)

/-- Plain conditions on word positions with the same rendered forms are equal one by one. -/
theorem Span.shownAll_eq_of_toJson : ∀ cs ds : List Span, Span.everyOf Fragment.isPlain cs = true →
    Span.everyOf Fragment.isPlain ds = true → Span.listToJson cs = Span.listToJson ds →
    Span.shownAll cs = Span.shownAll ds
  | [], ds, _, _, h => by
    cases ds with
    | nil => rfl
    | cons d ds => simp [Span.listToJson] at h
  | c :: cs, ds, hc, hd, h => by
    cases ds with
    | nil => simp [Span.listToJson] at h
    | cons d ds =>
      simp only [Span.everyOf, Bool.and_eq_true] at hc hd
      obtain ⟨hhead, htail⟩ := List.cons.inj h
      rw [Span.shownAll, Span.shownAll, Span.shown_eq_of_toJson c d hc.1 hd.1 hhead,
        Span.shownAll_eq_of_toJson cs ds hc.2 hd.2 htail]

end

mutual

/-- **What is overwritten does not show**: the rendered form is the same without it. -/
theorem Fragment.toJson_shown : ∀ F : Fragment, F.shown.toJson = F.toJson
  | .terms field values least boost => Fragment.toJson_shownTerms field values least boost
  | .bool must should mustNot least boost => by
    rw [Fragment.shown, Fragment.toJson, Fragment.toJson, Fragment.listToJson_shownAll must,
      Fragment.listToJson_shownAll should, Fragment.listToJson_shownAll mustNot]
  | .nested _ query _ | .hasChild _ query _ | .hasParent _ query _ | .constantScore query _ => by
    rw [Fragment.shown, Fragment.toJson, Fragment.toJson, Fragment.toJson_shown query]
  | .span condition => Span.toJson_shown condition
  | .matchAll _ | .term .. | .phrase .. | .range .. | .regexp .. | .wildcard .. | .leading .. | .fuzzy ..
  | .missing _ | .present _ | .similar .. | .script _ => rfl

theorem Fragment.listToJson_shownAll : ∀ Fs : List Fragment,
    Fragment.listToJson (Fragment.shownAll Fs) = Fragment.listToJson Fs
  | [] => rfl
  | F :: Fs => by
    rw [Fragment.shownAll, Fragment.listToJson, Fragment.listToJson, Fragment.toJson_shown F,
      Fragment.listToJson_shownAll Fs]

theorem Span.toJson_shown : ∀ c : Span, c.shown.toJson = c.toJson
  | .term .. => rfl
  | .multiTerm query => by rw [Span.shown, Span.toJson, Span.toJson, Fragment.toJson_shown query]
  | .near clauses slop ordered boost => by
    rw [Span.shown, Span.toJson, Span.toJson, Span.listToJson_shownAll clauses]

theorem Span.listToJson_shownAll : ∀ cs : List Span, Span.listToJson (Span.shownAll cs) = Span.listToJson cs
  | [] => rfl
  | c :: cs => by
    rw [Span.shownAll, Span.listToJson, Span.listToJson, Span.toJson_shown c, Span.listToJson_shownAll cs]

end

mutual

/-- **Legible fragments** show everything. -/
theorem Fragment.shown_eq_self : ∀ F : Fragment, F.every Fragment.isLegible = true → F.shown = F
  | .terms field values least boost, h => by
    have hshows : Fragment.hides field least boost = false := by simpa [Fragment.every, Fragment.isLegible] using h
    rw [Fragment.shown, Fragment.shownTerms, hshows, if_neg Bool.false_ne_true]
  | .bool must should mustNot least boost, h => by
    simp only [Fragment.every, Bool.and_eq_true] at h
    rw [Fragment.shown, Fragment.shownAll_eq_self must h.1.1.2, Fragment.shownAll_eq_self should h.1.2,
      Fragment.shownAll_eq_self mustNot h.2]
  | .nested _ query _, h | .hasChild _ query _, h | .hasParent _ query _, h | .constantScore query _, h => by
    simp only [Fragment.every, Bool.and_eq_true] at h
    rw [Fragment.shown, Fragment.shown_eq_self query h.2]
  | .span condition, h => by rw [Fragment.shown, Span.shown_eq_self condition h]
  | .matchAll _, _ | .term .., _ | .phrase .., _ | .range .., _ | .regexp .., _ | .wildcard .., _
  | .leading .., _ | .fuzzy .., _ | .missing _, _ | .present _, _ | .similar .., _ | .script _, _ => rfl

theorem Fragment.shownAll_eq_self : ∀ Fs : List Fragment, Fragment.everyOf Fragment.isLegible Fs = true →
    Fragment.shownAll Fs = Fs
  | [], _ => rfl
  | F :: Fs, h => by
    simp only [Fragment.everyOf, Bool.and_eq_true] at h
    rw [Fragment.shownAll, Fragment.shown_eq_self F h.1, Fragment.shownAll_eq_self Fs h.2]

theorem Span.shown_eq_self : ∀ c : Span, c.every Fragment.isLegible = true → c.shown = c
  | .term .., _ => rfl
  | .multiTerm query, h => by
    simp only [Span.every, Bool.and_eq_true] at h
    rw [Span.shown, Fragment.shown_eq_self query h.2]
  | .near clauses slop ordered boost, h => by
    simp only [Span.every, Bool.and_eq_true] at h
    rw [Span.shown, Span.shownAll_eq_self clauses h.2]

theorem Span.shownAll_eq_self : ∀ cs : List Span, Span.everyOf Fragment.isLegible cs = true →
    Span.shownAll cs = cs
  | [], _ => rfl
  | c :: cs, h => by
    simp only [Span.everyOf, Bool.and_eq_true] at h
    rw [Span.shownAll, Span.shown_eq_self c h.1, Span.shownAll_eq_self cs h.2]

end

/-- **Rendered forms of plain fragments** are equal where what they show is equal. -/
theorem Fragment.toJson_eq_iff {F G : Fragment} (hF : F.every Fragment.isPlain = true)
    (hG : G.every Fragment.isPlain = true) : F.toJson = G.toJson ↔ F.shown = G.shown := by
  refine ⟨Fragment.shown_eq_of_toJson F G hF hG, fun h => ?_⟩
  rw [← Fragment.toJson_shown F, h, Fragment.toJson_shown]

end LinkedSearch
