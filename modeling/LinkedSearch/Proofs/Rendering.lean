import LinkedSearch.Proofs.Legibility

/-! # Rendered fragments are faithful

Two fragments with the same rendered form are equal where what they show is equal. Zeros of both signs are the
same number, in rendered forms as in fragments, so that the same is true of fragments without the signs of zeros.

* `Json.unsigned`, `Fragment.unsigned`: the signs of zeros left out.
* `Json.same_iff`: values are the same if they are equal without the signs of zeros.
* `Fragment.toJson_unsigned`: the signs can be left out before a fragment is rendered.
* `Fragment.rendering_faithful`: rendered forms are the same only if what they show is the same. -/

namespace LinkedSearch

open Number (Binary Finite)

/-! ## Signs of zeros -/

namespace Number.Finite

/-- A number without the sign of a zero. -/
def unsigned (x : Finite) : Finite := .dyadic x.value

/-- Numbers are the same if they are equal without the sign of a zero. -/
theorem same_iff {x y : Finite} : x.same y = true ↔ x.unsigned = y.unsigned := by
  simp [same, unsigned]

end Number.Finite

namespace Keyed

variable {α β : Type}

/-- The values of a table may be changed before they are inserted. -/
theorem mapValues_insert (f : α → β) (key : String) (value : α) (table : List (String × α)) :
    mapValues f (insert key value table) = insert key (f value) (mapValues f table) := by
  induction table with
  | nil => rfl
  | cons entry rest ih =>
    obtain ⟨k, v⟩ := entry
    simp only [insert, mapValues, List.map_cons] at ih ⊢
    split
    · rfl
    · split
      · rfl
      · rw [List.map_cons, ih]

theorem mapValues_ofList (f : α → β) (entries : List (String × α)) :
    mapValues f (ofList entries) = ofList (mapValues f entries) := by
  -- for any table to start with, as the insertions go on in one that has been filled before
  suffices h : ∀ table, mapValues f (extend table entries) = extend (mapValues f table) (mapValues f entries) from
    h []
  induction entries with
  | nil => exact fun _ => rfl
  | cons entry rest ih => exact fun table => (ih _).trans (by rw [mapValues_insert]; rfl)

end Keyed

namespace Json

mutual

/-- A value without the signs of zeros. -/
def unsigned : Json → Json
  | .float x => .float x.unsigned
  | .arr items => .arr (unsignedItems items)
  | .obj members => .obj (unsignedMembers members)
  | value => value

/-- Some values without the signs of zeros. -/
def unsignedItems : List Json → List Json
  | [] => []
  | item :: rest => item.unsigned :: unsignedItems rest

/-- Some members without the signs of zeros. -/
def unsignedMembers : List (String × Json) → List (String × Json)
  | [] => []
  | (key, value) :: rest => (key, value.unsigned) :: unsignedMembers rest

end

@[simp] theorem unsignedItems_eq_map (items : List Json) : unsignedItems items = items.map unsigned := by
  induction items with
  | nil => simp [unsignedItems]
  | cons item rest ih => simp [unsignedItems, ih]

@[simp] theorem unsignedMembers_eq_mapValues (members : List (String × Json)) :
    unsignedMembers members = Keyed.mapValues unsigned members := by
  induction members with
  | nil => simp [unsignedMembers, Keyed.mapValues]
  | cons member rest ih => simp [unsignedMembers, ih, Keyed.mapValues]

mutual

/-- **Values are the same** if they are equal without the signs of zeros. -/
theorem same_iff : ∀ a b : Json, a.same b = true ↔ a.unsigned = b.unsigned
  | .arr items, b => by
    cases b with
    | arr items' =>
      rw [same, unsigned, unsigned, arr.injEq]
      exact sameItems_iff items items'
    | _ => simp [same, unsigned]
  | .obj members, b => by
    cases b with
    | obj members' =>
      rw [same, unsigned, unsigned, obj.injEq]
      exact sameMembers_iff members members'
    | _ => simp [same, unsigned]
  | .float x, b => by cases b <;> simp [same, unsigned, Finite.same_iff]
  | .null, b | .bool _, b | .int _, b | .str _, b => by cases b <;> simp [same, unsigned]

theorem sameItems_iff : ∀ as bs : List Json, sameItems as bs = true ↔ unsignedItems as = unsignedItems bs
  | [], [] | [], _ :: _ | _ :: _, [] => by simp [sameItems]
  | a :: as, b :: bs => by
    rw [sameItems, Bool.and_eq_true, same_iff a b, sameItems_iff as bs, unsignedItems, unsignedItems,
      List.cons.injEq]

theorem sameMembers_iff : ∀ as bs : List (String × Json),
    sameMembers as bs = true ↔ unsignedMembers as = unsignedMembers bs
  | [], [] | [], _ :: _ | _ :: _, [] => by simp [sameMembers, Keyed.mapValues]
  | (k, a) :: as, (l, b) :: bs => by
    rw [sameMembers, Bool.and_eq_true, Bool.and_eq_true, beq_iff_eq, same_iff a b, sameMembers_iff as bs,
      unsignedMembers, unsignedMembers, List.cons.injEq, Prod.mk.injEq]

end

theorem unsigned_single (key : String) (value : Json) :
    (single key value).unsigned = single key value.unsigned := by
  simp [single, unsigned, unsignedMembers]

/-- The signs of zeros can be left out of the members before a record is written. -/
theorem unsigned_ofPresent (members : List (String × Option Json)) :
    (ofPresent members).unsigned = ofPresent (members.map fun member => (member.1, member.2.map unsigned)) := by
  rw [ofPresent, ofPresent, ofMembers, ofMembers, unsigned, unsignedMembers_eq_mapValues, Keyed.mapValues_ofList]
  congr 2
  -- a member that is not present has no value to be changed
  induction members with
  | nil => rfl
  | cons member rest ih =>
    obtain ⟨key, _ | value⟩ := member
    · simpa using ih
    · simpa [Keyed.mapValues] using ih

theorem unsigned_ofStrings (texts : List String) : (ofStrings texts).unsigned = ofStrings texts := by
  simp [ofStrings, unsigned, Function.comp_def]

theorem map_unsigned_clauseList (clauses : List Json) :
    (clauseList clauses).map unsigned = clauseList (clauses.map unsigned) := by
  cases clauses <;> simp [clauseList, unsigned]

end Json

/-- A boost without the sign of a zero. -/
def Boost.unsigned (boost : Boost) : Boost :=
  boost.map fun
    | .finite x => .finite x.unsigned
    | b => b

theorem Boost.toJson_unsigned (boost : Boost) : boost.unsigned.toJson = boost.toJson.map Json.unsigned := by
  rcases boost with _ | _ | _ | x <;> simp [Boost.unsigned, Boost.toJson, Json.ofBinary, Json.unsigned]

theorem Boost.isFinite_unsigned (boost : Boost) : boost.unsigned.isFinite = boost.isFinite := by
  rcases boost with _ | _ | _ | x <;> rfl

/-- Bounds without the signs of zeros. -/
def Bounds.unsigned (bounds : Bounds) : Bounds where
  above := bounds.above.map Json.unsigned
  atLeast := bounds.atLeast.map Json.unsigned
  below := bounds.below.map Json.unsigned
  atMost := bounds.atMost.map Json.unsigned

theorem fieldCondition_unsigned (kind field key : String) (value : Json) (boost : Boost) :
    fieldCondition kind field key value.unsigned boost.unsigned =
      (fieldCondition kind field key value boost).unsigned := by
  rw [fieldCondition, fieldCondition, Json.unsigned_single, Json.unsigned_single, Boost.toJson_unsigned]
  cases boost.toJson with
  | none => rfl
  | some weight =>
    exact congrArg _ (congrArg _
      (Json.unsigned_ofPresent [(key, some value), ("boost", some weight)]).symm)

mutual

/-- A fragment without **the signs of zeros**. -/
def Fragment.unsigned : Fragment → Fragment
  | .matchAll boost => .matchAll boost.unsigned
  | .term field value boost => .term field value.unsigned boost.unsigned
  | .terms field values least boost => .terms field (values.map Json.unsigned) least boost.unsigned
  | .phrase field text boost => .phrase field text boost.unsigned
  | .range field bounds boost => .range field bounds.unsigned boost.unsigned
  | .regexp field pattern boost => .regexp field pattern boost.unsigned
  | .wildcard field pattern boost => .wildcard field pattern boost.unsigned
  | .leading field text boost => .leading field text boost.unsigned
  | .fuzzy field text exact boost => .fuzzy field text exact boost.unsigned
  | .missing field => .missing field
  | .present field => .present field
  | .similar similarity boost => .similar similarity boost.unsigned
  | .script source => .script source
  | .bool must should mustNot least boost =>
    .bool (Fragment.unsignedAll must) (Fragment.unsignedAll should) (Fragment.unsignedAll mustNot) least
      boost.unsigned
  | .nested path query boost => .nested path query.unsigned boost.unsigned
  | .hasChild typeName query boost => .hasChild typeName query.unsigned boost.unsigned
  | .hasParent typeName query boost => .hasParent typeName query.unsigned boost.unsigned
  | .constantScore filter boost => .constantScore filter.unsigned boost.unsigned
  | .span condition => .span condition.unsigned

/-- Some fragments without the signs of zeros. -/
def Fragment.unsignedAll : List Fragment → List Fragment
  | [] => []
  | fragment :: rest => fragment.unsigned :: Fragment.unsignedAll rest

/-- A condition on word positions without the signs of zeros. -/
def Span.unsigned : Span → Span
  | .term field text boost => .term field text boost.unsigned
  | .multiTerm query => .multiTerm query.unsigned
  | .near clauses slop ordered boost => .near (Span.unsignedAll clauses) slop ordered boost.unsigned

/-- Some conditions on word positions without the signs of zeros. -/
def Span.unsignedAll : List Span → List Span
  | [] => []
  | clause :: rest => clause.unsigned :: Span.unsignedAll rest

end

mutual

/-- **The signs of zeros** can be left out before a fragment is rendered. -/
theorem Fragment.toJson_unsigned : ∀ F : Fragment, F.unsigned.toJson = F.toJson.unsigned
  | .term .. => fieldCondition_unsigned ..
  | .phrase _ text _ | .regexp _ text _ | .wildcard _ text _ | .leading _ text _ =>
    fieldCondition_unsigned _ _ _ (.str text) _
  | .range field bounds boost => by
    simp [Fragment.unsigned, Fragment.toJson, Json.unsigned_single, Bounds.toJson, Json.unsigned_ofPresent,
      Bounds.unsigned, Boost.toJson_unsigned]
  | .bool must should mustNot least boost => by
    simp only [Fragment.unsigned, Fragment.toJson, Json.unsigned_single, Json.unsigned_ofPresent, List.map_cons,
      List.map_nil, Boost.toJson_unsigned, Json.map_unsigned_clauseList, Fragment.listToJson_unsignedAll must,
      Fragment.listToJson_unsignedAll should, Fragment.listToJson_unsignedAll mustNot, Option.map_map]
    rfl
  | .nested _ query _ | .hasChild _ query _ | .hasParent _ query _ => by
    simp [Fragment.unsigned, Fragment.toJson, Json.unsigned_single, Json.unsigned_ofPresent,
      Boost.toJson_unsigned, Fragment.toJson_unsigned query, Json.unsigned]
  | .constantScore filter boost => by
    simp [Fragment.unsigned, Fragment.toJson, Json.unsigned_single, Json.unsigned_ofPresent,
      Boost.toJson_unsigned, Fragment.toJson_unsigned filter]
  | .span condition => Span.toJson_unsigned condition
  | .matchAll _ | .terms .. | .fuzzy .. | .missing _ | .present _ | .similar .. | .script _ => by
    simp [Fragment.unsigned, Fragment.toJson, Json.unsigned_single, Json.unsigned_ofPresent,
      Boost.toJson_unsigned, Json.unsigned, Json.unsigned_ofStrings, Json.ofNat, Function.comp_def]

theorem Fragment.listToJson_unsignedAll : ∀ Fs : List Fragment,
    Fragment.listToJson (Fragment.unsignedAll Fs) = (Fragment.listToJson Fs).map Json.unsigned
  | [] => rfl
  | F :: Fs => by
    rw [Fragment.unsignedAll, Fragment.listToJson, Fragment.listToJson, List.map_cons,
      Fragment.toJson_unsigned F, Fragment.listToJson_unsignedAll Fs]

theorem Span.toJson_unsigned : ∀ c : Span, c.unsigned.toJson = c.toJson.unsigned
  | .term _ text _ => fieldCondition_unsigned _ _ _ (.str text) _
  | .multiTerm query => by
    simp [Span.unsigned, Span.toJson, Json.unsigned_single, Fragment.toJson_unsigned query]
  | .near clauses slop ordered boost => by
    have hclauses := Span.listToJson_unsignedAll clauses
    simp only [Span.unsigned, Span.toJson, Json.unsigned_single, Json.unsigned_ofPresent, List.map_cons,
      List.map_nil, Boost.toJson_unsigned, hclauses, Option.map_some, Json.unsigned, Json.ofNat,
      Json.unsignedItems_eq_map]

theorem Span.listToJson_unsignedAll : ∀ cs : List Span,
    Span.listToJson (Span.unsignedAll cs) = (Span.listToJson cs).map Json.unsigned
  | [] => rfl
  | c :: cs => by
    rw [Span.unsignedAll, Span.listToJson, Span.listToJson, List.map_cons, Span.toJson_unsigned c,
      Span.listToJson_unsignedAll cs]

end

section

variable {test : Fragment → Bool}

mutual

/-- A test that does not depend on the signs of zeros passes with or without them. -/
theorem Fragment.every_unsigned (htest : ∀ F, test (Fragment.unsigned F) = test F) : ∀ F : Fragment,
    F.unsigned.every test = F.every test
  | .bool must should mustNot least boost => by
    have hown := htest (.bool must should mustNot least boost)
    rw [Fragment.unsigned] at hown ⊢
    rw [Fragment.every, Fragment.every, hown, Fragment.everyOf_unsignedAll htest must,
      Fragment.everyOf_unsignedAll htest should, Fragment.everyOf_unsignedAll htest mustNot]
  | .nested path query boost =>
    congrArg₂ and (htest (.nested path query boost)) (Fragment.every_unsigned htest query)
  | .hasChild typeName query boost =>
    congrArg₂ and (htest (.hasChild typeName query boost)) (Fragment.every_unsigned htest query)
  | .hasParent typeName query boost =>
    congrArg₂ and (htest (.hasParent typeName query boost)) (Fragment.every_unsigned htest query)
  | .constantScore filter boost =>
    congrArg₂ and (htest (.constantScore filter boost)) (Fragment.every_unsigned htest filter)
  | .span condition => Span.every_unsigned htest condition
  | .matchAll _ | .term .. | .terms .. | .phrase .. | .range .. | .regexp .. | .wildcard .. | .leading ..
  | .fuzzy .. | .missing _ | .present _ | .similar .. | .script _ => htest _

theorem Fragment.everyOf_unsignedAll (htest : ∀ F, test (Fragment.unsigned F) = test F) :
    ∀ Fs : List Fragment, Fragment.everyOf test (Fragment.unsignedAll Fs) = Fragment.everyOf test Fs
  | [] => rfl
  | F :: Fs => congrArg₂ and (Fragment.every_unsigned htest F) (Fragment.everyOf_unsignedAll htest Fs)

theorem Span.every_unsigned (htest : ∀ F, test (Fragment.unsigned F) = test F) : ∀ c : Span,
    c.unsigned.every test = c.every test
  | .term field text boost => htest (.span (.term field text boost))
  | .multiTerm query => congrArg₂ and (htest (.span (.multiTerm query))) (Fragment.every_unsigned htest query)
  | .near clauses slop ordered boost =>
    congrArg₂ and (htest (.span (.near clauses slop ordered boost))) (Span.everyOf_unsignedAll htest clauses)

theorem Span.everyOf_unsignedAll (htest : ∀ F, test (Fragment.unsigned F) = test F) :
    ∀ cs : List Span, Span.everyOf test (Span.unsignedAll cs) = Span.everyOf test cs
  | [] => rfl
  | c :: cs => congrArg₂ and (Span.every_unsigned htest c) (Span.everyOf_unsignedAll htest cs)

end

end

namespace Fragment

theorem boost?_unsigned (F : Fragment) : F.unsigned.boost? = F.boost?.map Boost.unsigned := by
  cases F with
  | span condition => cases condition <;> rfl
  | _ => rfl

theorem isPlain_unsigned (F : Fragment) : F.unsigned.isPlain = F.isPlain := by
  have hboost : F.unsigned.boost?.all Boost.isFinite = F.boost?.all Boost.isFinite := by
    rw [boost?_unsigned]
    cases F.boost? with
    | none => rfl
    | some boost => exact boost.isFinite_unsigned
  have hscalar : F.unsigned.isScalar = F.isScalar := by
    cases F with
    | term field value boost => cases value <;> rfl
    | _ => rfl
  rw [isPlain, isPlain, hboost, hscalar]

theorem isLegible_unsigned (F : Fragment) : F.unsigned.isLegible = F.isLegible := by
  cases F with
  | terms field values least boost => cases boost <;> rfl
  | _ => rfl

/-! ## Rendered forms and fragments -/

/-- **Rendering is faithful**, up to overwritten values: of two plain fragments with any nesting, both rendered forms
are equal if and only if both fragments are, without what is overwritten in them; and the rendered forms are the
same values if and only if the fragments are equal without the signs of zeros as well. So legible fragments can
be told from each other. The values of a terms fragment are present in its rendered form if and only if its
field does not have the name of an option that it has. -/
theorem rendering_faithful {F G : Fragment} (hF : F.every isPlain = true) (hG : G.every isPlain = true) :
    (F.toJson = G.toJson ↔ F.shown = G.shown) ∧
      (F.toJson.same G.toJson = true ↔ F.unsigned.shown = G.unsigned.shown) ∧
      (F.every isLegible = true → G.every isLegible = true →
        (F.toJson = G.toJson → F = G) ∧ (F.toJson.same G.toJson = true → F.unsigned = G.unsigned)) ∧
      ∀ (field : String) (values : List Json) (least : Option Nat) (boost : Boost),
        ((terms field values least boost).toJson.get? "terms").bind (·.get? field) = some (.arr values) ↔
          hides field least boost = false := by
  have hunsigned : F.toJson.same G.toJson = true ↔ F.unsigned.shown = G.unsigned.shown := by
    -- the signs may be left out first, and then the values are equal if they are the same
    rw [Json.same_iff, ← toJson_unsigned, ← toJson_unsigned]
    exact toJson_eq_iff (every_unsigned isPlain_unsigned F ▸ hF) (every_unsigned isPlain_unsigned G ▸ hG)
  refine ⟨toJson_eq_iff hF hG, hunsigned, fun hlegible hlegible' => ⟨fun h => ?_, fun h => ?_⟩,
    values_present_iff⟩
  · have hshown := (toJson_eq_iff hF hG).mp h
    rwa [shown_eq_self F hlegible, shown_eq_self G hlegible'] at hshown
  · have hshown := hunsigned.mp h
    rwa [shown_eq_self _ (every_unsigned isLegible_unsigned F ▸ hlegible),
      shown_eq_self _ (every_unsigned isLegible_unsigned G ▸ hlegible')] at hshown

/-- Weighted conditions on tags, in a conjunction that has a boost of zero, of either sign. -/
def tagSearch (zero : Finite) : Fragment :=
  .bool [.terms "tag" [.str "a", .int 1] (some 2) (some .one), .range "size" (.between (.int 1) .null) none] []
    [.span (.multiTerm (.leading "title" "x" none))] (some 1) (some (.finite zero))

/-- The two conjunctions have the same rendered form, and are equal but for the sign. -/
theorem rendering_faithful_tagSearch :
    (tagSearch .negZero).every isPlain = true ∧ (tagSearch (.dyadic 0)).every isPlain = true ∧
      (tagSearch .negZero).every isLegible = true ∧ (tagSearch (.dyadic 0)).every isLegible = true ∧
      (tagSearch .negZero).toJson.same (tagSearch (.dyadic 0)).toJson = true ∧
      (tagSearch .negZero).unsigned = (tagSearch (.dyadic 0)).unsigned := by
  have hplain : (tagSearch .negZero).every isPlain = true := by decide
  have hplain' : (tagSearch (.dyadic 0)).every isPlain = true := by decide
  have hlegible : (tagSearch .negZero).every isLegible = true := by decide
  have hlegible' : (tagSearch (.dyadic 0)).every isLegible = true := by decide
  have hsame : (tagSearch .negZero).toJson.same (tagSearch (.dyadic 0)).toJson = true := by decide
  exact ⟨hplain, hplain', hlegible, hlegible', hsame,
    ((rendering_faithful hplain hplain').2.2.1 hlegible hlegible').2 hsame⟩

/-- A weighted condition on a field with the name of the weight. -/
def boostSearch (text : String) : Fragment := .terms "boost" [.str text] none (some .one)

/-- **Not all plain fragments can be told from their rendered forms**: the weight overwrites the values, so that
neither of two values is found, and the rendered forms are the same. -/
theorem rendering_ambiguous_boostSearch :
    (boostSearch "a").every isPlain = true ∧ (boostSearch "b").every isPlain = true ∧
      (boostSearch "a").toJson = (boostSearch "b").toJson ∧
      (boostSearch "a").unsigned ≠ (boostSearch "b").unsigned ∧
      ((boostSearch "a").toJson.get? "terms").bind (·.get? "boost") ≠ some (.arr [.str "a"]) := by
  refine ⟨by decide, by decide, by decide, fun hequal => ?_, by decide⟩
  simp [boostSearch, unsigned, Json.unsigned] at hequal

end Fragment

end LinkedSearch
