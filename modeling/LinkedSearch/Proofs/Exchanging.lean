import LinkedSearch.Query.Exchange
import LinkedSearch.Proofs.Readers

/-!
# Exchange form of trees, read back

The exchange form of a query tree keeps everything that is in the tree, up to the boosts: a boost
that is not finite has no number in a document. What an exchange form can carry is bounded by its
types: widths of natural numbers, canonical payloads, boosts of single precision. Reading gives only
such trees, and such a tree with finite boosts is read back from what is written for it.

* `Kind.IsTyped`, `Label.IsTyped`, `Tree.IsTyped`: what the types of the exchange form hold.
* `Label.ofMembers?_written`: a label is read back from the members of its node.
* `Tree.ofJson?_toJson`: a tree is read back from its exchange form.
* `Tree.ofJson?_gives`: a tree that was read is typed.
-/

namespace LinkedSearch

open Number (Binary Format)

/-! ## Links -/

theorem Link.ofJson?_toJson (link : Link) : ofJson? link.toJson = some link := by
  have fields : link.toJson.fields? ["name", "left_field", "index_name", "right_field"] =
      some [link.name.map .str, some (.str link.leftField), some (.str link.index),
        some (.str link.rightField)] :=
    Json.fields?_ofPresent [("name", _), ("left_field", _), ("index_name", _), ("right_field", _)]
      (by simp [Keyed.keys])
  simp [ofJson?, fields]

namespace Query

/-! ## Types of the exchange form -/

/-- Canonical values, and a number of hits of 64 bits. -/
def Values.IsTyped : Values → Prop
  | literal values => ∀ value ∈ values, value.isCanonical = true
  | external values totalHits =>
    (∀ value ∈ values, value.isCanonical = true) ∧ totalHits < 18446744073709551616

instance : DecidablePred Values.IsTyped
  | .literal values => inferInstanceAs (Decidable (∀ value ∈ values, value.isCanonical = true))
  | .external values totalHits => inferInstanceAs (Decidable
      ((∀ value ∈ values, value.isCanonical = true) ∧ totalHits < 18446744073709551616))

/-- Canonical payloads, and distances and fuzzinesses of 32 bits. -/
def Kind.IsTyped : Kind → Prop
  | word value | number value => value.isCanonical = true
  | phrase _ _ distance _ | proximity distance _ => distance < 4294967296
  | range lower upper => lower.isCanonical = true ∧ upper.isCanonical = true
  | fuzzy _ fuzziness => fuzziness < 4294967296
  | array values _ => values.IsTyped
  | wildcard _ | leading _ | null | notNull | boolean _ | arrayData _ | script _ | conjunction
  | disjunction | negation | scope | child _ | parent _ | expansion .. => True

instance : DecidablePred Kind.IsTyped
  | .word value | .number value => inferInstanceAs (Decidable (value.isCanonical = true))
  | .phrase _ _ distance _ | .proximity distance _ =>
    inferInstanceAs (Decidable (distance < 4294967296))
  | .range lower upper =>
    inferInstanceAs (Decidable (lower.isCanonical = true ∧ upper.isCanonical = true))
  | .fuzzy _ fuzziness => inferInstanceAs (Decidable (fuzziness < 4294967296))
  | .array values _ => inferInstanceAs (Decidable values.IsTyped)
  | .wildcard _ | .leading _ | .null | .notNull | .boolean _ | .arrayData _ | .script _
  | .conjunction | .disjunction | .negation | .scope | .child _ | .parent _ | .expansion .. =>
    isTrue trivial

/-- A typed kind, and a boost of single precision. -/
structure Label.IsTyped (label : Label) : Prop where
  kind : label.kind.IsTyped
  boost : ∀ boost ∈ label.boost, boost.convert .single = boost

instance : DecidablePred Label.IsTyped := fun label =>
  decidable_of_iff (label.kind.IsTyped ∧ ∀ boost ∈ label.boost, boost.convert .single = boost)
    ⟨fun ⟨kind, boost⟩ => ⟨kind, boost⟩, fun typed => ⟨typed.kind, typed.boost⟩⟩

/-- The boost, if there is one, is a number that a document can hold. -/
def Label.HasFiniteBoost (label : Label) : Prop := ∀ boost ∈ label.boost, boost.isFinite = true

instance : DecidablePred Label.HasFiniteBoost := fun label =>
  inferInstanceAs (Decidable (∀ boost ∈ label.boost, boost.isFinite = true))

/-- **Typed trees**: all labels are typed. -/
def Tree.IsTyped (tree : Tree) : Prop := ∀ label ∈ tree.preorder, label.IsTyped

instance : DecidablePred Tree.IsTyped := fun tree =>
  inferInstanceAs (Decidable (∀ label ∈ tree.preorder, label.IsTyped))

/-- No boost of a tree is infinite or not a number. -/
def Tree.HasFiniteBoosts (tree : Tree) : Prop := ∀ label ∈ tree.preorder, label.HasFiniteBoost

instance : DecidablePred Tree.HasFiniteBoosts := fun tree =>
  inferInstanceAs (Decidable (∀ label ∈ tree.preorder, label.HasFiniteBoost))

/-! ## Kinds -/

theorem Values.ofJson?_toJson {values : Values} (typed : values.IsTyped) :
    ofJson? values.toJson = some values := by
  cases values with
  | literal values => simp [ofJson?, toJson, Json.single, Json.variant?, Json.list?_any? typed]
  | external values totalHits =>
    obtain ⟨canonical, bounded⟩ := typed
    obtain ⟨number, written, read⟩ := Json.nat64?_written bounded
    have fields : (Json.ofMembers [("values", .arr values), ("total_hits", number)]).fields?
        ["values", "total_hits"] = some [some (.arr values), some number] :=
      Json.fields?_ofMembers [("values", _), ("total_hits", _)] (by simp [Keyed.keys])
    simp [ofJson?, toJson, written, Json.single, Json.variant?, fields, Json.list?_any? canonical,
      read]

theorem Values.ofJson?_gives (value : Json) : Gives IsTyped (ofJson? value) := by
  refine .after fun variant => ?_
  split
  · exact (Json.list?_gives Json.any?_gives _).bind fun values h => .some h
  · refine .after fun fields => ?_
    split
    · exact (Json.required_gives (Json.list?_gives Json.any?_gives)).bind fun values canonical =>
        (Json.required_gives (Json.natBelow?_gives _)).bind fun totalHits bounded =>
          .some ⟨canonical, bounded⟩
    · exact .none
  · exact .none

namespace Kind

/-- A kind is read back from its parts, however they are mixed with other members. -/
theorem ofMembers?_parts {kind : Kind} (typed : kind.IsTyped) {members : List (String × Json)}
    (fields : (Json.obj members).fields? (Keyed.keys kind.parts) =
      some (kind.parts.map Prod.snd)) :
    ofMembers? kind.name members = some kind := by
  rw [Keyed.keys] at fields
  cases kind with
  | word value | number value =>
    have fields : (Json.obj members).fields? ["value"] = some [some value] := fields
    simp [ofMembers?, name, fields, Json.any?_of_isCanonical typed]
  | phrase text escaped distance ordered =>
    have fields : (Json.obj members).fields? ["value", "escaped", "distance", "ordered"] =
        some [some (.str text), escaped.map .str, some (.ofNat distance), some (.bool ordered)] :=
      fields
    obtain ⟨number, written, read⟩ := Json.nat32?_written typed
    rw [written] at fields
    simp [ofMembers?, name, fields, read]
  | range lower upper =>
    have fields : (Json.obj members).fields? ["from", "to"] = some [some lower, some upper] := fields
    simp [ofMembers?, name, fields, Json.any?_of_isCanonical typed.1,
      Json.any?_of_isCanonical typed.2]
  | wildcard pattern =>
    have fields : (Json.obj members).fields? ["pattern"] = some [some (.str pattern)] := fields
    simp [ofMembers?, name, fields]
  | fuzzy text fuzziness =>
    have fields : (Json.obj members).fields? ["value", "fuzziness"] =
        some [some (.str text), some (.ofNat fuzziness)] := fields
    obtain ⟨number, written, read⟩ := Json.nat32?_written typed
    rw [written] at fields
    simp [ofMembers?, name, fields, read]
  | leading text =>
    have fields : (Json.obj members).fields? ["value"] = some [some (.str text)] := fields
    simp [ofMembers?, name, fields]
  | boolean value =>
    have fields : (Json.obj members).fields? ["value"] = some [some (.bool value)] := fields
    simp [ofMembers?, name, fields]
  | array values conjunctive =>
    have fields : (Json.obj members).fields? ["values", "conjunctive"] =
        some [some values.toJson, some (.bool conjunctive)] := fields
    simp [ofMembers?, name, fields, Values.ofJson?_toJson typed]
  | arrayData key =>
    have fields : (Json.obj members).fields? ["key"] = some [some (.str key)] := fields
    simp [ofMembers?, name, fields]
  | script source =>
    have fields : (Json.obj members).fields? ["source"] = some [some (.str source)] := fields
    simp [ofMembers?, name, fields]
  | child typeName | parent typeName =>
    have fields : (Json.obj members).fields? ["type_name"] = some [some (.str typeName)] := fields
    simp [ofMembers?, name, fields]
  | proximity distance ordered =>
    have fields : (Json.obj members).fields? ["distance", "ordered"] =
        some [some (.ofNat distance), some (.bool ordered)] := fields
    obtain ⟨number, written, read⟩ := Json.nat32?_written typed
    rw [written] at fields
    simp [ofMembers?, name, fields, read]
  | expansion link generated =>
    have fields : (Json.obj members).fields? ["link", "generated"] =
        some [some link.toJson, some (.bool generated)] := fields
    simp [ofMembers?, name, fields, Link.ofJson?_toJson]
  | null | notNull | conjunction | disjunction | negation | scope => rfl

/-- A kind that was read is typed. -/
theorem ofMembers?_gives (name : String) (members : List (String × Json)) :
    Gives IsTyped (ofMembers? name members) := by
  unfold ofMembers?
  dsimp only
  -- One case per name, in declaration order; only numbers and payloads have something to be checked.
  split
  case h_1 | h_10 => -- words and numbers
    refine .after fun fields => ?_
    split
    · exact (Json.required_gives Json.any?_gives).bind fun _ canonical => .some canonical
    · exact .none
  case h_2 => -- phrases
    refine .after fun fields => ?_
    split
    · exact .after fun _ => .after fun _ =>
        (Json.withDefault_gives (by decide) (Json.natBelow?_gives _)).bind fun _ bounded =>
          .after fun _ => .some bounded
    · exact .none
  case h_3 => -- ranges
    refine .after fun fields => ?_
    split
    · exact (Json.required_gives Json.any?_gives).bind fun _ lower =>
        (Json.required_gives Json.any?_gives).bind fun _ upper => .some ⟨lower, upper⟩
    · exact .none
  case h_5 => -- fuzzy texts
    refine .after fun fields => ?_
    split
    · exact .after fun _ =>
        (Json.withDefault_gives (by decide) (Json.natBelow?_gives _)).bind fun _ bounded =>
          .some bounded
    · exact .none
  case h_11 => -- arrays
    refine .after fun fields => ?_
    split
    · exact (Json.required_gives Values.ofJson?_gives).bind fun _ typed =>
        .after fun _ => .some typed
    · exact .none
  case h_20 => -- proximities
    refine .after fun fields => ?_
    split
    · exact (Json.required_gives (Json.natBelow?_gives _)).bind fun _ bounded =>
        .after fun _ => .some bounded
    · exact .none
  case h_21 => -- expansions
    refine .after fun fields => ?_
    split
    · exact .after fun _ => .after fun _ => .some trivial
    · exact .none
  case h_4 | h_6 | h_9 | h_12 | h_13 | h_18 | h_19 => -- a single text or truth value
    refine .after fun fields => ?_
    split
    · exact .after fun _ => .some trivial
    · exact .none
  -- kinds without members
  case h_7 | h_8 | h_14 | h_15 | h_16 | h_17 => exact .some trivial
  case h_22 => exact .none

end Kind

/-! ## Labels -/

namespace Label

/-- The names of the members of a node are different. -/
theorem keys_members_nodup (label : Label) (children : Option Json) :
    (Keyed.keys (label.members ++ [("children", children)])).Nodup := by
  obtain ⟨kind, _, _, _, _⟩ := label
  cases kind <;> simp [Keyed.keys, members, Kind.parts]

/-- **A label is read back** from the members of its node. -/
theorem ofMembers?_written {label : Label} (typed : label.IsTyped)
    (finite : label.HasFiniteBoost) (children : Option Json) :
    ofMembers? (Keyed.ofList (Json.present (label.members ++ [("children", children)]))) =
      some label := by
  have distinct := keys_members_nodup label children
  obtain ⟨written, written_eq⟩ : ∃ written,
    Keyed.ofList (Json.present (label.members ++ [("children", children)])) = written := ⟨_, rfl⟩
  have found {name : String} {value : Option Json} (mem : (name, value) ∈ label.members) :
      Keyed.find? name written = value :=
    written_eq ▸ Json.find?_present distinct (List.mem_append_left _ mem)
  have unrepeated : Json.unrepeated ("type" :: attributeNames) written = true :=
    written_eq ▸ Json.unrepeated_of_ascending _ (Keyed.ascending_ofList _)
  have type : Keyed.find? "type" written = some (.str label.kind.name) :=
    found (by simp [members])
  have kind : Kind.ofMembers? label.kind.name written = some label.kind :=
    written_eq ▸ Kind.ofMembers?_parts typed.kind
      (Json.fields?_of_subset distinct fun part mem => by simp [members, mem])
  have field : Keyed.find? "field" written = label.field.map .str := found (by simp [members])
  have operator : Keyed.find? "operator" written = some (.str label.operator.name) :=
    found (by simp [members])
  have boost : Keyed.find? "boost" written = label.boost.map .ofBinary :=
    found (by simp [members])
  have nestedPath : Keyed.find? "nested_path" written = label.nestedPath.map .str :=
    found (by simp [members])
  rw [written_eq]
  simp [ofMembers?, unrepeated, type, kind, field, operator, boost, nestedPath, Kind.tagName?,
    Json.plainVariant?, Json.variant?, Json.optional_binary? typed.boost finite]

/-- A label that was read is typed. -/
theorem ofMembers?_gives (members : List (String × Json)) : Gives IsTyped (ofMembers? members) := by
  unfold ofMembers?
  split
  · exact .none
  · exact .after fun name => (Kind.ofMembers?_gives name members).bind fun _ kind =>
      .after fun _ => .after fun _ =>
        (Json.optional_gives Json.binary?_single_gives).bind fun _ boost =>
          .after fun _ => .some ⟨kind, boost⟩

end Label

/-! ## Trees -/

namespace Tree

theorem toJson_ne_null (tree : Tree) : tree.toJson ≠ .null := by
  cases tree
  rw [toJson]
  exact Json.ofMembers_ne_null _

theorem childrenOf?_cons (key : String) (value : Json) (rest : List (String × Json)) :
    childrenOf? ((key, value) :: rest) =
      if key = "children" then
        match value with
        | .arr items => itemsOf? items
        | _ => none
      else childrenOf? rest := by
  cases value <;> simp [childrenOf?]

/-- The children are read from their member, which is an array. -/
theorem childrenOf?_eq (members : List (String × Json)) :
    childrenOf? members = match Keyed.find? "children" members with
      | none => some []
      | some (.arr items) => itemsOf? items
      | some _ => none := by
  induction members with
  | nil => rfl
  | cons member rest ih =>
    obtain ⟨key, value⟩ := member
    rw [childrenOf?_cons, Keyed.find?_cons]
    split
    · cases value <;> rfl
    · exact ih

mutual

/-- **A tree is read back** from its exchange form. -/
theorem ofJson?_toJson : (tree : Tree) → (∀ label ∈ tree.preorder, label.IsTyped) →
    (∀ label ∈ tree.preorder, label.HasFiniteBoost) → ofJson? tree.toJson = some tree
  | node label children, typed, finite => by
    rw [preorder_node, List.forall_mem_cons] at typed finite
    have items := itemsOf?_itemsToJson children typed.2 finite.2
    have read := Label.ofMembers?_written typed.1 finite.1 (childrenToJson? children)
    have found : Keyed.find? "children"
        (Keyed.ofList (Json.present (label.members ++ [("children", childrenToJson? children)]))) =
          childrenToJson? children :=
      Json.find?_present (Label.keys_members_nodup _ _) (by simp)
    rw [toJson, Json.ofPresent_eq, ofJson?, read, childrenOf?_eq, found]
    cases children with
    | nil => rfl
    | cons tree rest =>
      rw [itemsToJson] at items
      simp [childrenToJson?, items]

theorem itemsOf?_itemsToJson : (trees : List Tree) → (∀ label ∈ preorders trees, label.IsTyped) →
    (∀ label ∈ preorders trees, label.HasFiniteBoost) → itemsOf? (itemsToJson trees) = some trees
  | [], _, _ => rfl
  | tree :: rest, typed, finite => by
    rw [preorders_cons, List.forall_mem_append] at typed finite
    rw [itemsToJson, itemsOf?, ofJson?_toJson tree typed.1 finite.1,
      itemsOf?_itemsToJson rest typed.2 finite.2]
    rfl

end

mutual

/-- A tree that was read is typed. -/
theorem ofJson?_gives : (value : Json) → Gives IsTyped (ofJson? value)
  | .obj members => by
    rw [ofJson?]
    exact (Label.ofMembers?_gives members).bind fun label typed =>
      (childrenOf?_gives members).bind fun children below => .some (by
        rw [IsTyped, preorder_node]
        exact List.forall_mem_cons.mpr ⟨typed, below⟩)
  | .null | .bool _ | .int _ | .float _ | .str _ | .arr _ => .none

theorem childrenOf?_gives : (members : List (String × Json)) →
    Gives (fun trees => ∀ label ∈ preorders trees, label.IsTyped) (childrenOf? members)
  | [] => .some (by simp)
  | (key, value) :: rest => by
    rw [childrenOf?_cons]
    split
    · cases value with
      | arr items => exact itemsOf?_gives items
      | null | bool | int | float | str | obj => exact .none
    · exact childrenOf?_gives rest

theorem itemsOf?_gives : (items : List Json) →
    Gives (fun trees => ∀ label ∈ preorders trees, label.IsTyped) (itemsOf? items)
  | [] => .some (by simp)
  | item :: rest => by
    rw [itemsOf?]
    exact (ofJson?_gives item).bind fun tree typed => (itemsOf?_gives rest).bind fun trees others =>
      .some (by
        rw [preorders_cons]
        exact List.forall_mem_append.mpr ⟨typed, others⟩)

end

end Tree

end Query

end LinkedSearch
