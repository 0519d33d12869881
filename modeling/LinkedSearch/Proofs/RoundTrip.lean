import LinkedSearch.Query.Request
import LinkedSearch.Proofs.Exchanging

/-!
# Requests, read back

A request is written as a document and read from one. Whatever can be read can be written and read
again, with the same result, as long as its boosts are finite: no default of the reader differs from
what the writer leaves out, and no payload changes on the way.

* `AggregateKind.IsTyped`, `Request.IsTyped`: what the types of the exchange form hold.
* `levels?_chainToJson?`: a chain of aggregates is read back.
* `Request.ofJson?_gives`: a request that was read is typed.
* `Request.roundTrips`: every request with finite boosts is read back from its exchange form.
-/

namespace LinkedSearch.Query

/-! ## Aggregates -/

namespace AggregateKind

/-- Numbers of terms of 32 bits. -/
def IsTyped : AggregateKind → Prop
  | tally _ maxTerms _ | significantTerms _ maxTerms => maxTerms < 4294967296
  | range _ | extendedStats => True

instance : DecidablePred IsTyped
  | .tally _ maxTerms _ | .significantTerms _ maxTerms =>
    inferInstanceAs (Decidable (maxTerms < 4294967296))
  | .range _ | .extendedStats => isTrue trivial

/-- The members of a kind beside its tag. -/
def parts : AggregateKind → List (String × Json)
  | tally stem maxTerms order =>
    [("stem", .str stem), ("max_terms", .ofNat maxTerms), ("sort_order", .str order.name)]
  | range ranges => [("range_spec", .str ranges)]
  | significantTerms stem maxTerms => [("stem", .str stem), ("max_terms", .ofNat maxTerms)]
  | extendedStats => []

theorem toJson_eq (kind : AggregateKind) :
    kind.toJson = .ofMembers (("type", .str kind.name) :: kind.parts) := by
  cases kind <;> rfl

theorem keys_parts_nodup (kind : AggregateKind) :
    (Keyed.keys (("type", .str kind.name) :: kind.parts)).Nodup := by
  cases kind <;> simp [Keyed.keys, parts]

theorem ofJson?_toJson {kind : AggregateKind} (typed : kind.IsTyped) :
    ofJson? kind.toJson = some kind := by
  have distinct := keys_parts_nodup kind
  obtain ⟨written, written_eq⟩ : ∃ written,
    Keyed.ofList (("type", .str kind.name) :: kind.parts) = written := ⟨_, rfl⟩
  have unrepeated : Json.unrepeated ["type"] written = true :=
    written_eq ▸ Json.unrepeated_of_ascending _ (Keyed.ascending_ofList _)
  have type : Keyed.find? "type" written = some (.str kind.name) := by
    rw [← written_eq, Keyed.find?_ofList distinct, Keyed.find?_cons, if_pos rfl]
  have fields : (Json.obj written).fields? (Keyed.keys kind.parts) =
      some (kind.parts.map fun member => some member.2) :=
    written_eq ▸ Json.fields?_ofMembers_of_subset distinct (List.subset_cons_self ..)
  rw [toJson_eq, Json.ofMembers, written_eq]
  cases kind with
  | tally stem maxTerms order =>
    obtain ⟨number, number_eq, read⟩ := Json.nat32?_written typed
    have fields : (Json.obj written).fields? ["stem", "max_terms", "sort_order"] =
        some [some (.str stem), some number, some (.str order.name)] := number_eq ▸ fields
    simp [ofJson?, unrepeated, type, name, fields, read, Json.plainVariant?, Json.variant?]
  | range ranges =>
    have fields : (Json.obj written).fields? ["range_spec"] = some [some (.str ranges)] := fields
    simp [ofJson?, unrepeated, type, name, fields]
  | significantTerms stem maxTerms =>
    obtain ⟨number, number_eq, read⟩ := Json.nat32?_written typed
    have fields : (Json.obj written).fields? ["stem", "max_terms"] =
        some [some (.str stem), some number] := number_eq ▸ fields
    simp [ofJson?, unrepeated, type, name, fields, read]
  | extendedStats => simp [ofJson?, unrepeated, type, name]

theorem ofJson?_gives (value : Json) : Gives IsTyped (ofJson? value) := by
  cases value with
  | obj members =>
    unfold ofJson?
    dsimp only
    split
    · exact .none
    refine .after fun name => ?_
    split
    · refine .after fun fields => ?_
      split
      · exact .after fun _ => (Json.required_gives (Json.natBelow?_gives _)).bind fun _ bounded =>
          .after fun _ => .some bounded
      · exact .none
    · refine .after fun fields => ?_
      split
      · exact .after fun _ => .some trivial
      · exact .none
    · refine .after fun fields => ?_
      split
      · exact .after fun _ => (Json.required_gives (Json.natBelow?_gives _)).bind fun _ bounded =>
          .some bounded
      · exact .none
    · exact .some trivial
    · exact .none
  | null | bool | int | float | str | arr => exact .none

end AggregateKind

/-! ### Chains -/

namespace AggregateLevel

/-- The members of an aggregate, where the one inside it is written already. -/
def members (level : AggregateLevel) (inner : Option Json) : List (String × Option Json) :=
  [("kind", some level.kind.toJson), ("field", some (.str level.field)),
    ("nested_path", level.nestedPath.map .str), ("sub_aggregate", inner)]

theorem keys_members_nodup (level : AggregateLevel) (inner : Option Json) :
    (Keyed.keys (level.members inner)).Nodup := by
  simp [Keyed.keys, members]

theorem ofJson?_written {level : AggregateLevel} (typed : level.kind.IsTyped)
    (inner : Option Json) : ofJson? (.ofPresent (level.members inner)) = some level := by
  have fields : (Json.ofPresent (level.members inner)).fields?
      ["kind", "field", "nested_path", "sub_aggregate"] = some [some level.kind.toJson,
        some (.str level.field), level.nestedPath.map .str, inner] :=
    Json.fields?_ofPresent _ (keys_members_nodup level inner)
  simp [ofJson?, fields, AggregateKind.ofJson?_toJson typed]

theorem ofJson?_gives (value : Json) :
    Gives (fun level : AggregateLevel => level.kind.IsTyped) (ofJson? value) := by
  refine .after fun fields => ?_
  split
  · exact (Json.required_gives AggregateKind.ofJson?_gives).bind fun _ typed =>
      .after fun _ => .after fun _ => .some typed
  · exact .none

end AggregateLevel

/-- The levels inside an aggregate are read from their member. -/
theorem innerLevels?_eq (members : List (String × Json)) :
    innerLevels? members = match Keyed.find? "sub_aggregate" members with
      | none => some []
      | some value => levels? value := by
  induction members with
  | nil => rfl
  | cons member rest ih =>
    obtain ⟨key, value⟩ := member
    rw [innerLevels?, Keyed.find?_cons]
    split
    · rfl
    · exact ih

/-- **A chain of aggregates is read back**, level by level. -/
theorem levels?_chainToJson? {levels : List AggregateLevel}
    (typed : ∀ level ∈ levels, level.kind.IsTyped) :
    ∀ value, chainToJson? levels = some value → levels? value = some levels := by
  induction levels with
  | nil => simp [chainToJson?]
  | cons level rest ih =>
    rintro _ ⟨⟩
    obtain ⟨level_typed, rest_typed⟩ := List.forall_mem_cons.mp typed
    have read := AggregateLevel.ofJson?_written level_typed (chainToJson? rest)
    have inner : innerLevels? (Keyed.ofList (Json.present (level.members (chainToJson? rest)))) =
        some rest := by
      rw [innerLevels?_eq, Json.find?_present (AggregateLevel.keys_members_nodup ..)
        (by simp [AggregateLevel.members] : ("sub_aggregate", chainToJson? rest) ∈ _)]
      cases written : chainToJson? rest with
      | none =>
        cases rest with
        | nil => rfl
        | cons => cases written
      | some value => exact ih rest_typed value written
    change levels? (.ofPresent (level.members (chainToJson? rest))) = _
    rw [Json.ofPresent_eq] at read ⊢
    simp [levels?, read, inner]

theorem AggregateLevel.single_gives (value : Json) :
    Gives (fun levels : List AggregateLevel => ∀ level ∈ levels, level.kind.IsTyped)
      ((AggregateLevel.ofJson? value).map ([·])) := by
  intro levels mem
  obtain ⟨level, read, rfl⟩ := Option.map_eq_some_iff.mp mem
  exact List.forall_mem_singleton.mpr (AggregateLevel.ofJson?_gives value level read)

mutual

/-- The levels that were read are typed. -/
theorem levels?_gives : (value : Json) →
    Gives (fun levels : List AggregateLevel => ∀ level ∈ levels, level.kind.IsTyped) (levels? value)
  | .null => .some (by simp)
  | .obj members => by
    rw [levels?]
    exact (AggregateLevel.ofJson?_gives _).bind fun level typed =>
      (innerLevels?_gives members).bind fun inner others =>
        .some (List.forall_mem_cons.mpr ⟨typed, others⟩)
  | .arr [kind, field, nestedPath, inner] => by
    rw [levels?]
    exact (AggregateLevel.ofJson?_gives _).bind fun level typed =>
      (levels?_gives inner).bind fun inner others =>
        .some (List.forall_mem_cons.mpr ⟨typed, others⟩)
  | .bool _ | .int _ | .float _ | .str _ | .arr [] | .arr [_] | .arr [_, _] | .arr [_, _, _]
  | .arr (_ :: _ :: _ :: _ :: _ :: _) => by
    simp only [levels?]
    exact AggregateLevel.single_gives _

theorem innerLevels?_gives : (members : List (String × Json)) →
    Gives (fun levels : List AggregateLevel => ∀ level ∈ levels, level.kind.IsTyped)
      (innerLevels? members)
  | [] => .some (by simp)
  | (key, value) :: rest => by
    rw [innerLevels?]
    split
    · exact levels?_gives value
    · exact innerLevels?_gives rest

end

namespace Aggregate

theorem ofJson?_toJson {aggregate : Aggregate}
    (typed : ∀ level ∈ aggregate.levels, level.kind.IsTyped) :
    ofJson? aggregate.toJson = some aggregate := by
  have read := levels?_chainToJson? typed aggregate.toJson rfl
  simp [ofJson?, read, levels]

theorem ofJson?_gives (value : Json) :
    Gives (fun aggregate : Aggregate => ∀ level ∈ aggregate.levels, level.kind.IsTyped)
      (ofJson? value) := by
  refine (levels?_gives value).bind fun levels typed => ?_
  split
  · exact .some typed
  · exact .none

end Aggregate

/-! ## Suggestions -/

namespace Suggestion

theorem ofJson?_toJson {suggestion : Suggestion} (typed : suggestion.maxTerms < 4294967296) :
    ofJson? suggestion.toJson = some suggestion := by
  obtain ⟨number, number_eq, read⟩ := Json.nat32?_written typed
  have fields : suggestion.toJson.fields? ["field", "stem", "max_terms"] =
      some [some (.str suggestion.field), some (.str suggestion.stem), some number] :=
    number_eq ▸ Json.fields?_ofMembers [("field", _), ("stem", _), ("max_terms", _)]
      (by simp [Keyed.keys])
  simp [ofJson?, fields, read]

theorem ofJson?_gives (value : Json) :
    Gives (fun suggestion : Suggestion => suggestion.maxTerms < 4294967296) (ofJson? value) := by
  refine .after fun fields => ?_
  split
  · exact .after fun _ => .after fun _ =>
      (Json.required_gives (Json.natBelow?_gives _)).bind fun _ bounded => .some bounded
  · exact .none

end Suggestion

/-! ## Requests -/

namespace Request

/-- **Typed requests**: the values that the types of the exchange form hold. -/
structure IsTyped (request : Request) : Prop where
  query : ∀ tree ∈ request.query, tree.IsTyped
  aggregate : ∀ aggregate ∈ request.aggregate, ∀ level ∈ aggregate.levels, level.kind.IsTyped
  suggestion : ∀ suggestion ∈ request.suggestion, suggestion.maxTerms < 4294967296
  arrayData : Keyed.Ascending request.arrayData

instance : DecidablePred IsTyped := fun request =>
  decidable_of_iff ((∀ tree ∈ request.query, tree.IsTyped) ∧
      (∀ aggregate ∈ request.aggregate, ∀ level ∈ aggregate.levels, level.kind.IsTyped) ∧
      (∀ suggestion ∈ request.suggestion, suggestion.maxTerms < 4294967296) ∧
      Keyed.Ascending request.arrayData)
    ⟨fun ⟨query, aggregate, suggestion, arrayData⟩ => ⟨query, aggregate, suggestion, arrayData⟩,
      fun typed => ⟨typed.query, typed.aggregate, typed.suggestion, typed.arrayData⟩⟩

/-- No boost of the query is infinite or not a number. -/
def HasFiniteBoosts (request : Request) : Prop := ∀ tree ∈ request.query, tree.HasFiniteBoosts

instance : DecidablePred HasFiniteBoosts := fun request =>
  inferInstanceAs (Decidable (∀ tree ∈ request.query, tree.HasFiniteBoosts))

/-- An absent part of a request is written as `null`. -/
theorem optional_getD {α : Type} {x : Option α} {read : Json → Option α} {write : α → Json}
    (back : ∀ y ∈ x, read (write y) = some y) (nonnull : ∀ y ∈ x, write y ≠ .null) :
    Json.optional read (some ((x.map write).getD .null)) = some x := by
  cases x with
  | none => rfl
  | some y => exact Json.optional_map back nonnull

/-- A typed request with finite boosts is read back from its exchange form. -/
theorem ofJson?_toJson {request : Request} (typed : request.IsTyped)
    (finite : request.HasFiniteBoosts) : ofJson? request.toJson = some request := by
  have fields : request.toJson.fields? ["options", "query", "aggregate", "suggest", "array_data"] =
      some [some (.arr (request.links.map Link.toJson)),
        some ((request.query.map Tree.toJson).getD .null),
        some ((request.aggregate.map Aggregate.toJson).getD .null),
        some ((request.suggestion.map Suggestion.toJson).getD .null),
        some (.obj (Keyed.mapValues .str request.arrayData))] :=
    Json.fields?_ofMembers [("options", _), ("query", _), ("aggregate", _), ("suggest", _),
      ("array_data", _)] (by simp [Keyed.keys])
  have links : Json.list? Link.ofJson? (.arr (request.links.map Link.toJson)) =
      some request.links := Json.list?_map fun link _ => link.ofJson?_toJson
  have query : Json.optional Tree.ofJson? (some ((request.query.map Tree.toJson).getD .null)) =
      some request.query :=
    optional_getD (fun tree mem => tree.ofJson?_toJson (typed.query tree mem) (finite tree mem))
      fun tree _ => tree.toJson_ne_null
  have aggregate : Json.optional Aggregate.ofJson?
      (some ((request.aggregate.map Aggregate.toJson).getD .null)) = some request.aggregate :=
    optional_getD (fun aggregate mem => Aggregate.ofJson?_toJson (typed.aggregate aggregate mem))
      fun _ _ => Json.ofMembers_ne_null _
  have suggestion : Json.optional Suggestion.ofJson?
      (some ((request.suggestion.map Suggestion.toJson).getD .null)) = some request.suggestion :=
    optional_getD
      (fun suggestion mem => Suggestion.ofJson?_toJson (typed.suggestion suggestion mem))
      fun _ _ => Json.ofMembers_ne_null _
  have arrayData : Json.table? Json.string? (.obj (Keyed.mapValues .str request.arrayData)) =
      some request.arrayData := Json.table?_mapValues typed.arrayData fun _ => rfl
  simp [ofJson?, fields, links, query, aggregate, suggestion, arrayData]

/-- A request that was read is typed. -/
theorem ofJson?_gives (document : Json) : Gives IsTyped (ofJson? document) := by
  refine .after fun fields => ?_
  split
  · exact .after fun _ => (Json.optional_gives Tree.ofJson?_gives).bind fun _ query =>
      (Json.optional_gives Aggregate.ofJson?_gives).bind fun _ aggregate =>
        (Json.optional_gives Suggestion.ofJson?_gives).bind fun _ suggestion =>
          (Json.withDefault_gives Keyed.ascending_nil (Json.table?_gives _)).bind
            fun _ arrayData => .some ⟨query, aggregate, suggestion, arrayData⟩
  · exact .none

/-- Typed are exactly the requests that some document describes. -/
theorem isTyped_iff_read {request : Request} (finite : request.HasFiniteBoosts) :
    request.IsTyped ↔ ∃ document, ofJson? document = some request :=
  ⟨fun typed => ⟨request.toJson, ofJson?_toJson typed finite⟩,
    fun ⟨document, read⟩ => ofJson?_gives document request read⟩

/-- **The exchange form round-trips**: every typed request with finite boosts is read back from what
is written for it; and what was read from any document, with finite boosts, is read again from what
is written for it. -/
theorem roundTrips :
    (∀ request : Request, request.IsTyped → request.HasFiniteBoosts →
      ofJson? request.toJson = some request) ∧
    ∀ (document : Json) (request : Request), ofJson? document = some request →
      request.HasFiniteBoosts → ofJson? request.toJson = some request := by
  refine ⟨fun request typed finite => ofJson?_toJson typed finite, ?_⟩
  intro document request read finite
  have typed : request.IsTyped := ofJson?_gives document request read
  exact ofJson?_toJson typed finite

/-- A weighted word with a payload beside values from another index, with nested aggregates. -/
def ownedRequest : Request where
  links := [⟨some "owner", "owner_id", "users", "id"⟩]
  query := some (.conjunction [
    (Tree.word "meta" (.obj [("a", .null), ("b", .arr [.int 1])])).withBoost
      (.finite (.dyadic (.ofIntWithPrec 3 1))),
    .expansion (.unnamed "owner_id" "users" "id")
      (.leaf "id" (.array (.external [.str "x"] 3) true))])
  aggregate := some ⟨{ kind := .tally "^.*" 10 .count, field := "tag", nestedPath := some "tags" },
    [{ kind := .extendedStats, field := "price" }]⟩
  suggestion := some ⟨"tag", "x", 5⟩
  arrayData := [("ids", "1,2"), ("more", "3")]

/-- A document with members out of order, a kind by position and everything else left out. -/
def terseDocument : Json :=
  .obj [("query", .obj [("value", .null), ("type", .int 0), ("boost", .int 2)])]

/-- What the terse document describes. -/
def terseRequest : Request where
  query := some (.node { kind := .word .null, boost := some (.finite (.dyadic 2)) } [])

theorem roundTrips_ownedRequest :
    ownedRequest.IsTyped ∧ ownedRequest.HasFiniteBoosts ∧
    ofJson? ownedRequest.toJson = some ownedRequest ∧
    ofJson? terseDocument = some terseRequest ∧ terseRequest.HasFiniteBoosts ∧
    terseRequest.toJson ≠ terseDocument ∧ ofJson? terseRequest.toJson = some terseRequest :=
  ⟨by decide, by decide, roundTrips.1 ownedRequest (by decide) (by decide), rfl, by decide, by decide,
    roundTrips.2 terseDocument terseRequest rfl (by decide)⟩

end Request

end LinkedSearch.Query
