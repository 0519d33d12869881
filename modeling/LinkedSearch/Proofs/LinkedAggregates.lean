import LinkedSearch.Proofs.Addressing

/-! # Aggregates addressed through a link

A field of a linked index is addressed by the name of the link and its own name. The aggregate of such a field
belongs to the linked index, and is reported under the name that the field has there. Compiled is the aggregate of
the *qualified* name: it is looked up as such in the mapping of the linked index, and it is what the aggregation is
sent for.

* `aggregationBy`: the aggregation of a level, given the mapping that is consulted.
* `Aggregation.mapField`, `AggregateKind.SameFor`: aggregations of two fields that differ in the field alone.
* `body_used`: the aggregate of a compiler, given the mapping of its primary index.
* `linked_aggregation`: the aggregate of a qualified name beside the one of a compiler of the linked index. -/

namespace LinkedSearch

open Query (AggregateKind AggregateLevel RangeEntry Request)
open Schema (Mapping)

namespace Aggregation

/-- The aggregation over another field. -/
def mapField (rename : String → String) : Aggregation → Aggregation
  | terms field size shardSize order pattern => terms (rename field) size shardSize order pattern
  | dateHistogram field interval format order => dateHistogram (rename field) interval format order
  | dateRange field entries => dateRange (rename field) entries
  | range field entries => range (rename field) entries
  | significantTerms field size pattern => significantTerms (rename field) size pattern
  | extendedStats field => extendedStats (rename field)
  | nested path => nested path
  | filter fragment => filter fragment
  | missing field => missing (rename field)

/-- The field of an aggregation of a level. -/
def field? : Aggregation → Option String
  | terms field .. | dateHistogram field .. | dateRange field _ | range field _ | significantTerms field ..
  | extendedStats field | missing field => some field
  | nested _ | filter _ => none

/-- Whether an aggregation is over dates. -/
def isOverDates : Aggregation → Bool
  | dateHistogram .. | dateRange .. => true
  | _ => false

end Aggregation

namespace Query

/-- The name of a field of a linked index: the name of the link stands in front of it. -/
def qualified (name field : String) : String := name ++ "." ++ field

/-- A qualified name is another one than the name itself. -/
theorem qualified_ne (name field : String) : qualified name field ≠ field := by
  intro heq
  have hlength := congrArg String.length heq
  simp [qualified] at hlength

/-- The companion of a qualified name is the qualified name of the companion. -/
theorem dateCompanion_qualified (name field : String) :
    Schema.dateCompanion (qualified name field) = qualified name (Schema.dateCompanion field) := by
  simp [Schema.dateCompanion, qualified, String.append_assoc]

/-- A qualified name is taken apart where the name of the link ends. -/
theorem split_qualified {name : String} (h : '.' ∉ name.toList) (field : String) :
    splitTextFirst? '.' (qualified name field) = some (name, field) :=
  splitTextFirst?_of h (by simp [qualified])

/-- The level over a qualified name. -/
def AggregateLevel.qualified (name : String) (level : AggregateLevel) : AggregateLevel :=
  { level with field := Query.qualified name level.field }

/-- **Alike**: a mapping gives two fields aggregations of a kind that differ in the field alone. Tallies consult the
interval, and without one the pattern for the terms; ranges consult whether there are dates, unless the text describes
no ranges either way; significant terms consult the pattern, and statistics nothing. -/
def AggregateKind.SameFor (mapping : Mapping) (field other : String) : AggregateKind → Prop
  | .tally stem _ _ =>
    Compile.interval? mapping field stem = Compile.interval? mapping other stem ∧
      (Compile.interval? mapping other stem = none →
        Compile.termPattern mapping field stem = Compile.termPattern mapping other stem)
  | .range text =>
    mapping.hasDateCompanion field = mapping.hasDateCompanion other ∨
      ∃ error, RangeEntry.parseDates text = .error error ∧ RangeEntry.parseNumeric text = .error error
  | .significantTerms stem _ => Compile.termPattern mapping field stem = Compile.termPattern mapping other stem
  | .extendedStats => True

end Query

open Query (qualified qualified_ne dateCompanion_qualified split_qualified)

/-! ## Aggregations by a mapping -/

namespace Compile

variable {env : Environment} {p : Progress} {mapping : Mapping} {level : AggregateLevel}

/-- **The aggregation of a level**, given the mapping that is consulted. -/
def aggregationBy (mapping : Mapping) (level : AggregateLevel) : Except Error Aggregation :=
  match level.kind with
  | .tally stem maxTerms order =>
    match interval? mapping level.field stem with
    | some interval =>
      match interval.format? with
      | some format => .ok (.dateHistogram (Schema.dateCompanion level.field) interval format (.ofHistogram order))
      | none => .error (.unsupportedInterval stem)
    | none => .ok (.terms level.field maxTerms 0 (.ofTally order) (termPattern mapping level.field stem))
  | .range text =>
    if mapping.hasDateCompanion level.field then
      (RangeEntry.parseDates text).map (.dateRange (Schema.dateCompanion level.field))
    else (RangeEntry.parseNumeric text).map (.range level.field)
  | .significantTerms stem maxTerms =>
    .ok (.significantTerms level.field maxTerms (termPattern mapping level.field stem))
  | .extendedStats => .ok (.extendedStats level.field)

/-- **A level is compiled by the mapping of the owner of its field** if this owner is the primary index. -/
theorem exec_aggregation (hp : Sound env p)
    (howner : p.metadata.ownerMapping env.resolver level.field = .ok mapping)
    (hprimary : env.resolver.mapping p.metadata.primary.index = .ok mapping) :
    ∃ q, exec (aggregation env level) p = (aggregationBy mapping level, q) := by
  obtain ⟨q, hexec, -⟩ := exec_mappingOf hp level.field
  rw [howner] at hexec
  unfold aggregation aggregationBy
  cases level.kind with
  | tally stem maxTerms order =>
    refine ⟨q, ?_⟩
    simp only [tally]
    rw [exec_bind, hexec]
    simp only
    cases interval? mapping level.field stem with
    | none => rfl
    | some interval => cases hformat : interval.format? <;> simp only [hformat] <;> rfl
  | range text =>
    refine ⟨q, ?_⟩
    simp only [ranges]
    rw [exec_bind, hexec]
    simp only
    split
    · exact exec_return _ _ _
    · exact exec_return _ _ _
  | significantTerms stem maxTerms =>
    -- here the mapping of the primary index is consulted, whoever owns the field
    obtain ⟨s, hexec', -⟩ := exec_look_of (Metadata.exec_primaryMapping hp.faithful)
    refine ⟨s, ?_⟩
    simp only [significant]
    rw [exec_bind, hexec', hprimary]
    rfl
  | extendedStats => exact ⟨p, rfl⟩

/-- The field of a compiled aggregation is the one of its level, or the companion of that one for dates. -/
theorem field_of_aggregationBy {compiled : Aggregation} (h : aggregationBy mapping level = .ok compiled) :
    compiled.field? =
      some (if compiled.isOverDates then Schema.dateCompanion level.field else level.field) := by
  unfold aggregationBy at h
  split at h
  · split at h
    · split at h
      · cases h
        rfl
      · cases h
    · cases h
      rfl
  · next text _ =>
    split at h
    · cases hparse : RangeEntry.parseDates text with
      | error error => rw [hparse] at h; cases h
      | ok entries => rw [hparse] at h; cases h; rfl
    · cases hparse : RangeEntry.parseNumeric text with
      | error error => rw [hparse] at h; cases h
      | ok entries => rw [hparse] at h; cases h; rfl
  · cases h
    rfl
  · cases h
    rfl

/-- **Qualified names are told apart**: the aggregations of a field and of a qualified name of it are never equal. -/
theorem aggregationBy_qualified_eq_iff (mapping : Mapping) (level : AggregateLevel) (name : String) :
    aggregationBy mapping (level.qualified name) = aggregationBy mapping level ↔
      ∃ error, aggregationBy mapping (level.qualified name) = .error error ∧
        aggregationBy mapping level = .error error := by
  constructor
  · intro heq
    cases hcompiled : aggregationBy mapping level with
    | error error => exact ⟨error, heq.trans hcompiled, rfl⟩
    | ok compiled =>
      -- both fields are that of the one aggregation, whether it is over dates or not
      have hfield := field_of_aggregationBy hcompiled
      rw [field_of_aggregationBy (heq.trans hcompiled)] at hfield
      exfalso
      split at hfield
      · refine qualified_ne name level.field ?_
        exact (String.append_left_inj _).mp (Option.some.inj hfield)
      · exact qualified_ne name level.field (Option.some.inj hfield)
  · rintro ⟨error, hlinked, hdirect⟩
    rw [hlinked, hdirect]

/-- The interval of a stem does not depend on the field, if there is one. -/
theorem interval?_eq_ofName {field stem : String} {interval : Interval}
    (h : interval? mapping field stem = some interval) : Interval.ofName? stem = some interval := by
  unfold interval? at h
  split at h
  · exact h
  · cases h

/-- **Qualified names are compiled alike** if and only if the mapping treats them alike. -/
theorem aggregationBy_qualified_map_iff (mapping : Mapping) (level : AggregateLevel) (name : String) :
    aggregationBy mapping (level.qualified name) =
        (aggregationBy mapping level).map (Aggregation.mapField (qualified name)) ↔
      level.kind.SameFor mapping (qualified name level.field) level.field := by
  obtain ⟨kind, field, path⟩ := level
  have hcompanion := dateCompanion_qualified name field
  cases kind with
  | tally stem maxTerms order =>
    simp only [aggregationBy, AggregateLevel.qualified, AggregateKind.SameFor]
    cases hlinked : interval? mapping (qualified name field) stem with
    | none =>
      cases hdirect : interval? mapping field stem with
      | none => simp [Except.map, Aggregation.mapField]
      | some interval => cases hformat : interval.format? <;> simp [hformat, Except.map, Aggregation.mapField]
    | some interval =>
      cases hdirect : interval? mapping field stem with
      | none => cases hformat : interval.format? <;> simp [hformat, Except.map, Aggregation.mapField]
      | some interval' =>
        -- both intervals are the one that the stem names
        obtain rfl : interval = interval' :=
          Option.some.inj ((interval?_eq_ofName hlinked).symm.trans (interval?_eq_ofName hdirect))
        cases hformat : interval.format? <;> simp [hformat, Except.map, Aggregation.mapField, hcompanion]
  | range text =>
    simp only [aggregationBy, AggregateLevel.qualified, AggregateKind.SameFor]
    by_cases hlinked : mapping.hasDateCompanion (qualified name field) <;>
      by_cases hdirect : mapping.hasDateCompanion field <;>
      cases RangeEntry.parseDates text <;> cases RangeEntry.parseNumeric text <;>
      simp [hlinked, hdirect, Except.map, Aggregation.mapField, hcompanion, eq_comm]
  | significantTerms stem maxTerms =>
    simp [aggregationBy, AggregateLevel.qualified, AggregateKind.SameFor, Except.map, Aggregation.mapField]
  | extendedStats =>
    simp [aggregationBy, AggregateLevel.qualified, AggregateKind.SameFor, Except.map, Aggregation.mapField]

end Compile

/-! ## Aggregates of compilers -/

namespace Compiler

open Compile

variable {setup direct : Setup} {compiler other : Compiler}

section Bodies

variable {α β : Type} {x y : Except Error α}

theorem map_some_eq_map_some : x.map some = y.map some ↔ x = y := by
  cases x <;> cases y <;> simp [Except.map]

theorem map_some_eq_error {error : Error} : x.map some = .error error ↔ x = .error error := by
  cases x <;> simp [Except.map]

theorem map_some_map (f : α → β) : (x.map some).map (·.map f) = (x.map f).map some := by
  cases x <;> rfl

end Bodies

/-- The aggregation that a compiler sends, without the name under which it is answered. -/
def aggregationBody (compiler : Compiler) : Except Error (Option Aggregation) :=
  compiler.aggregation.1.map fun tree => tree.map (·.aggregation)

/-- A compiler with a single aggregate sends the aggregation by the mapping of its primary index. -/
theorem body_of_owner (h : compiler.Idle) {level : AggregateLevel} {mapping : Mapping}
    (haggregate : compiler.progress.draft.aggregate = some ⟨level, []⟩) (hflat : level.nestedPath = none)
    (howner : compiler.progress.metadata.owner compiler.environment.resolver level.field =
      .ok compiler.progress.metadata.primary)
    (hmapping : compiler.environment.resolver.mapping compiler.progress.metadata.primary.index = .ok mapping) :
    compiler.aggregationBody = (aggregationBy mapping level).map some := by
  have hmapped : compiler.progress.metadata.ownerMapping compiler.environment.resolver level.field =
      .ok mapping := by rw [Metadata.ownerMapping, howner, ← hmapping]
  have hsound : Sound compiler.environment { compiler.progress with aggregating := true } :=
    ⟨h.sound.ascending, h.sound.faithful⟩
  obtain ⟨q, hexec⟩ : ∃ q, exec (Compile.aggregation compiler.environment level)
      { compiler.progress with aggregating := true } = (aggregationBy mapping level, q) :=
    exec_aggregation hsound hmapped hmapping
  have haggregation : compiler.aggregation.1 =
      (aggregationBy mapping level).map fun compiled => some (.leaf level.field compiled) := by
    show (exec (Compile.aggregate compiler.environment) compiler.progress).1 = _
    rw [Compile.aggregate, exec_get_bind, haggregate]
    show (exec (do return some (← levels compiler.environment level [])) _).1 = _
    rw [exec_bind, levels, exec_bind, hexec]
    cases aggregationBy mapping level with
    | error error => rfl
    | ok compiled =>
      simp only [inScope, hflat]
      rfl
  rw [aggregationBody, haggregation]
  cases aggregationBy mapping level <;> rfl

/-- A field with a qualified name is reported without the name of the link that owns it. -/
theorem aggregateField_of_owner (h : compiler.Idle) {level : AggregateLevel} {name field : String}
    (haggregate : compiler.progress.draft.aggregate = some ⟨level, []⟩)
    (hfield : level.field = qualified name field) (hname : '.' ∉ name.toList) {link : Link}
    (howner : compiler.progress.metadata.owner compiler.environment.resolver level.field = .ok link)
    (hlink : link.name = some name) : compiler.aggregateField.1 = .ok field := by
  obtain ⟨q, hexec, -⟩ := exec_ownerOf h.sound level.field
  rw [howner] at hexec
  have hsplit : splitTextFirst? '.' level.field = some (name, field) := by rw [hfield, split_qualified hname]
  show (exec _ compiler.progress).1 = _
  simp only [haggregate, hsplit]
  rw [exec_bind, hexec]
  simp only [hlink, if_true]
  rfl

/-- The subject of a request belongs to the primary link, whatever a compiler was used for. -/
theorem owner_used (h : setup.Started compiler) {field : String}
    (hsubject : Request.subjectField? setup.request.aggregate setup.request.suggestion = some field)
    (uses : List Use) :
    (compiler.used uses).progress.metadata.primary = compiler.progress.metadata.primary ∧
      (compiler.used uses).progress.metadata.owner (compiler.used uses).environment.resolver field =
        .ok (compiler.used uses).progress.metadata.primary := by
  have hgrows := (used_evolves (idle_of_started h) uses).grows
  refine ⟨hgrows.primary_eq, ?_⟩
  rw [used_environment, hgrows.owner_eq, hgrows.primary_eq]
  have howner := Metadata.owner_of_owner (h.owner_eq field hsubject).1
  exact howner

/-- **A single aggregate** is compiled by the mapping of the index that owned its field at the start, whatever the
compiler was used for. -/
theorem body_used (h : setup.Started compiler) {level : AggregateLevel} {mapping : Mapping}
    (haggregate : setup.request.aggregate = some ⟨level, []⟩) (hflat : level.nestedPath = none)
    (hmapping : compiler.environment.resolver.mapping compiler.progress.metadata.primary.index = .ok mapping)
    (uses : List Use) : (compiler.used uses).aggregationBody = (aggregationBy mapping level).map some := by
  have hsubject : Request.subjectField? setup.request.aggregate setup.request.suggestion = some level.field := by
    rw [haggregate]
    rfl
  obtain ⟨hprimary, howner⟩ := owner_used h hsubject uses
  refine body_of_owner ((idle_of_started h).used uses) ((aggregate_used h uses).trans haggregate) hflat howner ?_
  rw [used_environment, hprimary]
  exact hmapping

/-- A field with a qualified name belongs to the first link of that name. -/
theorem primary_of_qualified (h : setup.Started compiler) {name field : String} {link : Link}
    (hsubject : Request.subjectField? setup.request.aggregate setup.request.suggestion =
      some (qualified name field))
    (hname : '.' ∉ name.toList) (hlink : setup.request.links.find? (·.name = some name) = some link) :
    compiler.progress.metadata.primary = link := by
  have hnamed : ({ compiler.progress.metadata with primary := compiler.progress.metadata.origin } :
      Metadata).namedLink? (qualified name field) = some link := by
    rw [Metadata.namedLink?, split_qualified hname]
    simp only [Option.bind_some, Metadata.linkNamed?, h.links_eq]
    exact hlink
  have howner := (h.owner_eq _ hsubject).1
  unfold Metadata.owner at howner
  rw [hnamed] at howner
  exact (Except.ok.inj howner).symm

/-- A field of the index of a request that names no link belongs to this index itself. -/
theorem primary_of_field (h : setup.Started compiler) {field : String} {mapping : Mapping}
    (hsubject : Request.subjectField? setup.request.aggregate setup.request.suggestion = some field)
    (hunnamed : ∀ link ∈ setup.request.links, ∀ name rest, link.name = some name → field ≠ qualified name rest)
    (hmapping : compiler.environment.resolver.mapping setup.index = .ok mapping)
    (hfield : mapping.hasField field = true) :
    compiler.progress.metadata.primary = Metadata.selfLink mapping setup.index := by
  obtain ⟨mapping', hmapping', horigin⟩ := h.origin_eq
  obtain rfl : mapping = mapping' := Except.ok.inj (hmapping.symm.trans hmapping')
  have hnamed : ({ compiler.progress.metadata with primary := compiler.progress.metadata.origin } :
      Metadata).namedLink? field = none := by
    rw [Metadata.namedLink?, Option.bind_eq_none_iff]
    rintro ⟨name, rest⟩ hsplit
    simp only [Metadata.linkNamed?, h.links_eq, List.find?_eq_none, decide_eq_true_eq]
    intro link hlink hname
    refine hunnamed link hlink name rest hname (String.toList_inj.mp ?_)
    rw [toList_of_splitTextFirst? hsplit]
    simp [qualified]
  -- no link is named, and the index itself is asked first
  have howner := (h.owner_eq field hsubject).1
  unfold Metadata.owner at howner
  rw [hnamed] at howner
  simp only [horigin, Metadata.firstOwner, Metadata.selfLink, Link.unnamed, hmapping, hfield, if_true,
    Option.getD_some] at howner
  exact (Except.ok.inj howner).symm

/-- **An aggregate addressed through a link**, beside the same aggregate of a compiler of the linked index: whatever
the two compilers were used for, the former reports the field and the index of the latter, but compiles the aggregate
of the qualified name. So the two aggregations are never equal, except that both of them may fail; and they are the
same aggregation of the two names if and only if the mapping of the linked index, which has the field under its own
name, treats the qualified name like it. -/
theorem linked_aggregation (hstart : setup.start = .ok compiler) (hdirect : direct.start = .ok other)
    {resolver : Resolver} (hresolver : setup.resolver = some resolver) (hresolver' : direct.resolver = some resolver)
    {level : AggregateLevel} {name : String} {link : Link} {mapping : Mapping}
    (hlinked : setup.request.aggregate = some ⟨level.qualified name, []⟩) (hflat : level.nestedPath = none)
    (hname : '.' ∉ name.toList) (hlink : setup.request.links.find? (·.name = some name) = some link)
    (hlevel : direct.request.aggregate = some ⟨level, []⟩) (hindex : direct.index = link.index)
    (hunnamed : ∀ link ∈ direct.request.links, ∀ name rest, link.name = some name →
      level.field ≠ qualified name rest)
    (hmapping : resolver.mapping link.index = .ok mapping) (hfield : mapping.hasField level.field = true)
    (uses uses' : List Use) :
    (compiler.used uses).aggregateField.1 = .ok level.field ∧
      (compiler.used uses).aggregateIndex.1 = .ok direct.index ∧
      (compiler.used uses).aggregationBody = (aggregationBy mapping (level.qualified name)).map some ∧
      (other.used uses').aggregationBody = (aggregationBy mapping level).map some ∧
      ((compiler.used uses).aggregationBody = (other.used uses').aggregationBody ↔
        ∃ error, (compiler.used uses).aggregationBody = .error error ∧
          (other.used uses').aggregationBody = .error error) ∧
      ((compiler.used uses).aggregationBody =
          (other.used uses').aggregationBody.map (·.map (·.mapField (qualified name))) ↔
        level.kind.SameFor mapping (qualified name level.field) level.field) := by
  have hstarted := Setup.started_of_ok hstart
  have hstarted' := Setup.started_of_ok hdirect
  have henvironment : compiler.environment.resolver = resolver :=
    Option.some.inj (hstarted.resolver_eq.symm.trans hresolver)
  have henvironment' : other.environment.resolver = resolver :=
    Option.some.inj (hstarted'.resolver_eq.symm.trans hresolver')
  have hsubject : Request.subjectField? setup.request.aggregate setup.request.suggestion =
      some (qualified name level.field) := by
    rw [hlinked]
    rfl
  have hsubject' : Request.subjectField? direct.request.aggregate direct.request.suggestion =
      some level.field := by
    rw [hlevel]
    rfl
  -- the primary links are the named one and the linked index itself, and both are mapped alike
  have hprimary := primary_of_qualified hstarted hsubject hname hlink
  have hprimary' := primary_of_field hstarted' hsubject' hunnamed
    (by rw [henvironment', hindex]; exact hmapping) hfield
  have hbody := body_used hstarted hlinked hflat (by rw [henvironment, hprimary]; exact hmapping) uses
  have hbody' := body_used hstarted' hlevel hflat
    (by rw [henvironment', hprimary', ← hmapping, ← hindex]; rfl) uses'
  obtain ⟨hkept, howner⟩ := owner_used hstarted hsubject uses
  have hidle := (idle_of_started hstarted).used uses
  have haggregate := (aggregate_used hstarted uses).trans hlinked
  refine ⟨?_, ?_, hbody, hbody', ?_, ?_⟩
  · refine aggregateField_of_owner hidle haggregate rfl hname howner ?_
    rw [hkept, hprimary]
    simpa using List.find?_some hlink
  · rw [hindex, ← hprimary, ← hkept]
    refine aggregateIndex_of_owner hidle ?_ howner
    rw [haggregate]
    rfl
  · simp only [hbody, hbody', map_some_eq_map_some, map_some_eq_error]
    exact aggregationBy_qualified_eq_iff mapping level name
  · rw [hbody, hbody', map_some_map, map_some_eq_map_some]
    exact aggregationBy_qualified_map_iff mapping level name

/-- The counts of a field of the authors, where they are linked under a name, and where they are asked themselves. -/
def authorTally (index field : String) : Setup where
  index
  request := {
    links := [⟨some "author", "author", "authors", "id"⟩]
    aggregate := some { outer := { kind := .tally "^.*" 10 .term, field } } }
  resolver := some (Cluster.resolver { mappings := [
    ("authors", ((Mapping.keyed "authors" "id").withField "born" { type := .long }).withField
      "name" { type := .keyword none }),
    ("books", (Mapping.keyed "books" "id").withField "author" { type := .long })] })
  executor := some (Cluster.executor { documents := [("authors", []), ("books", [])] })

/-- Counts of numbers are asked for in the same way, but for the name of the field. -/
theorem linked_aggregation_authorTally : ∃ compiler other,
    (authorTally "books" "author.born").start = .ok compiler ∧ (authorTally "authors" "born").start = .ok other ∧
      (compiler.used [.call .query]).aggregationBody =
        other.aggregationBody.map (·.map (·.mapField (qualified "author"))) := by
  have hrun : ((authorTally "books" "author.born").start.toOption.isSome &&
      (authorTally "authors" "born").start.toOption.isSome) = true := by
    decide +kernel
  simp only [Bool.and_eq_true, Option.isSome_iff_exists, toOption_eq_some] at hrun
  obtain ⟨⟨compiler, hstart⟩, other, hdirect⟩ := hrun
  have hunnamed : ∀ link ∈ (authorTally "authors" "born").request.links, ∀ name rest, link.name = some name →
      "born" ≠ qualified name rest := by
    intro link hlink name rest hname heq
    obtain rfl := List.mem_singleton.mp hlink
    obtain rfl := Option.some.inj hname
    have hlist := congrArg String.toList heq
    simp [qualified] at hlist
  have hname : '.' ∉ "author".toList := by decide
  obtain ⟨-, -, -, -, -, hsame⟩ := linked_aggregation hstart hdirect rfl rfl rfl rfl hname rfl rfl rfl hunnamed rfl
    (by decide) [.call .query] []
  exact ⟨compiler, other, hstart, hdirect, hsame.mpr ⟨by decide, fun _ => by decide⟩⟩

/-- **Counts of terms lose their pattern**: the qualified name of the field is not mapped, so that it does not count
as a field of strings, and it is sent as it is. -/
theorem not_alike_authorTally : ∃ compiler other,
    (authorTally "books" "author.name").start = .ok compiler ∧ (authorTally "authors" "name").start = .ok other ∧
      compiler.aggregateField.1 = .ok "name" ∧
      compiler.aggregationBody = .ok (some (.terms "author.name" 10 0 ⟨.term, false⟩ none)) ∧
      other.aggregationBody = .ok (some (.terms "name" 10 0 ⟨.term, false⟩ (some "^.*"))) ∧
      compiler.aggregationBody ≠ other.aggregationBody := by
  have hrun : ((authorTally "books" "author.name").start.toOption.any fun compiler =>
      decide (compiler.aggregateField.1 = .ok "name" ∧ compiler.progress.metadata.primary.index = "authors")) &&
      ((authorTally "authors" "name").start.toOption.any fun other =>
        decide (other.progress.metadata.primary.index = "authors")) = true := by
    decide +kernel
  simp only [Bool.and_eq_true, Option.any_eq_true, toOption_eq_some, decide_eq_true_eq] at hrun
  obtain ⟨⟨compiler, hstart, hfield, hprimary⟩, other, hdirect, hprimary'⟩ := hrun
  have hstarted := Setup.started_of_ok hstart
  have hstarted' := Setup.started_of_ok hdirect
  have hbody : compiler.aggregationBody = .ok (some (.terms "author.name" 10 0 ⟨.term, false⟩ none)) :=
    (body_used hstarted rfl rfl (by rw [hprimary, Option.some.inj (hstarted.resolver_eq.symm.trans rfl)]; rfl) []).trans
      rfl
  have hbody' : other.aggregationBody = .ok (some (.terms "name" 10 0 ⟨.term, false⟩ (some "^.*"))) :=
    (body_used hstarted' rfl rfl (by rw [hprimary', Option.some.inj (hstarted'.resolver_eq.symm.trans rfl)]; rfl)
      []).trans rfl
  refine ⟨compiler, other, hstart, hdirect, hfield, hbody, hbody', ?_⟩
  rw [hbody, hbody']
  simp

end Compiler

end LinkedSearch
