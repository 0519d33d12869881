import LinkedSearch.Analysis.StopWords
import LinkedSearch.Error
import LinkedSearch.Json.Decode
import LinkedSearch.Json.Parser

/-!
# Settings

What a caller may choose: whether a query that stays inside one index is sent to that index, whether
parent and child scopes become joins, how scans page, which words similarity ignores, and how text
is split into tokens. Every setting has a default, and a document may give any part of them.
-/

namespace LinkedSearch

/-- How scans page through their hits. -/
structure ScanSettings where
  batchSize : Nat := 10240
  /-- How long the first response is kept, in seconds. -/
  keepAlive : Nat := 600
  /-- How long each further response is kept, in seconds. -/
  continuationKeepAlive : Nat := 10
  deriving DecidableEq, Inhabited, Repr

/-- What a similarity query looks at. -/
structure ConceptSettings where
  maxQueryTerms : Nat := 80
  minWordLength : Nat := 3
  stopWords : List String := Analysis.englishStopWords
  deriving DecidableEq, Inhabited, Repr

/-- How text is split into tokens. -/
structure TokenizerSettings where
  lowercase : Bool := true
  stem : Bool := false
  /-- Longer tokens, in bytes, are dropped. -/
  maxTokenLength : Nat := 255
  deriving DecidableEq, Inhabited, Repr

/-- All settings. -/
structure Settings where
  /-- A query that used a single index is sent to that index. -/
  allowSingleIndex : Bool := true
  /-- Parent and child scopes become joins. -/
  useParentChild : Bool := false
  /-- Where scans prefer to run. -/
  searchPreference : Option String := none
  scan : ScanSettings := {}
  concept : ConceptSettings := {}
  tokenizer : TokenizerSettings := {}
  deriving DecidableEq, Inhabited, Repr

namespace ScanSettings

/-- The document of scan settings. -/
def toJson (settings : ScanSettings) : Json :=
  .ofMembers [("batch_size", .ofNat settings.batchSize),
    ("keep_alive_secs", .ofNat settings.keepAlive),
    ("continuation_keep_alive_secs", .ofNat settings.continuationKeepAlive)]

/-- The scan settings a document gives. -/
def ofJson? (value : Json) : Option ScanSettings := do
  let default : ScanSettings := {}
  match ← value.fields? ["batch_size", "keep_alive_secs", "continuation_keep_alive_secs"] with
  | [batchSize, keepAlive, continuation] =>
    some ⟨← Json.withDefault default.batchSize Json.nat64? batchSize,
      ← Json.withDefault default.keepAlive Json.nat64? keepAlive,
      ← Json.withDefault default.continuationKeepAlive Json.nat64? continuation⟩
  | _ => none

end ScanSettings

namespace ConceptSettings

/-- The document of similarity settings. -/
def toJson (settings : ConceptSettings) : Json :=
  .ofMembers [("max_query_terms", .ofNat settings.maxQueryTerms),
    ("min_word_length", .ofNat settings.minWordLength),
    ("stop_words", .ofStrings settings.stopWords)]

/-- The similarity settings a document gives. -/
def ofJson? (value : Json) : Option ConceptSettings := do
  let default : ConceptSettings := {}
  match ← value.fields? ["max_query_terms", "min_word_length", "stop_words"] with
  | [maxQueryTerms, minWordLength, stopWords] =>
    some ⟨← Json.withDefault default.maxQueryTerms Json.nat32? maxQueryTerms,
      ← Json.withDefault default.minWordLength Json.nat32? minWordLength,
      ← Json.withDefault default.stopWords (Json.list? Json.string?) stopWords⟩
  | _ => none

end ConceptSettings

namespace TokenizerSettings

/-- The document of tokenizer settings. -/
def toJson (settings : TokenizerSettings) : Json :=
  .ofMembers [("lowercase", .bool settings.lowercase), ("stem", .bool settings.stem),
    ("max_token_length", .ofNat settings.maxTokenLength)]

/-- The tokenizer settings a document gives. -/
def ofJson? (value : Json) : Option TokenizerSettings := do
  let default : TokenizerSettings := {}
  match ← value.fields? ["lowercase", "stem", "max_token_length"] with
  | [lowercase, stem, maxTokenLength] =>
    some ⟨← Json.withDefault default.lowercase Json.bool? lowercase,
      ← Json.withDefault default.stem Json.bool? stem,
      ← Json.withDefault default.maxTokenLength Json.nat64? maxTokenLength⟩
  | _ => none

end TokenizerSettings

namespace Settings

/-- The document of all settings. -/
def toJson (settings : Settings) : Json :=
  .ofMembers [("allow_single_index", .bool settings.allowSingleIndex),
    ("use_parent_child", .bool settings.useParentChild),
    ("search_preference", settings.searchPreference.elim .null .str),
    ("scan", settings.scan.toJson), ("concept", settings.concept.toJson),
    ("tokenizer", settings.tokenizer.toJson)]

/-- The settings a document gives. -/
def ofJson? (value : Json) : Option Settings := do
  let default : Settings := {}
  match ← value.fields? ["allow_single_index", "use_parent_child", "search_preference", "scan",
      "concept", "tokenizer"] with
  | [allowSingleIndex, useParentChild, searchPreference, scan, concept, tokenizer] =>
    some {
      allowSingleIndex := ← Json.withDefault default.allowSingleIndex Json.bool? allowSingleIndex
      useParentChild := ← Json.withDefault default.useParentChild Json.bool? useParentChild
      searchPreference := ← Json.optional Json.string? searchPreference
      scan := ← Json.withDefault default.scan ScanSettings.ofJson? scan
      concept := ← Json.withDefault default.concept ConceptSettings.ofJson? concept
      tokenizer := ← Json.withDefault default.tokenizer TokenizerSettings.ofJson? tokenizer }
  | _ => none

/-- The settings that a text gives. -/
def parse (text : String) : Except Error Settings :=
  match (Json.parse? text Json.nestingLimit).bind ofJson? with
  | some settings => .ok settings
  | none => .error .malformedDocument

/-- The settings with another batch size of scans. -/
def withBatchSize (batchSize : Nat) (settings : Settings) : Settings :=
  { settings with scan := { settings.scan with batchSize } }

end Settings

end LinkedSearch
