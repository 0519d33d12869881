import LinkedSearch.Schema.FieldType
import LinkedSearch.Settings
import LinkedSearch.Text.Stem
import LinkedSearch.Text.Words

/-!
# Analysis

Phrases are split into tokens the way the values of their field are when they are indexed. An
`Analyzer` answers which tokens these are; the tokenizer of the settings is one. It splits text
fields, and fields without a known type, into words, and leaves the values of other fields whole.
-/

namespace LinkedSearch.Analysis

open Schema (FieldType)

/-- The tokens of a text as a field of some type indexes them; the type is absent for a field that
is not mapped. -/
abbrev Analyzer := (field : String) → Option FieldType → (text : String) →
  Except Error (List String)

end LinkedSearch.Analysis

namespace LinkedSearch.TokenizerSettings

open Schema (FieldType)
open Analysis (Analyzer)

/-- The form of a token: lower case and stem, as far as the settings ask for them. -/
def normalize (settings : TokenizerSettings) (token : List Char) : List Char :=
  let lowered := if settings.lowercase then Text.lower token else token
  if settings.stem then Text.Stem.stem lowered else lowered

/-- **Tokens** of a text: its words in their normal form, without those that are too long. -/
def tokenize (settings : TokenizerSettings) (text : String) : List String :=
  ((Text.words text.toList).map fun word => String.ofList (settings.normalize word)).filter
    fun token => token.utf8ByteSize ≤ settings.maxTokenLength

/-- The tokens of a text in a field: only analyzed fields are split. -/
def tokenizeFor (settings : TokenizerSettings) (type : Option FieldType) (text : String) :
    List String :=
  match type with
  | some type => if type.isAnalyzed then settings.tokenize text else [text]
  | none => settings.tokenize text

/-- The analyzer of the settings. -/
def analyzer (settings : TokenizerSettings) : Analyzer := fun _ type text =>
  .ok (settings.tokenizeFor type text)

end LinkedSearch.TokenizerSettings
