import LinkedSearch.Json.Basic

/-!
# Decoding JSON values

A document describes records, choices and lists. Decoding is strict about types and lenient about
what it does not know: unknown members are ignored, a known one must not be repeated.

* A record is an object, or an array of its fields in declaration order (`fields?`).
* A choice is a name, or an object whose only member is the name with the content (`variant?`).
* An absent field has a default or makes the record invalid; `null` stands for an absent optional.

Every decoder answers `none` for a value of the wrong shape.
-/

namespace LinkedSearch.Json

open Number (Format Binary)

/-- A text. -/
def string? : Json → Option String
  | .str text => some text
  | _ => none

/-- A truth value. -/
def bool? : Json → Option Bool
  | .bool value => some value
  | _ => none

/-- A natural number below a bound; floats are refused even where they are integral. -/
def natBelow? (bound : Nat) : Json → Option Nat
  | .int n => if 0 ≤ n ∧ n < bound then some n.toNat else none
  | _ => none

/-- A natural number of 32 bits. -/
def nat32? : Json → Option Nat := natBelow? 4294967296

/-- A natural number of 64 bits. -/
def nat64? : Json → Option Nat := natBelow? 18446744073709551616

/-- A number of a floating-point format, rounded from an integer or a float. -/
def binary? (format : Format) : Json → Option Binary
  | .int n => some (Binary.ofInt format n)
  | .float x => some (Binary.ofFinite format x)
  | _ => none

/-- An optional value, absent when `null`. -/
def nullable? {α : Type} (decode : Json → Option α) : Json → Option (Option α)
  | .null => some none
  | value => (decode value).map some

/-- A list of values. -/
def list? {α : Type} (decode : Json → Option α) : Json → Option (List α)
  | .arr items => items.mapM decode
  | _ => none

/-- A table of values by key; every member must decode, and of two with one key the later stays. -/
def table? {α : Type} (decode : Json → Option α) : Json → Option (List (String × α))
  | .obj members => do
    let entries ← members.mapM fun (key, value) => (decode value).map (key, ·)
    some (Keyed.ofList entries)
  | _ => none

/-- A value of any shape. -/
def any? (value : Json) : Option Json := some value.canonical

/-- The number of members with the given key. -/
def occurrences (key : String) (members : List (String × Json)) : Nat :=
  members.countP fun member => member.1 == key

/-- Whether none of the names is the key of two members. -/
def unrepeated (names : List String) (members : List (String × Json)) : Bool :=
  names.all fun name => occurrences name members ≤ 1

/-- **Fields of a record** in the order of their names, `none` where one is not given. -/
def fields? (names : List String) : Json → Option (List (Option Json))
  | .obj members =>
    if unrepeated names members then some (names.map fun name => Keyed.find? name members)
    else none
  | .arr items =>
    if items.length ≤ names.length then
      some (items.map some ++ List.replicate (names.length - items.length) none)
    else none
  | _ => none

/-- The name of a choice, and its content if it has one. -/
def variant? : Json → Option (String × Option Json)
  | .str name => some (name, none)
  | .obj [(name, content)] => some (name, some content)
  | _ => none

/-- The name of a choice without content. As an object member it has the content `null`, and in a
buffered document an empty object counts as no content too. -/
def plainVariant? (buffered : Bool) (value : Json) : Option String := do
  let (name, content) ← variant? value
  match content with
  | none | some .null => some name
  | some (.obj []) => if buffered then some name else none
  | some _ => none

/-- A field that must be given. -/
def required {α : Type} (decode : Json → Option α) (field : Option Json) : Option α :=
  field.bind decode

/-- A field with a default. -/
def withDefault {α : Type} (default : α) (decode : Json → Option α) (field : Option Json) :
    Option α :=
  match field with
  | none => some default
  | some value => decode value

/-- A field that may be absent or `null`. -/
def optional {α : Type} (decode : Json → Option α) (field : Option Json) : Option (Option α) :=
  withDefault none (nullable? decode) field

end LinkedSearch.Json
