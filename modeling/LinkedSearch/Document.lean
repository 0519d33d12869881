import LinkedSearch.Json.Printer
import LinkedSearch.Number.Literal

/-!
# Documents

A document is a JSON object. The values of a field are found under its full name, or else along its
dotted path; lists are seen through everywhere, and a field whose value is `null` has no values.

Two values are compared as numbers when one of them is a number and the other one reads as a number;
otherwise their texts are compared.

* `Json.scalars`: a value with its lists flattened.
* `Document.values`: the values of a field.
* `Json.compare?`: the order of two values.
-/

namespace LinkedSearch

open Number (Binary Format)

/-! ## Paths -/

/-- The pieces of a text between the separators, at least one. -/
def splitAll (separator : Char) : List Char → List (List Char)
  | [] => [[]]
  | c :: rest =>
    if c = separator then [] :: splitAll separator rest
    else
      match splitAll separator rest with
      | [] => [[c]]
      | piece :: pieces => (c :: piece) :: pieces

/-- The names along a dotted field. -/
def pathOf (field : String) : List String := (splitAll '.' field.toList).map String.ofList

/-! ## Values of a field -/

namespace Json

mutual

/-- **Scalars** of a value: the items of lists at any depth, and nothing for `null`. Objects count
as scalars. -/
def scalars : Json → List Json
  | .null => []
  | .arr items => scalarsOfItems items
  | value => [value]

/-- The scalars of the items of a list. -/
def scalarsOfItems : List Json → List Json
  | [] => []
  | item :: rest => item.scalars ++ scalarsOfItems rest

end

mutual

/-- The scalars along a path through objects. -/
def valuesAlong : Json → List String → List Json
  | .arr items, path => valuesOfItems items path
  | .obj members, head :: rest => valuesOfMember members head rest
  | _, _ => []

/-- The scalars along a path from each item of a list. -/
def valuesOfItems : List Json → List String → List Json
  | [], _ => []
  | item :: rest, path => item.valuesAlong path ++ valuesOfItems rest path

/-- The scalars along a path whose first name is looked up among some members. -/
def valuesOfMember : List (String × Json) → String → List String → List Json
  | [], _, _ => []
  | (key, value) :: others, head, rest =>
    if key = head then
      match rest with
      | [] => value.scalars
      | _ :: _ => value.valuesAlong rest
    else valuesOfMember others head rest

end

end Json

/-- **Values of a field** of a document. -/
def Document.values (document : Json) (field : String) : List Json :=
  match document.get? field with
  | some value => value.scalars
  | none => document.valuesAlong (pathOf field)

/-! ## Comparison -/

namespace Json

/-- A number as a 64-bit binary number. -/
def number? : Json → Option Binary
  | .int n => some (Binary.ofInt .double n)
  | .float x => some (.finite x)
  | _ => none

/-- A number, or the number that a text spells. -/
def readNumber? : Json → Option Binary
  | .str text => Binary.parse? .double text
  | value => value.number?

/-- Whether a value is a number. -/
def isNumber (value : Json) : Bool := value.number?.isSome

/-- The two numbers to compare, when at least one value is a number and both read as numbers. -/
def numbers? (left right : Json) : Option (Binary × Binary) :=
  if left.isNumber || right.isNumber then
    match left.readNumber?, right.readNumber? with
    | some l, some r => some (l, r)
    | _, _ => none
  else none

/-- **Order** of two values; `null` is not ordered. -/
def compare? (left right : Json) : Option Ordering :=
  if left = .null ∨ right = .null then none
  else
    match numbers? left right with
    | some (l, r) => Binary.compare? l r
    | none => some (compare left.scalarText right.scalarText)

@[simp] theorem compare?_null_left (right : Json) : compare? .null right = none := by
  simp [compare?]

@[simp] theorem compare?_null_right (left : Json) : compare? left .null = none := by
  simp [compare?]

end Json

end LinkedSearch
