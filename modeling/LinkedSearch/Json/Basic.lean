import LinkedSearch.Keyed
import LinkedSearch.Number.Binary

/-!
# JSON values

Documents, field values and rendered queries are JSON values. Integers and floats are different
values. An object is a list of members; a *canonical* object lists them in ascending key order
without repetition, and every value the library builds or stores is canonical. Only the parser
yields members as they were written, because a decoder has to see a repeated key.

* `Json.get?`: the member of an object with a given key.
* `Json.ofMembers`: the canonical object with some members, where a later one replaces an earlier.
* `Json.canonical`: the canonical form of a value as written.
* `Json.same`: equality of values, where a zero equals a zero of the other sign.
-/

namespace LinkedSearch

open Number (Finite Binary)

/-- A JSON value. -/
inductive Json where
  | null
  | bool (value : Bool)
  | int (value : Int)
  | float (value : Finite)
  | str (text : String)
  | arr (items : List Json)
  | obj (members : List (String × Json))
  deriving Inhabited

namespace Json

/-! ## Decidable equality -/

mutual

/-- Equality of values is decided member by member. -/
def decEq : (a b : Json) → Decidable (a = b)
  | .null, b => match b with
    | .null => isTrue rfl
    | .bool _ | .int _ | .float _ | .str _ | .arr _ | .obj _ => isFalse nofun
  | .bool a, b => match b with
    | .bool b => decidable_of_iff (a = b) (by simp)
    | .null | .int _ | .float _ | .str _ | .arr _ | .obj _ => isFalse nofun
  | .int a, b => match b with
    | .int b => decidable_of_iff (a = b) (by simp)
    | .null | .bool _ | .float _ | .str _ | .arr _ | .obj _ => isFalse nofun
  | .float a, b => match b with
    | .float b => decidable_of_iff (a = b) (by simp)
    | .null | .bool _ | .int _ | .str _ | .arr _ | .obj _ => isFalse nofun
  | .str a, b => match b with
    | .str b => decidable_of_iff (a = b) (by simp)
    | .null | .bool _ | .int _ | .float _ | .arr _ | .obj _ => isFalse nofun
  | .arr a, b => match b with
    | .arr b => match decEqItems a b with
      | isTrue equal => isTrue (by rw [equal])
      | isFalse different => isFalse (by simpa using different)
    | .null | .bool _ | .int _ | .float _ | .str _ | .obj _ => isFalse nofun
  | .obj a, b => match b with
    | .obj b => match decEqMembers a b with
      | isTrue equal => isTrue (by rw [equal])
      | isFalse different => isFalse (by simpa using different)
    | .null | .bool _ | .int _ | .float _ | .str _ | .arr _ => isFalse nofun

/-- Equality of lists of values. -/
def decEqItems : (a b : List Json) → Decidable (a = b)
  | [], b => match b with
    | [] => isTrue rfl
    | _ :: _ => isFalse nofun
  | x :: xs, b => match b with
    | [] => isFalse nofun
    | y :: ys => match decEq x y, decEqItems xs ys with
      | isTrue head, isTrue tail => isTrue (by rw [head, tail])
      | isFalse different, _ => isFalse (by simp [different])
      | _, isFalse different => isFalse (by simp [different])

/-- Equality of lists of members. -/
def decEqMembers : (a b : List (String × Json)) → Decidable (a = b)
  | [], b => match b with
    | [] => isTrue rfl
    | _ :: _ => isFalse nofun
  | (k, x) :: xs, b => match b with
    | [] => isFalse nofun
    | (l, y) :: ys => match decEq x y, decEqMembers xs ys with
      | isTrue head, isTrue tail =>
        if key : k = l then isTrue (by rw [key, head, tail]) else isFalse (by simp [key])
      | isFalse different, _ => isFalse (by simp [different])
      | _, isFalse different => isFalse (by simp [different])

end

instance : DecidableEq Json := decEq

/-! ## Members -/

/-- The member of an object with the given key; other values have no members. -/
def get? (key : String) : Json → Option Json
  | .obj members => Keyed.find? key members
  | _ => none

@[simp] theorem get?_obj (key : String) (members : List (String × Json)) :
    (obj members).get? key = Keyed.find? key members := rfl

/-- The canonical object with the given members. -/
def ofMembers (members : List (String × Json)) : Json := .obj (Keyed.ofList members)

/-- The canonical object that has the members whose values are present. -/
def ofPresent (members : List (String × Option Json)) : Json :=
  ofMembers (members.filterMap fun (key, value) => value.map (key, ·))

/-- An object with a single member. -/
def single (key : String) (value : Json) : Json := .obj [(key, value)]

@[simp] theorem get?_single (key : String) (value : Json) :
    (single key value).get? key = some value := by simp [single]

/-! ## Canonical form -/

mutual

/-- The canonical form of a value as written. -/
def canonical : Json → Json
  | .arr items => .arr (canonicalItems items)
  | .obj members => ofMembers (canonicalMembers members)
  | value => value

/-- The canonical forms of the items of an array. -/
def canonicalItems : List Json → List Json
  | [] => []
  | item :: rest => item.canonical :: canonicalItems rest

/-- Members in written order, with canonical values. -/
def canonicalMembers : List (String × Json) → List (String × Json)
  | [] => []
  | (key, value) :: rest => (key, value.canonical) :: canonicalMembers rest

end

/-! ## Equality of values -/

mutual

/-- **Equality of values**: integers are never equal to floats, and zeros of both signs are the
same number. -/
def same : Json → Json → Bool
  | .null, .null => true
  | .bool a, .bool b => a == b
  | .int a, .int b => a == b
  | .float a, .float b => a.same b
  | .str a, .str b => a == b
  | .arr a, .arr b => sameItems a b
  | .obj a, .obj b => sameMembers a b
  | _, _ => false

/-- Arrays are the same when they have the same items in the same order. -/
def sameItems : List Json → List Json → Bool
  | [], [] => true
  | x :: xs, y :: ys => x.same y && sameItems xs ys
  | _, _ => false

/-- Canonical objects are the same when they have the same keys with the same values. -/
def sameMembers : List (String × Json) → List (String × Json) → Bool
  | [], [] => true
  | (k, x) :: xs, (l, y) :: ys => k == l && x.same y && sameMembers xs ys
  | _, _ => false

end

/-! ## Values of other types -/

/-- A finite number as a value; a value that is not finite has no number and becomes `null`. -/
def ofBinary : Binary → Json
  | .finite x => .float x
  | .nan | .infinite _ => .null

/-- A natural number as a value. -/
def ofNat (n : Nat) : Json := .int n

/-- A list of texts as a value. -/
def ofStrings (texts : List String) : Json := .arr (texts.map .str)

end Json

end LinkedSearch
