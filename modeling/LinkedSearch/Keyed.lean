/-!
# Keyed lists

A keyed list holds values under text keys in ascending key order, each key once. It is the shape of
a JSON object and of every table the library looks things up in; because its order does not depend
on the order of the insertions, two tables with the same content are equal.

* `Keyed.find?`: the value under a key.
* `Keyed.insert`, `Keyed.extend`: later values replace earlier ones.
* `Keyed.find?_insert`: what a look-up sees after an insertion.
-/

namespace LinkedSearch.Keyed

variable {α β : Type}

/-- The value under a key. -/
def find? (key : String) : List (String × α) → Option α
  | [] => none
  | (k, v) :: rest => if k = key then some v else find? key rest

@[simp] theorem find?_nil (key : String) : find? key ([] : List (String × α)) = none := rfl

@[simp] theorem find?_cons (key k : String) (v : α) (rest : List (String × α)) :
    find? key ((k, v) :: rest) = if k = key then some v else find? key rest := rfl

/-- Whether there is a value under the key. -/
def contains (key : String) (table : List (String × α)) : Bool := (find? key table).isSome

/-- Put a value at its place in key order; the value that was there before is replaced. -/
def insert (key : String) (value : α) : List (String × α) → List (String × α)
  | [] => [(key, value)]
  | (k, v) :: rest =>
    if key < k then (key, value) :: (k, v) :: rest
    else if k = key then (key, value) :: rest
    else (k, v) :: insert key value rest

@[simp] theorem insert_nil (key : String) (value : α) : insert key value [] = [(key, value)] := rfl

/-- After an insertion the key has the new value. -/
@[simp] theorem find?_insert_self (key : String) (value : α) (table : List (String × α)) :
    find? key (insert key value table) = some value := by
  induction table with
  | nil => simp
  | cons entry rest ih =>
    obtain ⟨k, v⟩ := entry
    simp only [insert]
    split
    · simp
    · split
      · simp
      · next different => simp [different, ih]

/-- An insertion leaves the other keys alone. -/
theorem find?_insert_of_ne {key other : String} (different : key ≠ other) (value : α)
    (table : List (String × α)) : find? other (insert key value table) = find? other table := by
  induction table with
  | nil => simp [different]
  | cons entry rest ih =>
    obtain ⟨k, v⟩ := entry
    simp only [insert]
    split
    · simp [different]
    · split
      · next equal => simp [different, equal]
      · simp [ih]

/-- **Look-up after insertion**: the new value under its key, the old ones elsewhere. -/
theorem find?_insert (key other : String) (value : α) (table : List (String × α)) :
    find? other (insert key value table) =
      if key = other then some value else find? other table := by
  split
  · next equal => simp [equal]
  · next different => exact find?_insert_of_ne different value table

/-- Insert entries from the left; of two with one key the later one stays. -/
def extend (table new : List (String × α)) : List (String × α) :=
  new.foldl (fun table (key, value) => insert key value table) table

@[simp] theorem extend_nil (table : List (String × α)) : extend table [] = table := rfl

@[simp] theorem extend_cons (table : List (String × α)) (key : String) (value : α)
    (rest : List (String × α)) :
    extend table ((key, value) :: rest) = extend (insert key value table) rest := rfl

/-- The keyed list of some entries. -/
def ofList (entries : List (String × α)) : List (String × α) := extend [] entries

/-- The value under a key changed, or set from nothing. -/
def alter (key : String) (change : Option α → α) (table : List (String × α)) :
    List (String × α) :=
  insert key (change (find? key table)) table

/-- The keys in ascending order. -/
def keys (table : List (String × α)) : List String := table.map Prod.fst

/-- The values of a table under the same keys after a function. -/
def mapValues (f : α → β) (table : List (String × α)) : List (String × β) :=
  table.map fun (key, value) => (key, f value)

@[simp] theorem find?_mapValues (f : α → β) (key : String) (table : List (String × α)) :
    find? key (mapValues f table) = (find? key table).map f := by
  induction table with
  | nil => rfl
  | cons entry rest ih =>
    obtain ⟨k, v⟩ := entry
    simp only [mapValues, List.map_cons, find?_cons]
    split
    · rfl
    · exact ih

end LinkedSearch.Keyed
