import LinkedSearch.Json.Decode

/-!
# Links between indexes

A link joins the index it is evaluated from with another index: a value of `leftField` here equals
a value of `rightField` there. A link with a name makes the fields of the other index addressable
as `name.field`.

A hop is one end of a join, written `index:field`.
-/

namespace LinkedSearch

/-- A join between the current index and the index `index`. -/
structure Link where
  name : Option String
  leftField : String
  index : String
  rightField : String
  deriving DecidableEq, Inhabited, Repr

namespace Link

/-- A link whose fields are not addressed by name. -/
def unnamed (leftField index rightField : String) : Link := ⟨none, leftField, index, rightField⟩

/-- The text of a link: an optional name, then left field, index and right field. -/
def text (link : Link) : String :=
  (match link.name with
    | some name => name ++ ":"
    | none => "")
  ++ link.leftField ++ "=<" ++ link.index ++ ">" ++ link.rightField

/-- A link as a document member; an absent name is left out. -/
def toJson (link : Link) : Json :=
  .ofPresent [("name", link.name.map .str), ("left_field", some (.str link.leftField)),
    ("index_name", some (.str link.index)), ("right_field", some (.str link.rightField))]

/-- The link a document describes. -/
def ofJson? (value : Json) : Option Link := do
  match ← value.fields? ["name", "left_field", "index_name", "right_field"] with
  | [name, left, index, right] =>
    some {
      name := ← Json.optional Json.string? name
      leftField := ← Json.required Json.string? left
      index := ← Json.required Json.string? index
      rightField := ← Json.required Json.string? right }
  | _ => none

end Link

/-- The characters before and after the first separator, if there is one. -/
def splitFirst? (separator : Char) : List Char → Option (List Char × List Char)
  | [] => none
  | c :: rest =>
    if c = separator then some ([], rest)
    else (splitFirst? separator rest).map fun (before, after) => (c :: before, after)

/-- The texts before and after the first separator, if there is one. -/
def splitTextFirst? (separator : Char) (text : String) : Option (String × String) :=
  (splitFirst? separator text.toList).map fun (before, after) =>
    (String.ofList before, String.ofList after)

/-- What stands around a separator is found again, if there is no other separator before it. -/
theorem splitFirst?_append {separator : Char} {before : List Char} (h : separator ∉ before) (after : List Char) :
    splitFirst? separator (before ++ separator :: after) = some (before, after) := by
  induction before with
  | nil => simp [splitFirst?]
  | cons c rest ih =>
    have hc : c ≠ separator := fun heq => h (heq ▸ List.mem_cons_self)
    have hrest := ih fun hmem => h (List.mem_cons_of_mem c hmem)
    simp [splitFirst?, hc, hrest]

/-- A text is taken apart at a separator, if there is no other separator before it. -/
theorem splitTextFirst?_of {separator : Char} {text before after : String} (h : separator ∉ before.toList)
    (htext : text.toList = before.toList ++ separator :: after.toList) :
    splitTextFirst? separator text = some (before, after) := by
  simp [splitTextFirst?, htext, splitFirst?_append h]

/-- What was taken apart stands around the separator. -/
theorem eq_of_splitFirst? {separator : Char} {text before after : List Char}
    (h : splitFirst? separator text = some (before, after)) : text = before ++ separator :: after := by
  induction text generalizing before with
  | nil => exact absurd h (by simp [splitFirst?])
  | cons c rest ih =>
    rw [splitFirst?] at h
    split at h
    · next hc =>
      cases h
      rw [hc, List.nil_append]
    · obtain ⟨⟨before', after'⟩, hrest, heq⟩ := Option.map_eq_some_iff.mp h
      cases heq
      rw [ih hrest, List.cons_append]

/-- What was taken apart stands around the separator in the text. -/
theorem toList_of_splitTextFirst? {separator : Char} {text before after : String}
    (h : splitTextFirst? separator text = some (before, after)) :
    text.toList = before.toList ++ separator :: after.toList := by
  obtain ⟨⟨before', after'⟩, hsplit, heq⟩ := Option.map_eq_some_iff.mp h
  cases heq
  rw [eq_of_splitFirst? hsplit, String.toList_ofList, String.toList_ofList]

namespace Hop

/-- The field of a hop; without a colon the whole text is the field. -/
def field (hop : String) : String :=
  match splitTextFirst? ':' hop with
  | some (_, field) => field
  | none => hop

/-- The index of a hop, empty when it names none. -/
def index (hop : String) : String :=
  match splitTextFirst? ':' hop with
  | some (index, _) => index
  | none => ""

/-- The hop of a field of an index. -/
def of (index field : String) : String := index ++ ":" ++ field

end Hop

end LinkedSearch
