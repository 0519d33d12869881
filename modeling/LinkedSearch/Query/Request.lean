import LinkedSearch.Query.Exchange
import LinkedSearch.Query.Aggregate
import LinkedSearch.Query.Arena

/-!
# Requests

A request is everything a caller sends: the links to other indexes, the query, an aggregate or a
suggestion, and blocks of values that the query refers to by key. A `Draft` is the same request
with its query in an arena, where the compiler replaces references to other indexes.

* `Request.parse`: the request a text describes.
* `Request.draft`: the draft of a request.
* `Draft.fieldNames`, `Draft.dump`: what a draft refers to, and how it looks.
-/

namespace LinkedSearch.Query

/-- A query with its surroundings, as exchanged. -/
structure Request where
  links : List Link := []
  query : Option Tree := none
  aggregate : Option Aggregate := none
  suggestion : Option Suggestion := none
  /-- Blocks of values by key. -/
  arrayData : List (String × String) := []
  deriving Inhabited

namespace Request

/-- The exchange form of a request; what is absent is `null`. -/
def toJson (request : Request) : Json :=
  let orNull (value : Option Json) := value.getD .null
  .ofMembers [("options", .arr (request.links.map Link.toJson)),
    ("query", orNull (request.query.map Tree.toJson)),
    ("aggregate", orNull (request.aggregate.map Aggregate.toJson)),
    ("suggest", orNull (request.suggestion.map Suggestion.toJson)),
    ("array_data", .obj (Keyed.mapValues .str request.arrayData))]

/-- The request a document describes; every field has a default. -/
def ofJson? (value : Json) : Option Request := do
  match ← value.fields? ["options", "query", "aggregate", "suggest", "array_data"] with
  | [links, query, aggregate, suggestion, arrayData] =>
    some {
      links := ← Json.withDefault [] (Json.list? Link.ofJson?) links
      query := ← Json.optional Tree.ofJson? query
      aggregate := ← Json.optional Aggregate.ofJson? aggregate
      suggestion := ← Json.optional Suggestion.ofJson? suggestion
      arrayData := ← Json.withDefault [] (Json.table? Json.string?) arrayData }
  | _ => none

/-- The request that a text describes. -/
def parse (text : String) : Except Error Request :=
  match (Json.parse? text Json.nestingLimit).bind ofJson? with
  | some request => .ok request
  | none => .error .malformedDocument

/-- The field that the aggregate, or else the suggestion, is about. -/
def subjectField? (aggregate : Option Aggregate) (suggestion : Option Suggestion) :
    Option String :=
  match aggregate with
  | some aggregate => some aggregate.outer.field
  | none => suggestion.map (·.field)

end Request

/-- A request whose query stands in an arena. -/
structure Draft where
  arena : Arena := {}
  root : Option NodeId := none
  links : List Link := []
  aggregate : Option Aggregate := none
  suggestion : Option Suggestion := none
  arrayData : List (String × String) := []
  deriving Inhabited

/-- **Draft** of a request. -/
def Request.draft (request : Request) : Draft :=
  let (arena, root) := match request.query with
    | none => (Arena.empty, none)
    | some tree =>
      let (arena, root) := Arena.empty.insert tree
      (arena, some root)
  { arena, root, links := request.links, aggregate := request.aggregate,
    suggestion := request.suggestion, arrayData := request.arrayData }

namespace Draft

/-- The ids of the query, in document order. -/
def nodes (draft : Draft) : List NodeId :=
  match draft.root with
  | none => []
  | some root => draft.arena.descendants root

/-- The fields the query refers to, in document order. -/
def fieldNames (draft : Draft) : List String :=
  draft.nodes.filterMap fun id => (draft.arena.label id).field

/-- The first node of the query that satisfies a condition, in document order. -/
def find? (draft : Draft) (condition : Label → Bool) : Option NodeId :=
  draft.root.bind fun root => draft.arena.find? root condition

/-- **Dump** of a draft: its links, its query, and what is aggregated or suggested. -/
def dump (draft : Draft) : String :=
  let links := draft.links.map fun link => Arena.indentedLine 1 ("option (" ++ link.text ++ ")")
  let query := match draft.root with
    | none => ""
    | some root => draft.arena.dump root
  let aggregate := match draft.aggregate with
    | none => ""
    | some aggregate =>
      Arena.indentedLine 1 ("aggregate (" ++ aggregate.outer.kind.name ++ ", fieldname="
        ++ aggregate.outer.field ++ ")")
  let suggestion := match draft.suggestion with
    | none => ""
    | some suggestion =>
      Arena.indentedLine 1 ("suggest (fieldname=" ++ suggestion.field ++ ", stem="
        ++ suggestion.stem ++ ")")
  "QueryTree\n" ++ String.join links ++ query ++ aggregate ++ suggestion

end Draft

end LinkedSearch.Query
