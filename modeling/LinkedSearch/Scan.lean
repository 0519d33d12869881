import LinkedSearch.Error
import LinkedSearch.Fragment.Basic
import LinkedSearch.Json.Printer

/-!
# Scans

A scan asks an index for the values of one field in every document that satisfies a query. It is
answered in pages; the opening response declares how many hits there are. The collected values are
the distinct scalars of all pages in ascending order: truth values, then integers, then other
numbers, then texts. Integers are compared exactly, so that large keys stay apart.

A scan fails when a shard does not answer, and when a page is empty before all hits were seen.

* `SortKey`: what values are sorted by; values with one key count as one.
* `Collected`: the collected values, kept in strictly ascending order of their keys.
* `OpenScan.collect`: the pages read one after the other.
-/

namespace LinkedSearch

open Number (Finite)

/-! ## Requests and responses -/

/-- A request for the values of a field. -/
structure ScanRequest where
  index : String
  query : Fragment
  /-- A further condition on the hits. -/
  postFilter : Option Fragment
  field : String
  batchSize : Nat
  /-- Seconds. -/
  keepAlive : Nat
  /-- Seconds. -/
  continuationKeepAlive : Nat
  preference : Option String
  deriving Inhabited

/-- A page of a scan. -/
structure ScanPage where
  /-- The number of documents in the page. -/
  hits : Nat := 0
  /-- The values of the field in these documents. -/
  values : List Json := []
  failures : List ShardFailure := []
  deriving Inhabited

/-- A scan that was opened: its opening response, and its pages by number. -/
structure OpenScan where
  total : Nat
  failures : List ShardFailure
  page : Nat → Except Error ScanPage

/-- What answers scans. The answer may depend on the requests made before, oldest first. -/
abbrev Executor := List ScanRequest → ScanRequest → Except Error OpenScan

/-! ## Sorted values -/

/-- What a value is sorted by. -/
inductive SortKey where
  | bool (value : Bool)
  | int (value : Int)
  | float (value : Finite)
  | text (value : String)
  deriving DecidableEq

namespace SortKey

/-- The key of a value; lists and `null` have none, objects go by their text. -/
def of? : Json → Option SortKey
  | .null | .arr _ => none
  | .bool value => some (bool value)
  | .int value => some (int value)
  | .float value => some (float value)
  | .str value => some (text value)
  | .obj members => some (text (Json.obj members).compact)

/-- The place of a kind of key among the others. -/
def rank : SortKey → Nat
  | bool _ => 0
  | int _ => 1
  | float _ => 2
  | text _ => 3

/-- **Order** of keys: by kind, and within a kind by value. -/
def compare : SortKey → SortKey → Ordering
  | bool a, bool b => Ord.compare a b
  | int a, int b => Ord.compare a b
  | float a, float b => a.compare b
  | text a, text b => Ord.compare a b
  | a, b => Ord.compare a.rank b.rank

end SortKey

/-- Values under their sort keys, in ascending order. -/
abbrev Collected := List (SortKey × Json)

namespace Collected

/-- Put a value at its place, unless there is one with the same key. -/
def insert (key : SortKey) (value : Json) : Collected → Collected
  | [] => [(key, value)]
  | (k, v) :: rest =>
    match key.compare k with
    | .lt => (key, value) :: (k, v) :: rest
    -- the value that was there first stays
    | .eq => (k, v) :: rest
    | .gt => (k, v) :: insert key value rest

mutual

/-- Add a value; a list adds its items. -/
def add (collected : Collected) : Json → Collected
  | .arr items => addAll collected items
  | value =>
    match SortKey.of? value with
    | some key => insert key value collected
    | none => collected

/-- Add values in order. -/
def addAll (collected : Collected) : List Json → Collected
  | [] => collected
  | value :: rest => addAll (add collected value) rest

end

/-- The values in ascending order. -/
def values (collected : Collected) : List Json := collected.map Prod.snd

end Collected

/-! ## Reading pages -/

/-- The outcome of reading pages, and how many were asked for. -/
structure Reading where
  outcome : Except Error (List Json × Nat)
  pagesRead : Nat

namespace OpenScan

/-- Read on from page number `next` after `seen` hits. -/
def readFrom (index : String) (scan : OpenScan) (next seen : Nat) (collected : Collected) :
    Reading :=
  if seen < scan.total then
    match scan.page next with
    | .error error => ⟨.error error, next + 1⟩
    | .ok page =>
      if page.failures ≠ [] then ⟨.error (.shardsFailed page.failures), next + 1⟩
      -- without hits the scan would never come to its end
      else if page.hits = 0 then ⟨.error (.scanEndedEarly index seen scan.total), next + 1⟩
      else readFrom index scan (next + 1) (seen + page.hits) (collected.addAll page.values)
  else ⟨.ok (collected.values, seen), next⟩
termination_by scan.total - seen

/-- **Collecting** the distinct values of a scan in ascending order, with the number of hits that
had them. -/
def collect (index : String) (scan : OpenScan) : Reading :=
  if scan.failures ≠ [] then ⟨.error (.shardsFailed scan.failures), 0⟩
  else scan.readFrom index 0 0 []

end OpenScan

namespace Executor

/-- A scan run to its end, after some earlier requests. -/
def run (executor : Executor) (earlier : List ScanRequest) (request : ScanRequest) : Reading :=
  match executor earlier request with
  | .error error => ⟨.error error, 0⟩
  | .ok scan => scan.collect request.index

end Executor

end LinkedSearch
