import LinkedSearch.Cluster
import LinkedSearch.Proofs.Using

/-! # Query and aggregate are sent to one index

A compiler of a request with an aggregate or a suggestion makes the owner of their field the primary
link when it is started, and that field is the first one to be looked up. The field belongs to the
primary link from then on, which stays the first one in use.

* `Compiler.searchIndex_of_first`: where the query is sent if the primary link was used first.
* `Compiler.aggregateIndex_of_owner`: where the aggregate is sent.
* `Compiler.searchIndex_eq_aggregateIndex`: both are the index that owned the field at the start. -/

namespace LinkedSearch

open Query (Request)
open Schema (Mapping)

namespace Compiler

open Compile

variable {setup : Setup} {compiler : Compiler}

/-- If the primary link was used first, then the query is sent to its index, whether there is a single
index in use or more of them. -/
theorem searchIndex_of_first (hqueried : compiler.queried = true)
    (hfirst : [compiler.progress.metadata.primary] <+: compiler.progress.metadata.used) :
    compiler.searchIndex = .ok compiler.progress.metadata.primary.index := by
  unfold searchIndex
  rw [hqueried]
  simp only [Bool.not_true, Bool.false_eq_true, if_false]
  split
  · next link hused _ =>
    rw [hused, List.cons_prefix_cons] at hfirst
    rw [hfirst.1]
  · rfl

/-- The aggregate is sent to the index of the owner of its field. -/
theorem aggregateIndex_of_owner (h : compiler.Idle) {field : String} {link : Link}
    (hsubject : Request.subjectField? compiler.progress.draft.aggregate
      compiler.progress.draft.suggestion = some field)
    (howner : compiler.progress.metadata.owner compiler.environment.resolver field = .ok link) :
    compiler.aggregateIndex.1 = .ok link.index := by
  obtain ⟨s, hexec, -⟩ := exec_ownerOf h.sound field
  show (exec _ compiler.progress).1 = _
  simp only [hsubject]
  rw [exec_bind, hexec, howner]
  rfl

/-- **Query and aggregate go to one index.** If a request has an aggregate or a suggestion, then its
query, once it was compiled, and its aggregate are sent to the index that owned the field of the
aggregate, or else of the suggestion, when the compiler was started: at any later point, whatever the
outcomes of all that was asked before, and whether the settings allow for a single index or not. -/
theorem searchIndex_eq_aggregateIndex (hstart : setup.start = .ok compiler) {field : String}
    (hsubject : Request.subjectField? setup.request.aggregate setup.request.suggestion = some field) :
    ∃ resolver mapping link, setup.resolver = some resolver ∧
      resolver.mapping setup.index = .ok mapping ∧
      (Metadata.opened mapping setup.index setup.request.links).owner resolver field = .ok link ∧
      ∀ uses, .call .query ∈ uses →
        (compiler.used uses).searchIndex = .ok link.index ∧
          (compiler.used uses).aggregateIndex.1 = .ok link.index := by
  have hstarted := Setup.started_of_ok hstart
  have hidle := idle_of_started hstarted
  obtain ⟨howner, hfirst⟩ := hstarted.owner_eq field hsubject
  obtain ⟨mapping, hmapping, horigin⟩ := hstarted.origin_eq
  obtain ⟨md, hprogress⟩ := hstarted.progress_eq
  have hopened : (Metadata.opened mapping setup.index setup.request.links).owner
      compiler.environment.resolver field = .ok compiler.progress.metadata.primary := by
    rw [← howner]
    refine Metadata.owner_congr ?_ ?_ ?_ field
    · exact horigin.symm
    · exact horigin.symm
    · exact hstarted.links_eq.symm
  refine ⟨compiler.environment.resolver, mapping, compiler.progress.metadata.primary,
    hstarted.resolver_eq, hmapping, hopened, fun uses huses => ?_⟩
  have hevolves := used_evolves hidle uses
  have hprimary := hevolves.grows.primary_eq
  constructor
  · rw [← hprimary]
    refine searchIndex_of_first (queried_of_mem huses) ?_
    rw [hprimary]
    exact hfirst.trans hevolves.grows.used_prefix
  · have hsubject' : Request.subjectField? (compiler.used uses).progress.draft.aggregate
        (compiler.used uses).progress.draft.suggestion = some field := by
      rw [hevolves.draft_eq, hprogress]
      exact hsubject
    refine aggregateIndex_of_owner (hidle.used uses) hsubject' ?_
    -- the owner has become the primary link, and owns the field as such
    have howner' := Metadata.owner_of_owner howner
    rw [used_environment, hevolves.grows.owner_eq]
    exact howner'

/-- Titles of books counted by the names of their authors. -/
def nameTally (settings : Settings) : Setup where
  index := "books"
  request := {
    links := [.unnamed "author" "authors" "id"]
    query := some (.conjunction [.word "title" (.str "x"),
      .expansion (.unnamed "author" "authors" "id") (.word "name" (.str "y"))])
    aggregate := some { outer := { kind := .tally "^.*" 10 .count, field := "name" } } }
  settings
  resolver := some (Cluster.resolver { mappings := [
    ("authors", (Mapping.keyed "authors" "id").withField "name" { type := .keyword none }),
    ("books", ((Mapping.keyed "books" "id").withField "title" { type := .plainText }).withField
      "author" { type := .long })] })
  executor := some (Cluster.executor { documents := [("authors", []), ("books", [])] })

/-- Both go to the authors, who are not in the first place asked for. -/
theorem searchIndex_eq_aggregateIndex_nameTally : ∃ compiler,
    (nameTally {}).start = .ok compiler ∧
      Request.subjectField? (nameTally {}).request.aggregate (nameTally {}).request.suggestion =
        some "name" ∧
      (compiler.used [.call .aggregation, .call .query, .aggregateField]).searchIndex =
        .ok "authors" ∧
      (compiler.used [.call .aggregation, .call .query, .aggregateField]).aggregateIndex.1 =
        .ok "authors" := by
  have hrun : ((nameTally {}).start.toOption.any fun compiler =>
      decide ((compiler.used [.call .aggregation, .call .query, .aggregateField]).searchIndex =
        .ok "authors")) = true := by
    decide +kernel
  simp only [Option.any_eq_true, toOption_eq_some, decide_eq_true_eq] at hrun
  obtain ⟨compiler, hstart, hsearch⟩ := hrun
  obtain ⟨_, _, link, -, -, -, hall⟩ := searchIndex_eq_aggregateIndex hstart rfl
  obtain ⟨hsearch', haggregate⟩ := hall [.call .aggregation, .call .query, .aggregateField] (by simp)
  exact ⟨compiler, hstart, rfl, hsearch, haggregate.trans (hsearch'.symm.trans hsearch)⟩

end Compiler

end LinkedSearch
