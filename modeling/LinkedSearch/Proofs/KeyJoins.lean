import LinkedSearch.Proofs.Inlining
import LinkedSearch.Proofs.Quantifying
import LinkedSearch.Proofs.Using

/-! # Joins between keys

An expansion is not scanned if its query asks for the primary key of the linked index only, and both join
fields are primary keys: then it is enough that there is a key. The join fields are looked up by their names,
and a name belongs to the primary index if that has it, so that the key that is found need not be the one of
the linked index:

* `Compiler.keyJoin_of_keys`: what is known about an expansion that was resolved without a scan, how
  its query and what has taken its place are compiled, and when that is what the values of a scan would match.
* `leaf_key`, `leaf_values`: predicates that ask for a key, and for the values of a scan. -/

namespace LinkedSearch

open Query (Kind Label Tree)
open Schema (Mapping)

/-- **Joined by keys**: a value of the left field of one document matches one of the right field of the other. -/
def Document.joined (left right : String) (document other : Json) : Bool :=
  (Document.values other right).any fun value => (Document.values document left).any (·.hasTerm value)

/-- Resolutions by values without a scan. -/
theorem Resolution.eq_keys {resolution : Resolution} (hjoin : resolution.isJoin = true)
    (hrequest : resolution.request? = none) : resolution = .keys := by
  cases resolution with
  | keys => rfl
  | inPlace own => exact absurd hjoin (by simp [isJoin])
  | scan request => exact absurd hrequest (by simp [request?])

namespace Compile

variable {env : Environment} {p : Progress}

/-- **A predicate that asks for a key** admits everything. -/
theorem leaf_key (hp : Sound env p) {label : Label} {owner : Mapping} {field : String}
    (hkind : label.kind = .notNull) (hfield : label.field = some field)
    (howner : p.metadata.ownerMapping env.resolver field = .ok owner) (hkey : owner.primaryKey = field) :
    (exec (leaf env label) p).1 = .ok (.matchAll none) := by
  obtain ⟨q, hexec, -⟩ := exec_mappingOf hp field
  have hname : label.fieldName = field := by rw [Label.fieldName, hfield]; rfl
  unfold leaf
  simp only [hkind]
  unfold plainLeaf
  simp only [hkind, hname]
  rw [exec_bind, hexec, howner]
  simp only [hkey, if_true]
  rfl

/-- **A predicate that asks for the values of a scan** is a condition on terms. -/
theorem leaf_values (hp : Sound env p) (hmode : p.aggregating = false) {left : String} {owner : Mapping}
    (howner : p.metadata.ownerMapping env.resolver left = .ok owner)
    (hflat : owner.nestedPath? left = none) (values : List Json) (hits : Nat) :
    (exec (leaf env (valuesLabel left values hits)) p).1 = .ok (.terms left values none none) := by
  have hbare : Bare env p (valuesLabel left values hits) := by
    refine ⟨hp, hmode, ?_⟩
    show (p.metadata.ownerMapping env.resolver left).map (·.nestedPath? left) = .ok none
    rw [howner]
    exact congrArg Except.ok hflat
  exact exec_plainLeaf_array hbare rfl (by simp [valuesLabel])

end Compile

namespace Cluster

/-- **The values of all keys** match a document if and only if it is joined with some document. -/
theorem holds_keys (cluster : Cluster) {env : Environment} {earlier : List ScanRequest}
    {index left right : String} {values : List Json} {hits : Nat}
    (hrun : (cluster.executor.run earlier
      (Compile.scanRequest env index right (.matchAll none) none)).outcome = .ok (values, hits))
    (hobjects : ∀ document ∈ cluster.documentsOf index,
      ∀ value ∈ Document.values document right, value.isObject = false) (document : Json) :
    (Fragment.terms left values none none).holds document =
      (cluster.documentsOf index).any (Document.joined left right document) := by
  have hjoined := cluster.run_any_joined rfl hrun hobjects (Document.values document left)
  simp only [Compile.scanRequest, Fragment.holds, Bool.true_and] at hjoined
  unfold Document.joined
  rw [← hjoined, Bool.eq_iff_iff]
  simp [Fragment.holds, List.one_le_countP_iff, List.countP_pos_iff]

end Cluster

namespace Compiler

open Compile

variable {setup : Setup} {compiler : Compiler}

/-- **Expansions that are not scanned.** However a compiler was used, and with whatever outcomes: an expansion
that was resolved by its keys has a query that asks for the primary key of the linked index, and its join fields
are the primary keys of those indexes to which their names belong. What stands in its place admits everything.

Its right field is the primary key of the linked index if and only if the index to which the name belongs has
the same primary key. Then its query admits everything as well, and the scan that was not made would have
collected the right field of all documents of the linked index. The predicate on these values would match the
same documents as what stands in the place of the expansion, among any documents, if and only if each of them has
a key of the linked index. -/
theorem keyJoin_of_keys (hstart : setup.start = .ok compiler) (uses : List Use) {r : Report}
    (hr : r ∈ (compiler.used uses).reports) (hkeys : r.resolution = .keys) :
    ∃ left right linked leftOwner rightOwner,
      KeyJoin compiler.environment.resolver (compiler.used uses).progress.metadata r.link r.query.label
        left right linked leftOwner rightOwner ∧
      (exec (leaf compiler.environment { kind := .notNull, field := some left })
        (compiler.used uses).progress).1 = .ok (.matchAll none) ∧
      (right = linked.primaryKey ↔ rightOwner.primaryKey = linked.primaryKey) ∧
      (right = linked.primaryKey →
        (exec (leaf compiler.environment r.query.label) (compiler.used uses).progress).1 =
          .ok (.matchAll none) ∧
        (leftOwner.nestedPath? left = none → ∀ (cluster : Cluster) (earlier : List ScanRequest)
          (values : List Json) (hits : Nat), (cluster.executor.run earlier
            (scanRequest compiler.environment r.link.index right (.matchAll none) none)).outcome =
              .ok (values, hits) →
          (∀ document ∈ cluster.documentsOf r.link.index,
            ∀ value ∈ Document.values document right, value.isObject = false) →
          ∃ F, (exec (leaf compiler.environment (valuesLabel left values hits))
              (compiler.used uses).progress).1 = .ok F ∧
            ∀ documents : List Json,
              (∀ document ∈ documents, F.holds document = (Fragment.matchAll none).holds document) ↔
                ∀ document ∈ documents, ∃ other ∈ cluster.documentsOf r.link.index,
                  Document.joined left right document other = true)) := by
  have hstarted := Setup.started_of_ok hstart
  have hidle := idle_of_started hstarted
  have hevolves := used_evolves hidle uses
  have hgenuine := genuine_of_used hstarted uses hr
  unfold Report.Genuine at hgenuine
  rw [hkeys] at hgenuine
  obtain ⟨left, right, linked, leftOwner, rightOwner, hjoin⟩ := hgenuine
  have hp := hevolves.sound
  refine ⟨left, right, linked, leftOwner, rightOwner, hjoin,
    leaf_key hp rfl rfl hjoin.leftOwner_eq hjoin.left_eq, by rw [hjoin.right_eq], fun hright => ⟨?_, ?_⟩⟩
  · exact leaf_key hp hjoin.kind_eq hjoin.field_eq (hright ▸ hjoin.rightOwner_eq)
      (hjoin.right_eq.trans hright)
  · intro hflat cluster earlier values hits hrun hobjects
    refine ⟨_, leaf_values hp ?_ hjoin.leftOwner_eq hflat values hits, fun documents => ?_⟩
    · exact (hidle.used uses).aggregating_eq
    · refine forall₂_congr fun document _ => ?_
      rw [cluster.holds_keys hrun hobjects document]
      simp [Fragment.holds]

/-- A book and an author with the same key, where the author's key is the given field; both have an
identifier, which is the key of books. -/
def identified (key : String) (book author : Int) : Cluster where
  mappings := [("authors", (Mapping.keyed "authors" key).withField "id" { type := .long }),
    ("books", .keyed "books" "id")]
  documents := [("authors", [.obj [("id", .int author), ("uid", .int book)]]),
    ("books", [.obj [("id", .int book)]])]

/-- Books that have the identifier of an author with a key. -/
def keySearch (key : String) (book author : Int) : Setup where
  index := "books"
  request := {
    links := [.unnamed "id" "authors" "id"]
    query := some (.expansion (.unnamed "id" "authors" "id") (.notNull key)) }
  settings := { allowSingleIndex := false }
  resolver := some (identified key book author).resolver
  executor := some (identified key book author).executor

/-- Books and authors with the same key: the scan that is not made would have found the key of the book, and the
predicate on it would have matched the book. -/
theorem keyJoin_of_keys_keySearch : ∃ compiler r F, (keySearch "id" 7 7).start = .ok compiler ∧
    compiler.query.2.scans = [] ∧ r ∈ (compiler.used [.call .query]).reports ∧ r.resolution = .keys ∧
    (exec (leaf compiler.environment (valuesLabel "id" [.int 7] 1))
      (compiler.used [.call .query]).progress).1 = .ok F ∧
    ∀ document ∈ (identified "id" 7 7).documentsOf "books", F.holds document = true := by
  have hrun : ((keySearch "id" 7 7).start.toOption.any fun compiler =>
      decide (compiler.query.2.scans.length = 0) &&
        decide (((identified "id" 7 7).executor.run [] (scanRequest compiler.environment "authors" "id"
          (.matchAll none) none)).outcome.toOption = some ([.int 7], 1)) &&
        (compiler.used [.call .query]).reports.any fun r => r.resolution.isJoin &&
          r.resolution.request?.isNone && decide (r.link = .unnamed "id" "authors" "id")) = true := by
    decide +kernel
  simp only [Option.any_eq_true, toOption_eq_some, List.any_eq_true, Bool.and_eq_true, decide_eq_true_eq,
    Option.isNone_iff_eq_none, List.length_eq_zero_iff] at hrun
  obtain ⟨compiler, hstart, ⟨hscans, hfound⟩, r, hr, ⟨hjoin, hrequest⟩, hlink⟩ := hrun
  have hkeys := Resolution.eq_keys hjoin hrequest
  -- both indexes have the same key, and it is not nested
  have hmappings : ∀ index mapping, (identified "id" 7 7).mapping index = .ok mapping →
      mapping.primaryKey = "id" ∧ mapping.nestedPath? "id" = none := by
    intro index mapping h
    unfold Cluster.mapping at h
    simp only [identified, Keyed.find?_cons, Keyed.find?_nil] at h
    split at h
    · next found hfind =>
      obtain rfl := Except.ok.inj h
      split at hfind
      · obtain rfl := Option.some.inj hfind
        decide +kernel
      · split at hfind
        · obtain rfl := Option.some.inj hfind
          decide +kernel
        · exact absurd hfind (by simp)
    · exact absurd h (by simp)
  obtain ⟨left, right, linked, leftOwner, rightOwner, hkey, -, -, hscan⟩ :=
    keyJoin_of_keys hstart [.call .query] hr hkeys
  have hresolver : compiler.environment.resolver = (identified "id" 7 7).resolver :=
    (Option.some.inj (Setup.started_of_ok hstart).resolver_eq).symm
  have howned : ∀ {field owner}, (compiler.used [.call .query]).progress.metadata.ownerMapping
      compiler.environment.resolver field = .ok owner →
        owner.primaryKey = "id" ∧ owner.nestedPath? "id" = none := by
    intro field owner h
    unfold Metadata.ownerMapping at h
    split at h
    · exact absurd h (by simp)
    · exact hmappings _ _ (hresolver ▸ h)
  have hleft := howned hkey.leftOwner_eq
  have hright := howned hkey.rightOwner_eq
  obtain rfl : left = "id" := hkey.left_eq.symm.trans hleft.1
  obtain rfl : right = "id" := hkey.right_eq.symm.trans hright.1
  have hlinked : linked.primaryKey = "id" := (hmappings _ _ (hresolver ▸ hkey.linked_eq)).1
  have hindex : r.link.index = "authors" := by rw [hlink]; rfl
  rw [hindex] at hscan
  obtain ⟨F, hF, hmatch⟩ := (hscan hlinked.symm).2 hleft.2 (identified "id" 7 7) [] [.int 7] 1
    hfound (by decide +kernel)
  refine ⟨compiler, r, F, hstart, hscans, hr, hkeys, hF, fun document hdocument => ?_⟩
  rw [(hmatch ((identified "id" 7 7).documentsOf "books")).mpr (by decide +kernel) document hdocument]
  rfl

/-- **A join with a field that is no key**: the authors have another primary key, and the same keys as the
books. The identifier of an author is taken for a key because books have a field of that name. The expansion
matches all books without a scan, but no book has an identifier that the scan would have found. -/
theorem keyJoin_foreign_keySearch : ∃ compiler r F linked values,
    (keySearch "uid" 7 9).start = .ok compiler ∧
    compiler.query.1 = .ok F ∧ F.isMatchAll = true ∧ compiler.query.2.scans = [] ∧
    r ∈ compiler.query.2.reports ∧ r.resolution = .keys ∧
    compiler.environment.resolver.mapping r.link.index = .ok linked ∧
    linked.primaryKey ≠ r.link.rightField ∧
    ((identified "uid" 7 9).executor.run [] (scanRequest compiler.environment r.link.index
      r.link.rightField (.matchAll none) none)).outcome = .ok values ∧
    ∀ document ∈ (identified "uid" 7 9).documentsOf "books",
      (Fragment.terms r.link.leftField values.1 none none).holds document = false := by
  have hrun : ((keySearch "uid" 7 9).start.toOption.any fun compiler =>
      compiler.query.1.toOption.any fun F => F.isMatchAll &&
        decide (compiler.query.2.scans.length = 0) && compiler.query.2.reports.any fun r =>
          r.resolution.isJoin && r.resolution.request?.isNone &&
          ((compiler.environment.resolver.mapping r.link.index).toOption.any fun linked =>
            decide (linked.primaryKey ≠ r.link.rightField)) &&
          (((identified "uid" 7 9).executor.run [] (scanRequest compiler.environment r.link.index
              r.link.rightField (.matchAll none) none)).outcome.toOption.any fun values =>
            ((identified "uid" 7 9).documentsOf "books").all fun document =>
              !(Fragment.terms r.link.leftField values.1 none none).holds document)) = true := by
    decide +kernel
  simp only [Option.any_eq_true, toOption_eq_some, List.any_eq_true, Bool.and_eq_true, decide_eq_true_eq,
    Option.isNone_iff_eq_none, List.length_eq_zero_iff, List.all_eq_true, Bool.not_eq_true'] at hrun
  obtain ⟨compiler, hstart, F, hF, ⟨hall, hscans⟩, r, hr, ⟨⟨hjoin, hrequest⟩, linked, hlinked, hkey⟩, values,
    hvalues, hbooks⟩ := hrun
  exact ⟨compiler, r, F, linked, values, hstart, hF, hall, hscans, hr, Resolution.eq_keys hjoin hrequest,
    hlinked, hkey, hvalues, hbooks⟩

end Compiler

end LinkedSearch
