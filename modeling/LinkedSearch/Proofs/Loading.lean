import LinkedSearch.Proofs.Conforming
import LinkedSearch.Proofs.Legibility
import LinkedSearch.Proofs.Readers

/-! # Clusters of fixtures

A fixture lists the documents of its indexes one index after the other, in no particular order. A cluster is filled
with them document by document, and the first one that is refused ends it. Whether there is such a document, and what
the cluster holds otherwise, does not depend on the order of the indexes: a document of one index leaves the documents
of the others and all mappings alone, so that each is checked against the same mapping at any time.

* `Mapping.Admits`: the documents that a mapping admits.
* `Fixture.Loadable`: the mapping of its index admits each document of a fixture.
* `Cluster.Gains`: a cluster with more documents, and nothing else changed.
* `Cluster.addTables_gains`, `Cluster.addTables_refuses`: what filling a cluster comes to.
* `Cluster.loading_unordered`: the cluster of a fixture, whatever the order of the indexes. -/

namespace LinkedSearch

open Schema (FieldType Mapping)

/-! ## Fixtures -/

/-- **A document that a mapping admits**: an object in which the members that the mapping knows have values of their
types. -/
def Schema.Mapping.Admits (mapping : Mapping) (document : Json) : Prop :=
  ∃ members, document = .obj members ∧ ∀ field value type, (field, value) ∈ members →
    mapping.type? field = some type → type.Accepts value

namespace Fixture

variable {fixture : Fixture}

/-- The mapping of an index; of several ones it is the last. -/
def mapping? (fixture : Fixture) (index : String) : Option Mapping :=
  fixture.mappings.reverse.find? fun mapping => mapping.index = index

/-- The documents of an index in their order. -/
def documentsOf (fixture : Fixture) (index : String) : List Json :=
  (Keyed.find? index fixture.documents).getD []

/-- **Loadable** fixtures: every index with documents has a mapping, which admits them. -/
def Loadable (fixture : Fixture) : Prop :=
  ∀ index documents, (index, documents) ∈ fixture.documents → ∀ document ∈ documents,
    ∃ mapping, fixture.mapping? index = some mapping ∧ mapping.Admits document

/-- A fixture that was read names each index once in the table of its documents. -/
theorem ofJson?_gives (value : Json) :
    Gives (fun fixture : Fixture => (Keyed.keys fixture.documents).Nodup) (ofJson? value) := by
  refine .after fun fields => ?_
  split
  · next mappings documents joinPaths =>
    refine .after fun mappings => ?_
    have htables : Gives Keyed.Ascending (Json.withDefault [] (Json.table? (Json.list? Json.any?)) documents) :=
      Json.withDefault_gives Keyed.ascending_nil (Json.table?_gives _)
    refine htables.bind fun tables hascending => .after fun joinPaths => .some ?_
    exact hascending.nodup
  · exact .none

end Fixture

/-- What is found in a table does not depend on the order of its entries. -/
theorem Keyed.find?_of_perm {α : Type} {table table' : List (String × α)} (distinct : (Keyed.keys table).Nodup)
    (hperm : table'.Perm table) (key : String) : Keyed.find? key table' = Keyed.find? key table := by
  have distinct' : (Keyed.keys table').Nodup := (hperm.map Prod.fst).nodup_iff.mpr distinct
  apply Option.ext
  intro value
  constructor
  · intro hfind
    exact find?_of_mem distinct (hperm.mem_iff.mp (mem_of_find? hfind))
  · intro hfind
    exact find?_of_mem distinct' (hperm.mem_iff.mpr (mem_of_find? hfind))

namespace Cluster

variable {cluster before after : Cluster} {mapping : Mapping} {index : String} {document : Json}
  {documents : List Json} {tables : List (String × List Json)}

/-! ## One more document -/

/-- Whether a cluster has a mapping for an index that admits a document. -/
def Takes (cluster : Cluster) (index : String) (document : Json) : Prop :=
  ∃ mapping, Keyed.find? index cluster.mappings = some mapping ∧ mapping.Admits document

/-- Every index with a mapping has a list of documents, which may be empty. -/
def Housed (cluster : Cluster) : Prop :=
  ∀ index mapping, Keyed.find? index cluster.mappings = some mapping →
    ∃ documents, Keyed.find? index cluster.documents = some documents

/-- **Gains**: a cluster with some documents more at the end of those of each index that it has, and with nothing else
changed. -/
structure Gains (gained : String → List Json) (before after : Cluster) : Prop where
  mappings_eq : after.mappings = before.mappings
  joinPaths_eq : after.joinPaths = before.joinPaths
  failures_eq : after.failures = before.failures
  ascending : Keyed.Ascending before.documents → Keyed.Ascending after.documents
  find?_documents : ∀ index, Keyed.find? index after.documents =
    (Keyed.find? index before.documents).map (· ++ gained index)

/-- The documents that are gained by one index. -/
def only (index : String) (documents : List Json) (other : String) : List Json :=
  if index = other then documents else []

/-- The documents that some tables hold for an index. -/
def gathered (tables : List (String × List Json)) (other : String) : List Json :=
  tables.flatMap fun (index, documents) => only index documents other

namespace Gains

variable {gained gained' : String → List Json}

theorem refl (h : ∀ index, gained index = []) : Gains gained cluster cluster := by
  refine ⟨rfl, rfl, rfl, id, fun index => ?_⟩
  simp [h index]

theorem trans {middle : Cluster} (h : Gains gained before middle) (h' : Gains gained' middle after) :
    Gains (fun index => gained index ++ gained' index) before after := by
  refine ⟨h'.mappings_eq.trans h.mappings_eq, h'.joinPaths_eq.trans h.joinPaths_eq,
    h'.failures_eq.trans h.failures_eq, fun hascending => h'.ascending (h.ascending hascending), fun index => ?_⟩
  rw [h'.find?_documents, h.find?_documents, Option.map_map]
  congr 1
  funext documents
  simp

theorem congr (h : Gains gained before after) (hgained : ∀ index, gained' index = gained index) :
    Gains gained' before after :=
  (funext hgained : gained' = gained) ▸ h

/-- The mappings stay, and so do the indexes that have lists of documents. -/
theorem housed (h : Gains gained before after) (hhoused : before.Housed) : after.Housed := by
  intro index mapping hmapping
  rw [h.mappings_eq] at hmapping
  obtain ⟨documents, hdocuments⟩ := hhoused index mapping hmapping
  exact ⟨documents ++ gained index, by rw [h.find?_documents, hdocuments]; rfl⟩

/-- The same documents are taken. -/
theorem takes_iff (h : Gains gained before after) : after.Takes index document ↔ before.Takes index document := by
  rw [Takes, h.mappings_eq, Takes]

/-- **What a cluster has gained** determines it. -/
theorem unique {after' : Cluster} (h : Gains gained before after) (h' : Gains gained before after')
    (hascending : Keyed.Ascending before.documents) : after = after' := by
  have hdocuments : after.documents = after'.documents := by
    refine (h.ascending hascending).ext (h'.ascending hascending) fun index => ?_
    rw [h.find?_documents, h'.find?_documents]
  have hmappings := h.mappings_eq.trans h'.mappings_eq.symm
  have hjoinPaths := h.joinPaths_eq.trans h'.joinPaths_eq.symm
  have hfailures := h.failures_eq.trans h'.failures_eq.symm
  cases after
  cases after'
  simp only [Cluster.mk.injEq]
  exact ⟨hmappings, hdocuments, hjoinPaths, hfailures⟩

end Gains

/-- A list of members is valid if each member that the mapping knows has a value of its type. -/
theorem validate_eq_ok_iff {members : List (String × Json)} :
    validate mapping index members = .ok () ↔ ∀ field value type, (field, value) ∈ members →
      mapping.type? field = some type → type.Accepts value := by
  constructor
  · intro hvalid field value type hmem htype
    have hmember := validateMember_of_validate hvalid field value hmem
    rw [validateMember, htype] at hmember
    exact hmember
  · intro haccepts
    induction members with
    | nil => rfl
    | cons member rest ih =>
      obtain ⟨field, value⟩ := member
      have hmember : validateMember mapping field value = .ok () := by
        unfold validateMember
        cases htype : mapping.type? field with
        | none => rfl
        | some type => exact haccepts field value type List.mem_cons_self htype
      rw [validate, hmember]
      exact ih fun field value type hmem => haccepts field value type (List.mem_cons_of_mem _ hmem)

/-- A document is added if the cluster takes it. -/
theorem Takes.addDocument (htakes : cluster.Takes index document) (hhoused : cluster.Housed) :
    ∃ after, cluster.addDocument index document = .ok after ∧ Gains (only index [document]) cluster after := by
  obtain ⟨mapping, hmapping, members, rfl, haccepts⟩ := htakes
  obtain ⟨old, hold⟩ := hhoused index mapping hmapping
  have hadded : cluster.addDocument index (.obj members) = .ok { cluster with
      documents := Keyed.alter index (fun old => old.getD [] ++ [.obj members]) cluster.documents } := by
    have hvalid : validate mapping index members = .ok () := validate_eq_ok_iff.mpr haccepts
    simp only [Cluster.addDocument, mapping_eq_ok.mpr hmapping, bind, Except.bind, hvalid]
    rfl
  refine ⟨_, hadded, rfl, rfl, rfl, fun hascending => hascending.insert index _, fun other => ?_⟩
  -- the list of the index was there, and has one more document at its end
  rw [Keyed.alter, Keyed.find?_insert, hold, only]
  by_cases heq : index = other
  · subst heq
    simp [hold]
  · simp [heq]

/-- A document is refused if the cluster does not take it. -/
theorem addDocument_refuses (htakes : ¬cluster.Takes index document) :
    ∃ error, cluster.addDocument index document = .error error := by
  cases hadded : cluster.addDocument index document with
  | error error => exact ⟨error, rfl⟩
  | ok after =>
    obtain ⟨mapping, members, hmapping, rfl, hvalid, -⟩ := addDocument_ok hadded
    exact absurd ⟨mapping, mapping_eq_ok.mp hmapping, members, rfl, validate_eq_ok_iff.mp hvalid⟩ htakes

/-! ## Many documents -/

/-- The documents of one index are added if the cluster takes all of them. -/
theorem addDocuments_gains (hhoused : cluster.Housed) (htakes : ∀ document ∈ documents, cluster.Takes index document) :
    ∃ after, cluster.addDocuments index documents = (.ok (), after) ∧ Gains (only index documents) cluster after := by
  induction documents generalizing cluster with
  | nil => exact ⟨cluster, rfl, Gains.refl fun other => by simp [only]⟩
  | cons document rest ih =>
    obtain ⟨middle, hmiddle, hgains⟩ := (htakes document List.mem_cons_self).addDocument hhoused
    obtain ⟨after, hafter, hgains'⟩ := ih (hgains.housed hhoused) fun other hother =>
      hgains.takes_iff.mpr (htakes other (List.mem_cons_of_mem _ hother))
    refine ⟨after, by rw [addDocuments, hmiddle]; exact hafter, (hgains.trans hgains').congr fun other => ?_⟩
    by_cases heq : index = other <;> simp [only, heq]

/-- One document that is not taken ends the addition. -/
theorem addDocuments_refuses (hhoused : cluster.Housed) (hmem : document ∈ documents)
    (htakes : ¬cluster.Takes index document) : ∃ error, (cluster.addDocuments index documents).1 = .error error := by
  induction documents generalizing cluster with
  | nil => exact absurd hmem List.not_mem_nil
  | cons first rest ih =>
    rw [addDocuments]
    by_cases hfirst : cluster.Takes index first
    · obtain ⟨middle, hmiddle, hgains⟩ := hfirst.addDocument hhoused
      rw [hmiddle]
      rcases List.mem_cons.mp hmem with rfl | hrest
      · exact absurd hfirst htakes
      · exact ih (hgains.housed hhoused) hrest (mt hgains.takes_iff.mp htakes)
    · obtain ⟨error, herror⟩ := addDocument_refuses hfirst
      exact ⟨error, by rw [herror]⟩

/-- **Filling** a cluster that takes all documents gives each index its documents in their order. -/
theorem addTables_gains (hhoused : cluster.Housed)
    (htakes : ∀ index documents, (index, documents) ∈ tables → ∀ document ∈ documents, cluster.Takes index document) :
    ∃ after, addTables tables cluster = .ok after ∧ Gains (gathered tables) cluster after := by
  induction tables generalizing cluster with
  | nil => exact ⟨cluster, rfl, Gains.refl fun other => rfl⟩
  | cons table rest ih =>
    obtain ⟨index, documents⟩ := table
    obtain ⟨middle, hmiddle, hgains⟩ := addDocuments_gains hhoused (htakes index documents List.mem_cons_self)
    obtain ⟨after, hafter, hgains'⟩ := ih (hgains.housed hhoused) fun other others hother document hdocument =>
      hgains.takes_iff.mpr (htakes other others (List.mem_cons_of_mem _ hother) document hdocument)
    refine ⟨after, by rw [addTables, hmiddle]; exact hafter, (hgains.trans hgains').congr fun other => rfl⟩

/-- **One document that is not taken** is enough for a failure, wherever its table stands. -/
theorem addTables_refuses (hhoused : cluster.Housed) (htable : (index, documents) ∈ tables)
    (hmem : document ∈ documents) (htakes : ¬cluster.Takes index document) :
    ∃ error, addTables tables cluster = .error error := by
  induction tables generalizing cluster with
  | nil => exact absurd htable List.not_mem_nil
  | cons table rest ih =>
    obtain ⟨first, firsts⟩ := table
    rw [addTables]
    by_cases hfirst : ∀ document ∈ firsts, cluster.Takes first document
    · obtain ⟨middle, hmiddle, hgains⟩ := addDocuments_gains hhoused hfirst
      rw [hmiddle]
      rcases List.mem_cons.mp htable with heq | hrest
      · cases heq
        exact absurd (hfirst document hmem) htakes
      · exact ih (hgains.housed hhoused) hrest (mt hgains.takes_iff.mp htakes)
    · -- a document of the first table is refused, so that the others do not matter
      push Not at hfirst
      obtain ⟨other, hother, hnot⟩ := hfirst
      obtain ⟨error, herror⟩ := addDocuments_refuses hhoused hother hnot
      cases hadded : cluster.addDocuments first firsts with
      | mk outcome after =>
        rw [hadded] at herror
        obtain rfl : outcome = .error error := herror
        exact ⟨error, rfl⟩

/-- Tables of different indexes hold for each what is found under it. -/
theorem gathered_of_distinct (distinct : (Keyed.keys tables).Nodup) (index : String) :
    gathered tables index = (Keyed.find? index tables).getD [] := by
  induction tables with
  | nil => rfl
  | cons table rest ih =>
    obtain ⟨first, documents⟩ := table
    obtain ⟨hfresh, hrest⟩ := List.nodup_cons.mp distinct
    have hcons : gathered ((first, documents) :: rest) index = only first documents index ++ gathered rest index := rfl
    rw [hcons, ih hrest, Keyed.find?_cons, only]
    by_cases heq : first = index
    · subst heq
      rw [if_pos rfl, if_pos rfl, Keyed.find?_eq_none hfresh]
      exact List.append_nil documents
    · rw [if_neg heq, if_neg heq]
      rfl

/-! ## Indexes and join paths -/

/-- **Declared indexes**: a cluster in which an index has the given mapping and no documents, or is not there. -/
structure Declares (declared : String → Option Mapping) (cluster : Cluster) : Prop where
  find?_mappings : ∀ index, Keyed.find? index cluster.mappings = declared index
  find?_documents : ∀ index, Keyed.find? index cluster.documents = (declared index).map fun _ => []
  ascending : Keyed.Ascending cluster.documents
  joinPaths_eq : cluster.joinPaths = []

namespace Declares

variable {declared : String → Option Mapping}

/-- An index that is added has the mapping that it is added with, also if it was there before. -/
theorem addIndex (h : Declares declared cluster) (mapping : Mapping) :
    Declares (fun index => if mapping.index = index then some mapping else declared index)
      (cluster.addIndex mapping) := by
  refine ⟨fun index => ?_, fun index => ?_, h.ascending.insert _ _, h.joinPaths_eq⟩
  · rw [Cluster.addIndex, Keyed.find?_insert, h.find?_mappings]
  · rw [Cluster.addIndex, Keyed.alter, Keyed.find?_insert, h.find?_documents, h.find?_documents]
    by_cases heq : mapping.index = index
    · -- the list of an index that was there is still empty
      rw [if_pos heq, if_pos heq]
      cases declared mapping.index <;> rfl
    · rw [if_neg heq, if_neg heq]

/-- **Of several mappings** of an index the last one stays. -/
theorem addIndexes (h : Declares declared cluster) (mappings : List Mapping) :
    Declares (fun index => (mappings.reverse.find? fun mapping => mapping.index = index).or (declared index))
      (mappings.foldl (fun cluster mapping => cluster.addIndex mapping) cluster) := by
  induction mappings generalizing declared cluster with
  | nil => exact h
  | cons mapping rest ih =>
    have hrest := ih (h.addIndex mapping)
    rw [List.foldl_cons]
    convert hrest using 2 with index
    rw [List.reverse_cons, List.find?_append, Option.or_assoc]
    by_cases heq : mapping.index = index <;> simp [heq]

theorem housed (h : Declares declared cluster) : cluster.Housed := by
  intro index mapping hmapping
  rw [h.find?_mappings] at hmapping
  exact ⟨[], by rw [h.find?_documents, hmapping]; rfl⟩

end Declares

/-- Join paths that are set do not change anything else; of two between the same indexes the later one comes first. -/
theorem foldl_setJoinPath (paths : List JoinPath) (cluster : Cluster) :
    paths.foldl (fun cluster path => cluster.setJoinPath path) cluster =
      { cluster with joinPaths := paths.reverse ++ cluster.joinPaths } := by
  induction paths generalizing cluster with
  | nil => rfl
  | cons path rest ih =>
    rw [List.foldl_cons, ih, List.reverse_cons, List.append_assoc]
    rfl

/-- The cluster with the indexes of a fixture, before it has documents. -/
def declared (fixture : Fixture) : Cluster :=
  fixture.mappings.foldl (fun cluster mapping => cluster.addIndex mapping) empty

theorem declares_declared (fixture : Fixture) : Declares fixture.mapping? (declared fixture) := by
  have hempty : Declares (fun _ => none) empty := ⟨fun _ => rfl, fun _ => rfl, Keyed.ascending_nil, rfl⟩
  have hdeclares := hempty.addIndexes fixture.mappings
  simp only [Option.or_none] at hdeclares
  exact hdeclares

/-- Join paths are set after the documents are added. -/
theorem ofFixture_eq (fixture : Fixture) :
    ofFixture fixture = (addTables fixture.documents (declared fixture)).map fun filled =>
      { filled with joinPaths := fixture.joinPaths.reverse ++ filled.joinPaths } := by
  have hbind : ofFixture fixture = (addTables fixture.documents (declared fixture)).bind fun filled =>
      .ok (fixture.joinPaths.foldl (fun cluster path => cluster.setJoinPath path) filled) := rfl
  rw [hbind]
  cases addTables fixture.documents (declared fixture) with
  | error error => rfl
  | ok filled => exact congrArg Except.ok (foldl_setJoinPath fixture.joinPaths filled)

/-! ## The cluster of a fixture -/

variable {fixture : Fixture}

/-- The documents that the declared indexes take are those that their mappings admit. -/
theorem takes_declared : (declared fixture).Takes index document ↔
    ∃ mapping, fixture.mapping? index = some mapping ∧ mapping.Admits document := by
  simp only [Takes, (declares_declared fixture).find?_mappings]

/-- **The cluster of a loadable fixture** has the documents of the fixture, and no others. -/
theorem ofFixture_gains (hloadable : fixture.Loadable) :
    ∃ filled, Gains (gathered fixture.documents) (declared fixture) filled ∧
      ofFixture fixture = .ok { filled with joinPaths := fixture.joinPaths.reverse ++ filled.joinPaths } := by
  have hhoused := (declares_declared fixture).housed
  obtain ⟨filled, hfilled, hgains⟩ := addTables_gains hhoused fun index documents htable document hdocument =>
    takes_declared.mpr (hloadable index documents htable document hdocument)
  exact ⟨filled, hgains, by rw [ofFixture_eq, hfilled]; rfl⟩

/-- A fixture that is not loadable has no cluster. -/
theorem ofFixture_refuses (hloadable : ¬fixture.Loadable) : ∃ error, ofFixture fixture = .error error := by
  unfold Fixture.Loadable at hloadable
  push Not at hloadable
  obtain ⟨index, documents, htable, document, hdocument, hnone⟩ := hloadable
  have htakes : ¬(declared fixture).Takes index document := by
    rw [takes_declared]
    rintro ⟨mapping, hmapping, hadmits⟩
    exact hnone mapping hmapping hadmits
  obtain ⟨error, herror⟩ := addTables_refuses (declares_declared fixture).housed htable hdocument htakes
  exact ⟨error, by rw [ofFixture_eq, herror]; rfl⟩

theorem exists_ofFixture_iff : (∃ cluster, ofFixture fixture = .ok cluster) ↔ fixture.Loadable := by
  constructor
  · rintro ⟨cluster, hcluster⟩
    by_contra hloadable
    obtain ⟨error, herror⟩ := ofFixture_refuses hloadable
    rw [hcluster] at herror
    cases herror
  · intro hloadable
    obtain ⟨filled, -, hfilled⟩ := ofFixture_gains hloadable
    exact ⟨_, hfilled⟩

/-- **Two orders** of the indexes of a fixture lead to one cluster. -/
theorem ofFixture_reordered (distinct : (Keyed.keys fixture.documents).Nodup) {reordered : List (String × List Json)}
    (hperm : reordered.Perm fixture.documents) {cluster : Cluster} (hcluster : ofFixture fixture = .ok cluster) :
    ofFixture { fixture with documents := reordered } = .ok cluster := by
  have hloadable : fixture.Loadable := exists_ofFixture_iff.mp ⟨cluster, hcluster⟩
  have hloadable' : Fixture.Loadable { fixture with documents := reordered } :=
    fun index documents htable => hloadable index documents (hperm.mem_iff.mp htable)
  obtain ⟨filled, hgains, hfilled⟩ := ofFixture_gains hloadable
  obtain ⟨filled', hgains', hfilled'⟩ := ofFixture_gains hloadable'
  -- both orders start with the same indexes and give each of them the same documents
  have hgathered : ∀ index, gathered fixture.documents index = gathered reordered index := by
    intro index
    have distinct' : (Keyed.keys reordered).Nodup := (hperm.map Prod.fst).nodup_iff.mpr distinct
    rw [gathered_of_distinct distinct, gathered_of_distinct distinct', Keyed.find?_of_perm distinct hperm]
  have hsame : filled' = filled :=
    (hgains'.congr hgathered).unique hgains (declares_declared fixture).ascending
  rw [hfilled', hsame, ← hfilled, hcluster]

/-- **Loading a fixture does not depend on the order of its indexes**: with any other order it fails as well, or gives
the same cluster. It succeeds if and only if every index with documents has a mapping, which admits all of them; and
then each index has the last of the mappings for it and its documents in their order, an index that is not declared is
not there, and the join paths are those that were set, the last one first. -/
theorem loading_unordered (distinct : (Keyed.keys fixture.documents).Nodup) {reordered : List (String × List Json)}
    (hperm : reordered.Perm fixture.documents) :
    (∀ cluster, ofFixture { fixture with documents := reordered } = .ok cluster ↔ ofFixture fixture = .ok cluster) ∧
      ((∃ cluster, ofFixture fixture = .ok cluster) ↔ fixture.Loadable) ∧
      ∀ cluster, ofFixture fixture = .ok cluster →
        (∀ index, Keyed.find? index cluster.mappings = fixture.mapping? index) ∧
        (∀ index, Keyed.find? index cluster.documents =
          (fixture.mapping? index).map fun _ => fixture.documentsOf index) ∧
        cluster.joinPaths = fixture.joinPaths.reverse := by
  refine ⟨fun cluster => ⟨fun hcluster => ?_, ofFixture_reordered distinct hperm⟩, exists_ofFixture_iff,
    fun cluster hcluster => ?_⟩
  · have distinct' : (Keyed.keys reordered).Nodup := (hperm.map Prod.fst).nodup_iff.mpr distinct
    exact @ofFixture_reordered { fixture with documents := reordered } distinct' fixture.documents hperm.symm cluster
      hcluster
  · obtain ⟨filled, hgains, hfilled⟩ := ofFixture_gains (exists_ofFixture_iff.mp ⟨cluster, hcluster⟩)
    obtain rfl := Except.ok.inj (hcluster.symm.trans hfilled)
    have hdeclares := declares_declared fixture
    refine ⟨fun index => ?_, fun index => ?_, ?_⟩
    · rw [hgains.mappings_eq, hdeclares.find?_mappings]
    · rw [hgains.find?_documents, hdeclares.find?_documents, gathered_of_distinct distinct, Option.map_map]
      rfl
    · rw [hgains.joinPaths_eq, hdeclares.joinPaths_eq, List.append_nil]

/-- Two indexes, of which one is declared twice, with their documents. -/
def shelves (documents : List (String × List Json)) : Fixture where
  mappings := [.keyed "books" "isbn", .keyed "authors" "id", books]
  documents := documents
  joinPaths := [⟨"books", "authors", ["books:author", "authors:id"]⟩]

/-- Two books. -/
def shelvedBooks : List Json :=
  [.obj [("id", .int 2), ("title", .str "Emma")], .obj [("id", .int 1), ("title", .str "Persuasion")]]

/-- The books after their author. -/
def authorsFirst : List (String × List Json) := [("authors", [.obj [("id", .int 7)]]), ("books", shelvedBooks)]

/-- The books come before their author or after her. -/
theorem loading_unordered_shelves :
    (Keyed.keys (shelves authorsFirst).documents).Nodup ∧
      authorsFirst.reverse.Perm (shelves authorsFirst).documents ∧
      ∃ cluster, ofFixture (shelves authorsFirst) = .ok cluster ∧
        ofFixture (shelves authorsFirst.reverse) = .ok cluster ∧
        Keyed.find? "books" cluster.mappings = some books ∧
        Keyed.find? "books" cluster.documents = some shelvedBooks := by
  have distinct : (Keyed.keys (shelves authorsFirst).documents).Nodup := by decide
  have hperm : authorsFirst.reverse.Perm (shelves authorsFirst).documents := List.reverse_perm _
  obtain ⟨hsame, -, hholds⟩ := loading_unordered distinct hperm
  have hok : (ofFixture (shelves authorsFirst)).isOk = true := by
    decide +kernel
  cases hloaded : ofFixture (shelves authorsFirst) with
  | error error =>
    rw [hloaded] at hok
    cases hok
  | ok cluster =>
    obtain ⟨hmappings, hdocuments, -⟩ := hholds cluster hloaded
    refine ⟨distinct, hperm, cluster, rfl, (hsame cluster).mpr hloaded, ?_, ?_⟩
    · rw [hmappings]
      decide +kernel
    · rw [hdocuments]
      decide +kernel

end Cluster

end LinkedSearch
