import LinkedSearch.Proofs.Collecting
import LinkedSearch.Proofs.Tables

/-! # Documents and their mapping

A document is checked against the mapping of its index when it is added: every member that the mapping knows must have
a value of its type. The values of a field are then read from the member of its full name, or else along its dotted
path. So the check covers a field without dots, and a dotted one below a member that can hold no objects; and it
covers nothing that an update puts into a document, which is not checked.

* `FieldType.Accepts.scalars`, `FieldType.Accepts.valuesAlong`: what an accepted value holds.
* `Mapping.Guards`: whether the check of the members covers a field.
* `Cluster.Change`, `Cluster.changed`: everything that adds to a cluster or updates it, one after the other.
* `Cluster.Filed`: an index with documents of which the members that a field is read from were checked.
* `Cluster.conforming`: when the values of a field are of its type. -/

namespace LinkedSearch

open Schema (FieldType Mapping)

/-! ## Accepted values -/

namespace Schema.FieldType

variable {type : FieldType}

/-- A list is accepted if its items are, unless the type is that of nested objects. -/
theorem accepts_cons {item : Json} {rest : List Json} :
    type.validateItems (item :: rest) = .ok () ↔ type.Accepts item ∧ type.validateItems rest = .ok () := by
  rw [validateItems, Accepts]
  cases type.validate item <;> simp [bind, Except.bind]

/-- Objects are accepted as nested objects only. -/
theorem not_accepts_obj (h : type ≠ .nested) (members : List (String × Json)) : ¬type.Accepts (.obj members) := by
  cases type <;> simp_all [Accepts, validate, validateItem]

theorem nested_accepts_obj (members : List (String × Json)) : nested.Accepts (.obj members) := by
  simp [Accepts, validate, validateItem]

mutual

/-- **An accepted value** holds scalars of the type only. -/
theorem Accepts.scalars (h : type ≠ .nested) : (value : Json) → type.Accepts value →
    ∀ scalar ∈ value.scalars, type.Accepts scalar
  | .null, _ => by simp [Json.scalars]
  | .bool _, haccepts | .int _, haccepts | .float _, haccepts | .str _, haccepts | .obj _, haccepts => by
    simpa [Json.scalars] using haccepts
  | .arr items, haccepts => by
    rw [Accepts, validate, if_neg h] at haccepts
    rw [Json.scalars]
    exact Accepts.scalarsOfItems h items haccepts

/-- So do the items of an accepted list. -/
theorem Accepts.scalarsOfItems (h : type ≠ .nested) : (items : List Json) → type.validateItems items = .ok () →
    ∀ scalar ∈ Json.scalarsOfItems items, type.Accepts scalar
  | [], _ => by simp [Json.scalarsOfItems]
  | item :: rest, haccepts => by
    obtain ⟨hitem, hrest⟩ := accepts_cons.mp haccepts
    intro scalar hscalar
    rw [Json.scalarsOfItems, List.mem_append] at hscalar
    rcases hscalar with hscalar | hscalar
    · exact Accepts.scalars h item hitem scalar hscalar
    · exact Accepts.scalarsOfItems h rest hrest scalar hscalar

end

mutual

/-- **No path leads into an accepted value**, since it holds no objects. -/
theorem Accepts.valuesAlong (h : type ≠ .nested) : (value : Json) → type.Accepts value →
    ∀ path, value.valuesAlong path = []
  | .null, _ | .bool _, _ | .int _, _ | .float _, _ | .str _, _ => by simp [Json.valuesAlong]
  | .obj members, haccepts => absurd haccepts (not_accepts_obj h members)
  | .arr items, haccepts => by
    rw [Accepts, validate, if_neg h] at haccepts
    intro path
    rw [Json.valuesAlong]
    exact Accepts.valuesOfItems h items haccepts path

/-- Nor into the items of an accepted list. -/
theorem Accepts.valuesOfItems (h : type ≠ .nested) : (items : List Json) → type.validateItems items = .ok () →
    ∀ path, Json.valuesOfItems items path = []
  | [], _ => by simp [Json.valuesOfItems]
  | item :: rest, haccepts => by
    obtain ⟨hitem, hrest⟩ := accepts_cons.mp haccepts
    intro path
    rw [Json.valuesOfItems, Accepts.valuesAlong h item hitem, Accepts.valuesOfItems h rest hrest, List.append_nil]

end

end Schema.FieldType

/-! ## Values of a field -/

/-- A text without the separator is one piece. -/
theorem splitAll_of_not_mem {separator : Char} {text : List Char} (h : separator ∉ text) :
    splitAll separator text = [text] := by
  induction text with
  | nil => rfl
  | cons c rest ih =>
    have hc : c ≠ separator := fun heq => h (heq ▸ List.mem_cons_self)
    rw [splitAll, if_neg hc, ih fun hmem => h (List.mem_cons_of_mem c hmem)]

theorem splitAll_ne_nil (separator : Char) (text : List Char) : splitAll separator text ≠ [] := by
  cases text with
  | nil => simp [splitAll]
  | cons c rest =>
    rw [splitAll]
    split
    · simp
    · split <;> simp

/-- A text of one piece is that piece. -/
theorem eq_of_splitAll {separator : Char} {text piece : List Char} (h : splitAll separator text = [piece]) :
    piece = text := by
  induction text generalizing piece with
  | nil => exact (List.singleton_inj.mp h).symm
  | cons c rest ih =>
    rw [splitAll] at h
    split at h
    · exact absurd (List.cons.inj h).2 (splitAll_ne_nil separator rest)
    · split at h
      · next hnil => exact absurd hnil (splitAll_ne_nil separator rest)
      · next first pieces hpieces =>
        obtain ⟨rfl, rfl⟩ := List.cons.inj h
        rw [ih hpieces]

namespace Document

/-- The name of the member that the path of a field leads into. -/
def outermost (field : String) : String := (pathOf field).headD ""

theorem pathOf_eq (field : String) : pathOf field = outermost field :: (pathOf field).tail := by
  unfold outermost
  cases hpath : pathOf field with
  | nil => exact absurd (List.map_eq_nil_iff.mp hpath) (splitAll_ne_nil '.' field.toList)
  | cons head rest => rfl

/-- A path without dots is the field itself. -/
theorem pathOf_of_undotted {field : String} (h : '.' ∉ field.toList) : pathOf field = [field] := by
  rw [pathOf, splitAll_of_not_mem h, List.map_singleton, String.ofList_toList]

/-- A path of one name is the field itself. -/
theorem outermost_of_tail {field : String} (h : (pathOf field).tail = []) : outermost field = field := by
  have hpath := pathOf_eq field
  rw [h] at hpath
  obtain ⟨piece, hsplit, hpiece⟩ := List.map_eq_singleton_iff.mp hpath
  rw [← hpiece, eq_of_splitAll hsplit, String.ofList_toList]

/-- The members that a field may be read from. -/
def Reads (field name : String) : Prop := name = field ∨ name = outermost field

/-- Values along a path start in the member of its first name. -/
theorem valuesOfMember_eq (members : List (String × Json)) (head : String) (rest : List String) :
    Json.valuesOfMember members head rest =
      ((Keyed.find? head members).map fun value =>
        if rest = [] then value.scalars else value.valuesAlong rest).getD [] := by
  induction members with
  | nil => simp [Json.valuesOfMember]
  | cons entry others ih =>
    obtain ⟨key, value⟩ := entry
    rw [Json.valuesOfMember.eq_def, Keyed.find?_cons]
    simp only
    split
    · cases rest <;> simp
    · exact ih

/-- **Values of a field** of an object: those of the member of its full name, or else those along its path in the
outermost member. -/
theorem values_obj (members : List (String × Json)) (field : String) :
    values (.obj members) field = match Keyed.find? field members with
      | some value => value.scalars
      | none => ((Keyed.find? (outermost field) members).map fun value =>
          if (pathOf field).tail = [] then value.scalars else value.valuesAlong (pathOf field).tail).getD [] := by
  rw [values, Json.get?_obj]
  cases Keyed.find? field members with
  | some value => rfl
  | none =>
    simp only
    rw [pathOf_eq, Json.valuesAlong, valuesOfMember_eq]
    rfl

end Document

open Document (Reads outermost)

namespace Schema.Mapping

variable {mapping : Mapping} {field : String} {members : List (String × Json)} {type : FieldType}

/-- **The check covers a field**: it has no dots, or its path leads into a member that can hold no objects. -/
def Guards (mapping : Mapping) (field : String) : Prop :=
  '.' ∉ field.toList ∨ ∃ type, mapping.type? (outermost field) = some type ∧ type ≠ .nested

/-- **Checked members**: those that a field may be read from have values that the mapping accepts. -/
def Checked (mapping : Mapping) (field : String) (members : List (String × Json)) : Prop :=
  ∀ name value, (name, value) ∈ members → Reads field name → Cluster.validateMember mapping name value = .ok ()

/-- A checked member that the mapping knows has a value of its type. -/
theorem Checked.accepts_member (h : mapping.Checked field members) {name : String} {value : Json}
    (htype : mapping.type? name = some type) (hfind : Keyed.find? name members = some value)
    (hreads : Reads field name) : type.Accepts value := by
  have hmember := h name value (Keyed.mem_of_find? hfind) hreads
  rw [Cluster.validateMember, htype] at hmember
  exact hmember

/-- **A document with checked members** has values of the type in a field that the check covers. -/
theorem Checked.accepts (h : mapping.Checked field members) (htype : mapping.type? field = some type)
    (hnested : type ≠ .nested) (hguards : mapping.Guards field) :
    ∀ value ∈ Document.values (.obj members) field, type.Accepts value := by
  rw [Document.values_obj]
  cases hfind : Keyed.find? field members with
  | some found => exact (h.accepts_member htype hfind (.inl rfl)).scalars hnested found
  | none =>
    intro value hvalue
    -- there is nothing to be read: the outermost member is the field itself, or it holds no objects
    rcases hguards with hdotted | ⟨outer, houter, hnested'⟩
    · have houtermost : outermost field = field := by rw [outermost, Document.pathOf_of_undotted hdotted]; rfl
      simp [houtermost, hfind] at hvalue
    · cases hmember : Keyed.find? (outermost field) members with
      | none => simp [hmember] at hvalue
      | some found =>
        have haccepts := h.accepts_member houter hmember (.inr rfl)
        by_cases htail : (pathOf field).tail = []
        · rw [Document.outermost_of_tail htail, hfind] at hmember
          exact absurd hmember (by simp)
        · simp [hmember, htail, haccepts.valuesAlong hnested' found] at hvalue

end Schema.Mapping

/-! ## Changes -/

namespace Cluster

/-- **A change** of a cluster: an index or documents more, or an update of a document. -/
inductive Change where
  | addIndex (mapping : Mapping)
  | addDocument (index : String) (document : Json)
  | addDocuments (index : String) (documents : List Json)
  | updateDocument (index : String) (key patch : Json)

/-- The index that a change adds. -/
def Change.added? : Change → Option String
  | .addIndex mapping => some mapping.index
  | .addDocument .. | .addDocuments .. | .updateDocument .. => none

/-- Whether an update puts only such values into the members that a field may be read from as the mapping accepts. -/
def Change.Respects (mapping : Mapping) (field : String) : Change → Prop
  | .updateDocument index _ (.obj members) => index = mapping.index → mapping.Checked field members
  | _ => True

/-- The cluster after a change; what fails leaves no trace but the documents before the one that was refused. -/
def change (cluster : Cluster) : Change → Cluster
  | .addIndex mapping => cluster.addIndex mapping
  | .addDocument index document => (cluster.addDocument index document).toOption.getD cluster
  | .addDocuments index documents => (cluster.addDocuments index documents).2
  | .updateDocument index key patch => (cluster.updateDocument index key patch).toOption.getD cluster

/-- **History**: the cluster after some changes. -/
def changed (changes : List Change) (cluster : Cluster) : Cluster := changes.foldl change cluster

/-- **Conformity** of a field: all of its values in the documents of an index are of its type. -/
def Conforms (cluster : Cluster) (index field : String) (type : FieldType) : Prop :=
  ∀ document ∈ cluster.documentsOf index, ∀ value ∈ Document.values document field, type.Accepts value

variable {cluster cluster' : Cluster} {mapping : Mapping} {index field : String} {document key patch : Json}

/-- What a change of the documents of one index leaves. -/
structure Writes (index : String) (documents : List Json) (cluster cluster' : Cluster) : Prop where
  mappings_eq : cluster'.mappings = cluster.mappings
  find?_documents : ∀ other, Keyed.find? other cluster'.documents =
    if index = other then some documents else Keyed.find? other cluster.documents

theorem Writes.documentsOf_eq {documents : List Json} (h : Writes index documents cluster cluster') (other : String) :
    cluster'.documentsOf other = if index = other then documents else cluster.documentsOf other := by
  rw [documentsOf, h.find?_documents]
  split <;> rfl

/-- A document that was added is a valid object. -/
theorem addDocument_ok (h : cluster.addDocument index document = .ok cluster') :
    ∃ mapping members, cluster.mapping index = .ok mapping ∧ document = .obj members ∧
      validate mapping index members = .ok () ∧
      Writes index (cluster.documentsOf index ++ [document]) cluster cluster' := by
  unfold addDocument at h
  cases hmapping : cluster.mapping index with
  | error error =>
    rw [hmapping] at h
    exact absurd h (by simp [bind, Except.bind])
  | ok mapping =>
    rw [hmapping] at h
    cases document with
    | obj members =>
      cases hvalid : validate mapping index members with
      | error error =>
        simp only [bind, Except.bind, hvalid] at h
        exact absurd h (by simp)
      | ok _ =>
        simp only [bind, Except.bind, hvalid] at h
        obtain rfl := Except.ok.inj h
        exact ⟨mapping, members, rfl, rfl, hvalid, rfl, fun other => Keyed.find?_insert _ other _ _⟩
    | _ => exact absurd h (by simp [bind, Except.bind])

/-- An update patches one of the documents. -/
theorem updateDocument_ok (h : cluster.updateDocument index key patch = .ok cluster') :
    ∃ mapping documents, cluster.mapping index = .ok mapping ∧
      patchFirst? mapping.primaryKey key patch (cluster.documentsOf index) = some documents ∧
      Writes index documents cluster cluster' := by
  unfold updateDocument at h
  cases hmapping : cluster.mapping index with
  | error error =>
    rw [hmapping] at h
    exact absurd h (by simp [bind, Except.bind])
  | ok mapping =>
    simp only [hmapping, bind, Except.bind] at h
    split at h
    · next documents hpatched =>
      obtain rfl := Except.ok.inj h
      exact ⟨mapping, documents, rfl, hpatched, rfl, fun other => Keyed.find?_insert _ other _ _⟩
    · exact absurd h (by simp)

/-- Every document after an update was there before, or is a patched one. -/
theorem mem_of_patchFirst? {primaryKey : String} {documents patchedDocuments : List Json}
    (h : patchFirst? primaryKey key patch documents = some patchedDocuments) :
    ∀ after ∈ patchedDocuments, after ∈ documents ∨ ∃ before ∈ documents, after = patched before patch := by
  induction documents generalizing patchedDocuments with
  | nil => exact absurd h (by simp [patchFirst?])
  | cons first rest ih =>
    rw [patchFirst?] at h
    split at h
    · obtain rfl := Option.some.inj h
      intro after hafter
      rcases List.mem_cons.mp hafter with rfl | hrest
      · exact .inr ⟨first, List.mem_cons_self, rfl⟩
      · exact .inl (List.mem_cons_of_mem _ hrest)
    · obtain ⟨others, hothers, rfl⟩ := Option.map_eq_some_iff.mp h
      intro after hafter
      rcases List.mem_cons.mp hafter with rfl | hrest
      · exact .inl List.mem_cons_self
      · rcases ih hothers after hrest with hkept | ⟨before, hbefore, heq⟩
        · exact .inl (List.mem_cons_of_mem _ hkept)
        · exact .inr ⟨before, List.mem_cons_of_mem _ hbefore, heq⟩

/-- Every member of a valid document is valid. -/
theorem validateMember_of_validate {members : List (String × Json)} (h : validate mapping index members = .ok ()) :
    ∀ name value, (name, value) ∈ members → validateMember mapping name value = .ok () := by
  induction members with
  | nil => exact fun name value hmem => absurd hmem List.not_mem_nil
  | cons entry rest ih =>
    obtain ⟨name, value⟩ := entry
    rw [validate] at h
    cases hmember : validateMember mapping name value with
    | error problem =>
      rw [hmember] at h
      exact absurd h (by simp)
    | ok _ =>
      rw [hmember] at h
      intro name' value' hmem
      rcases List.mem_cons.mp hmem with heq | hrest
      · cases heq
        exact hmember
      · exact ih h name' value' hrest

/-- **What every change keeps**: a property that additions of documents keep, and that the change keeps if it adds an
index or updates a document. -/
theorem change_keeps {P : Cluster → Prop} {change : Change} (h : P cluster)
    (hindex : ∀ mapping, change = .addIndex mapping → P (cluster.addIndex mapping))
    (hadd : ∀ index document before after, P before → addDocument index document before = .ok after → P after)
    (hupdate : ∀ index key patch after, change = .updateDocument index key patch →
      cluster.updateDocument index key patch = .ok after → P after) : P (cluster.change change) := by
  cases change with
  | addIndex mapping => exact hindex mapping rfl
  | addDocument index document =>
    rw [Cluster.change]
    cases hadded : cluster.addDocument index document with
    | error error => exact h
    | ok after => exact hadd index document cluster after h hadded
  | addDocuments index documents =>
    rw [Cluster.change]
    -- the documents before the one that is refused are added one by one
    induction documents generalizing cluster with
    | nil => exact h
    | cons document rest ih =>
      rw [addDocuments]
      split
      · next after hadded =>
        refine ih (hadd index document cluster after h hadded) (fun _ heq => absurd heq (by simp)) ?_
        exact fun _ _ _ _ heq => absurd heq (by simp)
      · exact h
  | updateDocument index key patch =>
    rw [Cluster.change]
    cases hupdated : cluster.updateDocument index key patch with
    | error error => exact h
    | ok after => exact hupdate index key patch after rfl hupdated

/-! ## Indexes that were added -/

/-- An index that is not there. -/
structure Absent (index : String) (cluster : Cluster) : Prop where
  unmapped : Keyed.find? index cluster.mappings = none
  undocumented : Keyed.find? index cluster.documents = none

/-- **An index that was added**, with its mapping and with documents of which the members that a field may be read
from were checked. -/
structure Filed (mapping : Mapping) (field : String) (cluster : Cluster) : Prop where
  mapping_eq : Keyed.find? mapping.index cluster.mappings = some mapping
  checked : ∀ document ∈ cluster.documentsOf mapping.index, ∃ members, document = .obj members ∧
    mapping.Checked field members

theorem mapping_eq_ok : cluster.mapping index = .ok mapping ↔ Keyed.find? index cluster.mappings = some mapping := by
  unfold Cluster.mapping
  cases Keyed.find? index cluster.mappings <;> simp

namespace Absent

/-- Documents are added and updated in other indexes. -/
theorem writes (h : Absent index cluster) {other : String} {documents : List Json}
    (hmapping : cluster.mapping other = .ok mapping) (hwrites : Writes other documents cluster cluster') :
    Absent index cluster' := by
  have hne : other ≠ index := by
    rintro rfl
    rw [mapping_eq_ok, h.unmapped] at hmapping
    exact absurd hmapping (by simp)
  refine ⟨by rw [hwrites.mappings_eq, h.unmapped], ?_⟩
  rw [hwrites.find?_documents, if_neg hne, h.undocumented]

/-- **An index is absent** until it is added. -/
theorem change (h : Absent index cluster) {change : Change} (hadded : change.added? ≠ some index) :
    Absent index (cluster.change change) := by
  refine change_keeps h (fun mapping heq => ?_) (fun other document before after hbefore hok => ?_)
    fun other key patch after _ hok => ?_
  · have hne : mapping.index ≠ index := fun hindex => hadded (by rw [heq, Change.added?, hindex])
    exact ⟨(Keyed.find?_insert_of_ne hne _ _).trans h.unmapped, (Keyed.find?_insert_of_ne hne _ _).trans h.undocumented⟩
  · obtain ⟨_, _, hmapping, -, -, hwrites⟩ := addDocument_ok hok
    exact hbefore.writes hmapping hwrites
  · obtain ⟨_, _, hmapping, -, hwrites⟩ := updateDocument_ok hok
    exact h.writes hmapping hwrites

/-- An index that is added has no documents. -/
theorem filed (h : Absent mapping.index cluster) (field : String) : Filed mapping field (cluster.addIndex mapping) := by
  refine ⟨Keyed.find?_insert_self _ _ _, fun document hdocument => ?_⟩
  have hnone : (cluster.addIndex mapping).documentsOf mapping.index = [] := by
    rw [documentsOf, addIndex, Keyed.alter, Keyed.find?_insert_self, h.undocumented]
    rfl
  rw [hnone] at hdocument
  exact absurd hdocument List.not_mem_nil

end Absent

namespace Filed

/-- Documents that are written after a check of theirs leave the index filed. -/
theorem writes (h : Filed mapping field cluster) {documents : List Json}
    (hwrites : Writes index documents cluster cluster')
    (hchecked : index = mapping.index → ∀ document ∈ documents, ∃ members, document = .obj members ∧
      mapping.Checked field members) : Filed mapping field cluster' := by
  refine ⟨by rw [hwrites.mappings_eq, h.mapping_eq], fun document hdocument => ?_⟩
  rw [hwrites.documentsOf_eq] at hdocument
  split at hdocument
  · next heq => exact hchecked heq document hdocument
  · exact h.checked document hdocument

/-- The mapping of the index is the one that it was added with. -/
theorem eq_of_mapping {other : Mapping} (h : Filed mapping field cluster) (hmapping : cluster.mapping index = .ok other)
    (hindex : index = mapping.index) : other = mapping := by
  rw [mapping_eq_ok, hindex, h.mapping_eq] at hmapping
  exact (Option.some.inj hmapping).symm

/-- A document that is added was checked. -/
theorem addDocument (h : Filed mapping field cluster) (hok : cluster.addDocument index document = .ok cluster') :
    Filed mapping field cluster' := by
  obtain ⟨other, members, hmapping, rfl, hvalid, hwrites⟩ := addDocument_ok hok
  refine h.writes hwrites fun hindex document hdocument => ?_
  obtain rfl := h.eq_of_mapping hmapping hindex
  rcases List.mem_append.mp hdocument with hold | hnew
  · exact h.checked document (hindex ▸ hold)
  · rw [List.mem_singleton] at hnew
    exact ⟨members, hnew, fun name value hmem _ => validateMember_of_validate hvalid name value hmem⟩

/-- A document that is updated was checked if the patch was. -/
theorem updateDocument (h : Filed mapping field cluster) (hok : cluster.updateDocument index key patch = .ok cluster')
    (hrespects : (Change.updateDocument index key patch).Respects mapping field) : Filed mapping field cluster' := by
  obtain ⟨other, documents, hmapping, hpatched, hwrites⟩ := updateDocument_ok hok
  refine h.writes hwrites fun hindex after hafter => ?_
  rcases mem_of_patchFirst? hpatched after hafter with hkept | ⟨before, hbefore, rfl⟩
  · exact h.checked after (hindex ▸ hkept)
  · obtain ⟨members, rfl, hmembers⟩ := h.checked before (hindex ▸ hbefore)
    cases patch with
    | obj changes =>
      -- every member comes from the document or from the patch
      refine ⟨Keyed.extend members changes, rfl, fun name value hmem hreads => ?_⟩
      rcases Keyed.mem_of_mem_extend hmem with hmem | hmem
      · exact hmembers name value hmem hreads
      · exact hrespects hindex name value hmem hreads
    | _ => exact ⟨members, rfl, hmembers⟩

/-- **An index stays filed** as long as it is not added again and every update respects its mapping. -/
theorem change (h : Filed mapping field cluster) {change : Change} (hadded : change.added? ≠ some mapping.index)
    (hrespects : change.Respects mapping field) : Filed mapping field (cluster.change change) := by
  refine change_keeps h (fun other heq => ?_) (fun index document before after hbefore hok => hbefore.addDocument hok)
    fun index key patch after heq hok => h.updateDocument hok (heq ▸ hrespects)
  have hne : other.index ≠ mapping.index := fun hindex => hadded (by rw [heq, Change.added?, hindex])
  refine ⟨(Keyed.find?_insert_of_ne hne _ _).trans h.mapping_eq, fun document hdocument => h.checked document ?_⟩
  rw [documentsOf, addIndex, Keyed.alter, Keyed.find?_insert_of_ne hne] at hdocument
  exact hdocument

end Filed

/-! ## Histories -/

/-- Each index is added once. -/
def AddedOnce (history : List Change) : Prop := (history.filterMap Change.added?).Nodup

instance (history : List Change) : Decidable (AddedOnce history) :=
  inferInstanceAs (Decidable (history.filterMap Change.added?).Nodup)

theorem added?_ne {history : List Change} (h : index ∉ history.filterMap Change.added?) :
    ∀ change ∈ history, change.added? ≠ some index :=
  fun change hchange hadded => h (List.mem_filterMap.mpr ⟨change, hchange, hadded⟩)

theorem Absent.changed {history : List Change} (h : Absent index cluster)
    (hadded : ∀ change ∈ history, change.added? ≠ some index) : Absent index (changed history cluster) := by
  induction history generalizing cluster with
  | nil => exact h
  | cons change rest ih =>
    exact ih (h.change (hadded change List.mem_cons_self)) fun change hchange =>
      hadded change (List.mem_cons_of_mem _ hchange)

theorem Filed.changed {history : List Change} (h : Filed mapping field cluster)
    (hadded : ∀ change ∈ history, change.added? ≠ some mapping.index)
    (hrespects : ∀ change ∈ history, change.Respects mapping field) : Filed mapping field (changed history cluster) := by
  induction history generalizing cluster with
  | nil => exact h
  | cons change rest ih =>
    refine ih (h.change (hadded change List.mem_cons_self) (hrespects change List.mem_cons_self)) ?_ ?_
    · exact fun change hchange => hadded change (List.mem_cons_of_mem _ hchange)
    · exact fun change hchange => hrespects change (List.mem_cons_of_mem _ hchange)

/-- **An index is filed** after every history that adds it once and whose updates respect its mapping. -/
theorem filed_changed {history : List Change} (honce : AddedOnce history) (hadded : .addIndex mapping ∈ history)
    (hrespects : ∀ change ∈ history, change.Respects mapping field) : Filed mapping field (changed history empty) := by
  -- the index is absent before it is added, and is not added again
  obtain ⟨before, after, rfl⟩ := List.append_of_mem hadded
  have hfilter : (before ++ .addIndex mapping :: after).filterMap Change.added? =
      before.filterMap Change.added? ++ mapping.index :: after.filterMap Change.added? := by
    rw [List.filterMap_append, List.filterMap_cons]
    rfl
  rw [AddedOnce, hfilter] at honce
  obtain ⟨-, htail, hdisjoint⟩ := List.nodup_append.mp honce
  have hbefore : mapping.index ∉ before.filterMap Change.added? := fun hin =>
    hdisjoint mapping.index hin mapping.index List.mem_cons_self rfl
  have habsent : Absent mapping.index (changed before empty) := Absent.changed ⟨rfl, rfl⟩ (added?_ne hbefore)
  have hfiled : Filed mapping field (changed (before ++ [.addIndex mapping]) empty) := by
    rw [changed, List.foldl_append]
    exact habsent.filed field
  rw [List.append_cons, changed, List.foldl_append]
  refine hfiled.changed (added?_ne (List.nodup_cons.mp htail).1) fun change hchange => hrespects change ?_
  exact List.mem_append_right _ (List.mem_cons_of_mem _ hchange)

/-! ## What is not checked -/

/-- The cluster of one index with one document. -/
def single (mapping : Mapping) (document : Json) : Cluster :=
  changed [.addIndex mapping, .addDocument mapping.index document] empty

/-- A valid document is the only one. -/
theorem single_spec {members : List (String × Json)} (hvalid : validate mapping mapping.index members = .ok ()) :
    (single mapping (.obj members)).mapping mapping.index = .ok mapping ∧
      (single mapping (.obj members)).documentsOf mapping.index = [.obj members] := by
  have hmapping : (empty.addIndex mapping).mapping mapping.index = .ok mapping :=
    mapping_eq_ok.mpr (Keyed.find?_insert_self _ _ _)
  have hok : (empty.addIndex mapping).addDocument mapping.index (.obj members) = .ok (single mapping (.obj members)) := by
    have hadded : ∃ after, (empty.addIndex mapping).addDocument mapping.index (.obj members) = .ok after := by
      unfold addDocument
      rw [hmapping]
      simp only [bind, Except.bind, hvalid]
      exact ⟨_, rfl⟩
    obtain ⟨after, hafter⟩ := hadded
    rw [hafter]
    show _ = Except.ok (((empty.addIndex mapping).addDocument mapping.index (.obj members)).toOption.getD _)
    rw [hafter]
    rfl
  obtain ⟨_, _, _, -, -, hwrites⟩ := addDocument_ok hok
  refine ⟨?_, ?_⟩
  · rw [mapping_eq_ok, hwrites.mappings_eq]
    exact mapping_eq_ok.mp hmapping
  · rw [hwrites.documentsOf_eq, if_pos rfl, documentsOf, addIndex, Keyed.alter, Keyed.find?_insert_self]
    rfl

/-- An empty object under a path through objects. -/
def emptyAt : List String → List (String × Json)
  | [] => []
  | name :: rest => [(name, .obj (emptyAt rest))]

/-- The empty object is the value along the path. -/
theorem valuesAlong_emptyAt (name : String) (rest : List String) :
    (Json.obj (emptyAt (name :: rest))).valuesAlong (name :: rest) = [.obj []] := by
  induction rest generalizing name with
  | nil => simp [emptyAt, Json.valuesAlong, Document.valuesOfMember_eq, Json.scalars]
  | cons next rest ih =>
    rw [emptyAt, Json.valuesAlong, Document.valuesOfMember_eq, Keyed.find?_cons, if_pos rfl]
    simpa using ih next

/-- A field is read as an object in the document of its path. -/
theorem values_emptyAt (field : String) :
    ∃ members, Document.values (.obj (emptyAt (pathOf field))) field = [.obj members] := by
  rw [Document.values, Json.get?_obj, Document.pathOf_eq]
  cases hfind : Keyed.find? field (emptyAt (outermost field :: (pathOf field).tail)) with
  | none => exact ⟨[], valuesAlong_emptyAt _ _⟩
  | some value =>
    rw [emptyAt, Keyed.find?_cons] at hfind
    split at hfind
    · obtain rfl := Option.some.inj hfind
      exact ⟨emptyAt (pathOf field).tail, by simp [Json.scalars]⟩
    · exact absurd hfind (by simp)

/-- **Additions** may put an object into a field that the check does not cover. -/
theorem not_conforms_of_added {type : FieldType} (hnested : type ≠ .nested) (hguards : ¬mapping.Guards field) :
    ¬(single mapping (.obj (emptyAt (pathOf field)))).Conforms mapping.index field type := by
  have hmember : validateMember mapping (outermost field) (.obj (emptyAt (pathOf field).tail)) = .ok () := by
    unfold validateMember
    cases htype : mapping.type? (outermost field) with
    | none => rfl
    | some outer =>
      have houter : outer = .nested := Decidable.byContradiction fun hother => hguards (.inr ⟨outer, htype, hother⟩)
      rw [houter]
      exact FieldType.nested_accepts_obj _
  have hvalid : validate mapping mapping.index (emptyAt (pathOf field)) = .ok () := by
    rw [Document.pathOf_eq, emptyAt, validate, hmember]
    rfl
  intro hconforms
  obtain ⟨members, hvalues⟩ := values_emptyAt field
  have hdocument : .obj (emptyAt (pathOf field)) ∈
      (single mapping (.obj (emptyAt (pathOf field)))).documentsOf mapping.index := by
    rw [(single_spec hvalid).2]
    exact List.mem_singleton_self _
  refine FieldType.not_accepts_obj hnested members (hconforms _ hdocument _ ?_)
  rw [hvalues]
  exact List.mem_singleton_self _

/-- **Updates** may put an object into any field. -/
theorem not_conforms_of_updated {type : FieldType} (hnested : type ≠ .nested) :
    ¬((single mapping (.obj [(mapping.primaryKey, .null)])).change
      (.updateDocument mapping.index .null (.obj [(field, .obj [])]))).Conforms mapping.index field type := by
  have hvalid : validate mapping mapping.index [(mapping.primaryKey, .null)] = .ok () := by
    have hmember : validateMember mapping mapping.primaryKey .null = .ok () := by
      unfold validateMember
      split
      · exact FieldType.accepts_null _
      · rfl
    rw [validate, hmember]
    rfl
  obtain ⟨hmapping, hdocuments⟩ := single_spec hvalid
  have hpatched : patchFirst? mapping.primaryKey .null (.obj [(field, .obj [])])
      ((single mapping (.obj [(mapping.primaryKey, .null)])).documentsOf mapping.index) =
        some [patched (.obj [(mapping.primaryKey, .null)]) (.obj [(field, .obj [])])] := by
    rw [hdocuments, patchFirst?]
    simp [hasKey, Json.same]
  have hupdated : ∃ after, (single mapping (.obj [(mapping.primaryKey, .null)])).updateDocument mapping.index .null
      (.obj [(field, .obj [])]) = .ok after := by
    unfold updateDocument
    unfold documentsOf at hpatched
    simp only [hmapping, bind, Except.bind, hpatched]
    exact ⟨_, rfl⟩
  obtain ⟨after, hafter⟩ := hupdated
  obtain ⟨other, documents, hother, hdocuments', hwrites⟩ := updateDocument_ok hafter
  obtain rfl : other = mapping := Except.ok.inj (hother.symm.trans hmapping)
  obtain rfl := Option.some.inj (hdocuments'.symm.trans hpatched)
  have hlast : patched (.obj [(other.primaryKey, .null)]) (.obj [(field, .obj [])]) ∈
      after.documentsOf other.index := by
    rw [hwrites.documentsOf_eq, if_pos rfl]
    exact List.mem_singleton_self _
  rw [Cluster.change, hafter]
  intro hconforms
  refine FieldType.not_accepts_obj hnested [] (hconforms _ hlast _ ?_)
  rw [patched, Keyed.extend_cons, Keyed.extend_nil, Document.values, Json.get?_obj, Keyed.find?_insert_self]
  simp [Json.scalars]

/-- **Stored documents conform to their mapping** in a field of a type other than nested objects if the check of the
documents covers the field and every update respects the mapping in the members that the field may be read from:
after every history of additions and updates, whatever their outcomes, in which each index is added once. Both
conditions are needed, for every mapping and every field: additions alone put objects into any field that the check
does not cover, and an update puts them into any field whatsoever. -/
theorem conforming {type : FieldType} (htype : mapping.type? field = some type) (hnested : type ≠ .nested) :
    (mapping.Guards field → ∀ history, AddedOnce history → .addIndex mapping ∈ history →
      (∀ change ∈ history, change.Respects mapping field) →
        (changed history empty).Conforms mapping.index field type) ∧
      (¬mapping.Guards field → ∃ document, ¬(changed [.addIndex mapping, .addDocument mapping.index document]
        empty).Conforms mapping.index field type) ∧
      ∃ document patch, ¬(changed [.addIndex mapping, .addDocument mapping.index document,
        .updateDocument mapping.index .null patch] empty).Conforms mapping.index field type := by
  refine ⟨fun hguards history honce hadded hrespects document hdocument => ?_, fun hguards => ?_, ?_⟩
  · obtain ⟨members, rfl, hchecked⟩ := (filed_changed honce hadded hrespects).checked document hdocument
    exact hchecked.accepts htype hnested hguards
  · exact ⟨_, not_conforms_of_added hnested hguards⟩
  · exact ⟨_, _, not_conforms_of_updated hnested⟩

/-- Books with a title, and with an author of whom the name is mapped. -/
def books : Mapping :=
  ((Mapping.keyed "books" "id").withField "title" { type := .plainText }).withField "author.name"
    { type := .keyword none }

/-- A book that is added, another one that is refused, and an update of the first one. -/
def bookHistory (title : Json) : List Change :=
  [.addIndex books, .addDocument "books" (.obj [("id", .int 1), ("title", .str "x")]),
    .addDocuments "books" [.obj [("id", .int 2), ("title", .int 2)]],
    .updateDocument "books" (.int 1) (.obj [("title", title)])]

/-- The title of the book is a text after an update with a text. -/
theorem conforming_bookHistory :
    (changed (bookHistory (.str "y")) empty).documentsOf "books" = [.obj [("id", .int 1), ("title", .str "y")]] ∧
      (changed (bookHistory (.str "y")) empty).Conforms "books" "title" .plainText := by
  have htype : books.type? "title" = some .plainText := by decide +kernel
  have hguards : books.Guards "title" := .inl (by decide)
  have hrespects : ∀ change ∈ bookHistory (.str "y"), change.Respects books "title" := by
    intro change hchange
    simp only [bookHistory, List.mem_cons, List.not_mem_nil, or_false] at hchange
    rcases hchange with rfl | rfl | rfl | rfl
    · trivial
    · trivial
    · trivial
    · intro _ name value hmem _
      cases List.mem_singleton.mp hmem
      rfl
  refine ⟨by decide +kernel, ?_⟩
  exact (conforming htype (by decide)).1 hguards (bookHistory (.str "y")) (by decide +kernel) List.mem_cons_self
    hrespects

/-- **An update with a number** makes it the title of the book. A number becomes the name of an author as well, since
it stands in a member that the mapping does not know. -/
theorem not_conforming_bookHistory :
    books.type? "title" = some .plainText ∧ AddedOnce (bookHistory (.int 5)) ∧
      (changed (bookHistory (.int 5)) empty).documentsOf "books" = [.obj [("id", .int 1), ("title", .int 5)]] ∧
      ¬(changed (bookHistory (.int 5)) empty).Conforms "books" "title" .plainText ∧
      books.type? "author.name" = some (.keyword none) ∧
      ¬(changed [.addIndex books, .addDocument "books" (.obj [("author", .obj [("name", .int 5)])])] empty).Conforms
        "books" "author.name" (.keyword none) := by
  refine ⟨by decide +kernel, by decide +kernel, by decide +kernel, fun hconforms => ?_, by decide +kernel,
    fun hconforms => ?_⟩
  · have haccepts := hconforms (.obj [("id", .int 1), ("title", .int 5)]) (by decide +kernel) (.int 5) (by decide +kernel)
    exact absurd haccepts (by decide +kernel)
  · have haccepts := hconforms (.obj [("author", .obj [("name", .int 5)])]) (by decide +kernel) (.int 5)
      (by decide +kernel)
    exact absurd haccepts (by decide +kernel)

end Cluster

end LinkedSearch
