import LinkedSearch.Compiler
import LinkedSearch.Proofs.Arena.Reading
import LinkedSearch.Proofs.Evolution

/-! # The state a compiler starts from

Starting a compiler inserts the query of its request into an empty arena, fetches the mappings of all
linked indexes, and assigns the fields of the query to the indexes.

* `Draft.Fresh`, `draft_fresh`: the draft of a request holds its query, and nothing else.
* `Metadata.start_spec`: the metadata of a request before its fields are assigned.
* `Setup.Started`, `started_of_ok`: the compiler that a successful start gives. -/

namespace LinkedSearch

open Query (Arena Draft NodeId Request Tree)
open Schema (Mapping)

/-! ## The draft -/

namespace Query

/-- **A fresh draft** holds the query at its root, and nothing else. -/
structure Draft.Fresh (request : Request) (draft : Draft) : Prop where
  ascending : draft.arena.Ascending
  arrayData_eq : draft.arrayData = request.arrayData
  rootless : request.query = none → draft.root = none ∧ draft.arena = Arena.empty
  rooted : ∀ tree, request.query = some tree → ∃ root, draft.root = some root ∧
    Arena.Inserted Arena.empty draft.arena root tree ∧ draft.arena.labels = tree.preorder

/-- The draft of a request is fresh. -/
theorem Request.draft_fresh (request : Request) : request.draft.Fresh request := by
  have hinsert := fun tree => Arena.insert_spec tree Arena.empty Arena.Ascending.empty
  cases hquery : request.query with
  | none =>
    have hdraft : request.draft.arena = Arena.empty ∧ request.draft.root = none := by
      simp [Request.draft, hquery]
    refine ⟨?_, rfl, fun _ => ⟨hdraft.2, hdraft.1⟩, fun tree htree => ?_⟩
    · rw [hdraft.1]
      exact .empty
    · rw [hquery] at htree
      exact absurd htree (by simp)
  | some tree =>
    have hdraft : request.draft.arena = (Arena.empty.insert tree).1 ∧
        request.draft.root = some (Arena.empty.insert tree).2 := by
      simp [Request.draft, hquery]
    refine ⟨?_, rfl, fun hnone => ?_, fun tree' htree => ?_⟩
    · rw [hdraft.1]
      exact (hinsert tree).ascending
    · rw [hquery] at hnone
      exact absurd hnone (by simp)
    · rw [hquery] at htree
      cases htree
      refine ⟨_, hdraft.2, ?_, ?_⟩
      · rw [hdraft.1]
        exact hinsert tree
      · rw [hdraft.1, Arena.labels_insert]
        rfl

end Query

/-! ## The metadata -/

namespace Metadata

variable {resolver : Resolver} {md : Metadata}

/-- Fetching mappings is a growth, whether it succeeds or fails; it succeeds if all of the indexes
have a mapping. -/
theorem exec_fetchAll (indexes : List String) (hf : md.Faithful resolver) :
    ∃ outcome md', exec (fetchAll resolver indexes) md = (outcome, md') ∧
      md.Grows resolver md' ∧
      (outcome = .ok () → ∀ index ∈ indexes, ∃ mapping, resolver.mapping index = .ok mapping) := by
  induction indexes generalizing md with
  | nil => exact ⟨_, md, rfl, .refl md, by simp⟩
  | cons index rest ih =>
    obtain ⟨md₁, h₁, hg₁⟩ := exec_mapping hf index
    rw [fetchAll, exec_bind, h₁]
    cases hmapping : resolver.mapping index with
    | error error => exact ⟨_, md₁, rfl, hg₁, by simp⟩
    | ok found =>
      obtain ⟨outcome, md₂, h₂, hg₂, hall⟩ := ih (hg₁.faithful hf)
      refine ⟨outcome, md₂, h₂, hg₁.trans hg₂, fun hok index' hmem => ?_⟩
      rcases List.mem_cons.mp hmem with rfl | hrest
      · exact ⟨found, hmapping⟩
      · exact hall hok index' hrest

/-- Fetching mappings records no use. -/
theorem wp_fetchAll_used (indexes : List String) (md : Metadata) :
    wp (fetchAll resolver indexes) (fun _ md' => md'.used = md.used)
      (fun _ md' => md'.used = md.used) md := by
  induction indexes generalizing md with
  | nil => exact rfl
  | cons index rest ih =>
    rw [fetchAll, wp_bind]
    refine wp_mono (wp_mapping_used index md) (fun _ md₁ h₁ => ?_) fun _ _ => id
    exact wp_mono (ih md₁) (fun _ _ h => h.trans h₁) fun _ _ h => h.trans h₁

/-- **Mapped**: every link that fields may belong to has a mapping. -/
def Mapped (resolver : Resolver) (md : Metadata) : Prop :=
  ∀ link ∈ md.primary :: md.origin :: md.links,
    ∃ mapping, resolver.mapping link.index = .ok mapping

/-- The metadata of an index of which only the own mapping was fetched. -/
def opened (mapping : Mapping) (index : String) (links : List Link) : Metadata where
  fetched := [(index, mapping)]
  origin := selfLink mapping index
  primary := selfLink mapping index
  links := links

/-- The mapping that was fetched is the one of the resolver. -/
theorem opened_faithful {index : String} {mapping : Mapping}
    (h : resolver.mapping index = .ok mapping) (links : List Link) :
    (opened mapping index links).Faithful resolver := by
  intro other found hfind
  rw [opened, Keyed.find?_cons] at hfind
  split at hfind
  · next heq => rw [← heq, h, Option.some.inj hfind]
  · exact absurd hfind (by simp [Keyed.find?])

/-- **Opened metadata**: the origin is the index itself, which is the primary one as well. -/
theorem start_spec {index : String} {links : List Link}
    (h : start resolver index links = .ok md) :
    ∃ mapping, resolver.mapping index = .ok mapping ∧ md.Faithful resolver ∧
      md.Mapped resolver ∧ md.origin = selfLink mapping index ∧
      md.primary = selfLink mapping index ∧ md.links = links ∧ md.used = [] := by
  unfold start at h
  cases hmapping : resolver.mapping index with
  | error error => rw [hmapping] at h; exact absurd h (by simp [bind, Except.bind])
  | ok mapping =>
    rw [hmapping] at h
    have hfaithful := opened_faithful hmapping links
    obtain ⟨outcome, md', hexec, hgrows, hall⟩ := exec_fetchAll (links.map (·.index)) hfaithful
    have hexec' := hexec
    have hexec : (fetchAll resolver (links.map (·.index))).run (opened mapping index links) =
      (outcome, md') := hexec
    unfold opened at hexec
    simp only [bind, Except.bind, hexec] at h
    cases outcome with
    | error error => exact absurd h (by simp)
    | ok _ =>
      obtain rfl := Except.ok.inj h
      refine ⟨mapping, rfl, hgrows.faithful hfaithful, ?_, hgrows.origin_eq, hgrows.primary_eq,
        hgrows.links_eq, (wp_of_ok hexec').mp (wp_fetchAll_used _ (opened mapping index links))⟩
      intro link hlink
      rw [hgrows.primary_eq, hgrows.origin_eq, hgrows.links_eq] at hlink
      rcases List.mem_cons.mp hlink with rfl | hlink
      · exact ⟨mapping, hmapping⟩
      · rcases List.mem_cons.mp hlink with rfl | hlink
        · exact ⟨mapping, hmapping⟩
        · exact hall rfl link.index (List.mem_map_of_mem hlink)

end Metadata

/-! ## Fields -/

namespace Setup

variable {resolver : Resolver} {md : Metadata}

/-- Recording the owners of some fields is a growth, whether it succeeds or fails; it succeeds if
every field has an owner. -/
theorem exec_recordOwners (fields : List String) (hf : md.Faithful resolver) :
    ∃ outcome md', exec (fields.forM fun field => do
      let _ ← Metadata.find resolver field : Lookup Unit) md = (outcome, md') ∧
      md.Grows resolver md' ∧
      ((∀ field, ∃ link, md.owner resolver field = .ok link) → outcome = .ok ()) := by
  induction fields generalizing md with
  | nil => exact ⟨_, md, rfl, .refl md, fun _ => rfl⟩
  | cons field rest ih =>
    obtain ⟨md₁, h₁, hg₁⟩ := Metadata.exec_find hf field
    have hcons : (field :: rest).forM (fun field => do
        let _ ← Metadata.find resolver field : String → Lookup Unit) = (do
          (do let _ ← Metadata.find resolver field)
          rest.forM fun field => do
            let _ ← Metadata.find resolver field) := rfl
    rw [hcons, exec_bind, exec_bind, h₁]
    cases howner : md.owner resolver field with
    | error error =>
      refine ⟨_, md₁, rfl, hg₁, fun hall => ?_⟩
      obtain ⟨link, hlink⟩ := hall field
      rw [howner] at hlink
      exact absurd hlink (by simp)
    | ok found =>
      obtain ⟨outcome, md₂, h₂, hg₂, hok⟩ := ih (hg₁.faithful hf)
      refine ⟨outcome, md₂, h₂, hg₁.trans hg₂, fun hall => hok fun field' => ?_⟩
      rw [hg₁.owner_eq]
      exact hall field'

/-- **Assigned fields**: the primary link changes to the owner of the subject, if there is one. -/
theorem assignFields_spec {subject : Option String} {fields : List String} {md' : Metadata}
    (hf : md.Faithful resolver)
    (h : exec (assignFields resolver subject fields) md = (.ok (), md')) :
    md'.Faithful resolver ∧ md'.origin = md.origin ∧ md'.links = md.links ∧
      md'.primary ∈ md.primary :: md.origin :: md.links ∧
      (subject = none → md'.primary = md.primary) ∧
      ∀ field, subject = some field → md.owner resolver field = .ok md'.primary ∧
        (Metadata.use md'.primary md).used <+: md'.used := by
  unfold assignFields at h
  cases subject with
  | none =>
    obtain ⟨outcome, md₁, h₁, hg₁, -⟩ := exec_recordOwners fields hf
    have h : exec (fields.forM _) md = (.ok (), md') := h
    obtain ⟨-, rfl⟩ := Prod.mk.inj (h.symm.trans h₁)
    refine ⟨hg₁.faithful hf, hg₁.origin_eq, hg₁.links_eq, ?_, fun _ => hg₁.primary_eq,
      fun field hsome => absurd hsome (by simp)⟩
    rw [hg₁.primary_eq]
    exact List.mem_cons_self
  | some field =>
    obtain ⟨md₁, h₁, hg₁⟩ := Metadata.exec_find hf field
    simp only at h
    obtain ⟨link, md₂, h₂, h⟩ := exec_bind_ok.mp h
    obtain ⟨howner, rfl⟩ := Prod.mk.inj (h₁.symm.trans h₂)
    obtain ⟨_, md₃, h₃, h⟩ := exec_bind_ok.mp h
    have h₃ : ((.ok ⟨⟩, { md₁ with primary := link }) : Except Error PUnit × Metadata) = _ := h₃
    obtain ⟨-, rfl⟩ := Prod.mk.inj h₃
    -- the subject is found first, and it is the primary link while the owners are recorded
    have hf' : ({ md₁ with primary := link } : Metadata).Faithful resolver := hg₁.faithful hf
    obtain ⟨outcome, md₄, h₄, hg₄, -⟩ := exec_recordOwners fields hf'
    obtain ⟨-, rfl⟩ := Prod.mk.inj (h₄.symm.trans h)
    refine ⟨hg₄.faithful hf', hg₄.origin_eq.trans hg₁.origin_eq,
      hg₄.links_eq.trans hg₁.links_eq, ?_, fun hnone => absurd hnone (by simp), ?_⟩
    · rw [hg₄.primary_eq]
      exact Metadata.mem_of_owner howner
    · rintro field' hfield
      obtain rfl := Option.some.inj hfield
      rw [hg₄.primary_eq]
      exact ⟨howner, (wp_of_ok h₂).mp (Metadata.wp_find_used field md) ▸ hg₄.used_prefix⟩

/-- **A started compiler**: it has done nothing yet but to look things up. -/
structure Started (setup : Setup) (compiler : Compiler) : Prop where
  resolver_eq : setup.resolver = some compiler.environment.resolver
  executor_eq : setup.executor = some compiler.environment.executor
  settings_eq : compiler.environment.settings = setup.settings
  analyzer_eq : compiler.environment.analyzer =
    setup.analyzer.getD setup.settings.tokenizer.analyzer
  progress_eq : ∃ md, compiler.progress = { draft := setup.request.draft, metadata := md }
  sound : Sound compiler.environment compiler.progress
  links_eq : compiler.progress.metadata.links = setup.request.links
  mapped : compiler.progress.metadata.Mapped compiler.environment.resolver
  origin_eq : ∃ mapping, compiler.environment.resolver.mapping setup.index = .ok mapping ∧
    compiler.progress.metadata.origin = Metadata.selfLink mapping setup.index
  primary_eq : Request.subjectField? setup.request.aggregate setup.request.suggestion = none →
    compiler.progress.metadata.primary = compiler.progress.metadata.origin
  owner_eq : ∀ field,
    Request.subjectField? setup.request.aggregate setup.request.suggestion = some field →
      ({ compiler.progress.metadata with primary := compiler.progress.metadata.origin } :
          Metadata).owner compiler.environment.resolver field =
        .ok compiler.progress.metadata.primary ∧
      [compiler.progress.metadata.primary] <+: compiler.progress.metadata.used

theorem Started.draft_eq {setup : Setup} {compiler : Compiler} (h : setup.Started compiler) :
    compiler.progress.draft = setup.request.draft := by
  obtain ⟨md, hprogress⟩ := h.progress_eq
  rw [hprogress]

/-- The root of a started compiler is the node of the query of its request. -/
theorem Started.inserted_root {setup : Setup} {compiler : Compiler} (h : setup.Started compiler)
    {root : NodeId} (hroot : compiler.progress.draft.root = some root) :
    ∃ tree, setup.request.query = some tree ∧
      Arena.Inserted Arena.empty compiler.progress.draft.arena root tree := by
  have hfresh := setup.request.draft_fresh
  rw [h.draft_eq] at hroot ⊢
  cases hquery : setup.request.query with
  | none =>
    rw [(hfresh.rootless hquery).1] at hroot
    exact absurd hroot (by simp)
  | some tree =>
    obtain ⟨root', hroot', hinserted, -⟩ := hfresh.rooted tree hquery
    obtain rfl : root' = root := Option.some.inj (hroot'.symm.trans hroot)
    exact ⟨tree, rfl, hinserted⟩

/-- The root of a query comes before every other node. -/
theorem Started.root_eq_zero {setup : Setup} {compiler : Compiler} (h : setup.Started compiler)
    {root : NodeId} (hroot : compiler.progress.draft.root = some root) : root = 0 := by
  obtain ⟨tree, -, hinserted⟩ := h.inserted_root hroot
  exact hinserted.id_eq

/-- **Another query about the same fields** makes no difference to the start but for the draft. -/
theorem start_withQuery (setup : Setup) (query : Option Tree)
    (hfields : ({ setup.request with query } : Request).draft.fieldNames = setup.request.draft.fieldNames) :
    ({ setup with request := { setup.request with query } } : Setup).start =
      setup.start.map fun compiler => { compiler with
        progress := { compiler.progress with draft := ({ setup.request with query } : Request).draft } } := by
  unfold start
  simp only [hfields]
  cases setup.resolver with
  | none => rfl
  | some resolver =>
  cases setup.executor with
  | none => rfl
  | some executor =>
    simp only
    cases Metadata.start resolver setup.index setup.request.links with
    | error e => rfl
    | ok md =>
      simp only [bind, Except.bind]
      rcases (assignFields resolver (Request.subjectField? setup.request.aggregate
        setup.request.suggestion) setup.request.draft.fieldNames).run md with ⟨error | _, metadata⟩
      · rfl
      · rfl

/-- **Starting** is opening the metadata and assigning the fields. -/
theorem start_eq_ok {setup : Setup} {compiler : Compiler} : setup.start = .ok compiler ↔
    ∃ resolver executor md md', setup.resolver = some resolver ∧ setup.executor = some executor ∧
      Metadata.start resolver setup.index setup.request.links = .ok md ∧
      exec (assignFields resolver (Request.subjectField? setup.request.aggregate
        setup.request.suggestion) setup.request.draft.fieldNames) md = (.ok (), md') ∧
      compiler = {
        environment := {
          settings := setup.settings, resolver, executor
          analyzer := setup.analyzer.getD setup.settings.tokenizer.analyzer }
        progress := { draft := setup.request.draft, metadata := md' } } := by
  unfold start
  constructor
  · intro h
    cases hresolver : setup.resolver with
    | none => rw [hresolver] at h; exact absurd h (by simp)
    | some resolver =>
      cases hexecutor : setup.executor with
      | none =>
        rw [hresolver, hexecutor] at h
        exact absurd h (by simp)
      | some executor =>
        simp only [hresolver, hexecutor, bind, Except.bind] at h
        cases hmetadata : Metadata.start resolver setup.index setup.request.links with
        | error error => rw [hmetadata] at h; exact absurd h (by simp)
        | ok md =>
          simp only [hmetadata] at h
          cases hassign : exec (assignFields resolver (Request.subjectField? setup.request.aggregate
              setup.request.suggestion) setup.request.draft.fieldNames) md with
          | mk outcome md' =>
            have hrun : (assignFields resolver (Request.subjectField? setup.request.aggregate
              setup.request.suggestion) setup.request.draft.fieldNames).run md = (outcome, md') :=
              hassign
            simp only [hrun] at h
            cases outcome with
            | error error => exact absurd h (by simp)
            | ok _ => exact ⟨resolver, executor, md, md', rfl, rfl, hmetadata, hassign,
                (Except.ok.inj h).symm⟩
  · rintro ⟨resolver, executor, md, md', hresolver, hexecutor, hmetadata, hassign, rfl⟩
    have hrun : (assignFields resolver (Request.subjectField? setup.request.aggregate
      setup.request.suggestion) setup.request.draft.fieldNames).run md = (.ok (), md') := hassign
    simp only [hresolver, hexecutor, bind, Except.bind, hmetadata, hrun]
    rfl

/-- A successful start gives such a compiler. -/
theorem started_of_ok {setup : Setup} {compiler : Compiler} (h : setup.start = .ok compiler) :
    setup.Started compiler := by
  obtain ⟨resolver, executor, md, md', hresolver, hexecutor, hstart, hassign, rfl⟩ :=
    start_eq_ok.mp h
  obtain ⟨mapping, hmapping, hfaithful, hmapped, horigin, hprimary, hlinks, hused⟩ :=
    Metadata.start_spec hstart
  obtain ⟨hfaithful', horigin', hlinks', hmem, hprimary', howner⟩ :=
    assignFields_spec hfaithful hassign
  refine ⟨hresolver, hexecutor, rfl, rfl, ⟨md', rfl⟩, ⟨?_, hfaithful'⟩, hlinks'.trans hlinks, ?_, ?_, ?_,
    fun field hfield => ?_⟩
  · exact setup.request.draft_fresh.ascending
  · intro link hlink
    refine hmapped link ?_
    simp only at hlink
    rw [horigin', hlinks'] at hlink
    rcases List.mem_cons.mp hlink with rfl | hlink
    · exact hmem
    · exact List.mem_cons_of_mem _ hlink
  · exact ⟨mapping, hmapping, horigin'.trans horigin⟩
  · intro hnone
    exact (hprimary' hnone).trans (hprimary.trans (horigin'.trans horigin).symm)
  · obtain ⟨howned, hprefix⟩ := howner field hfield
    have hfirst : md.primary = md.origin := hprimary.trans horigin.symm
    refine ⟨?_, ?_⟩
    · rw [← howned]
      refine Metadata.owner_congr ?_ ?_ ?_ field
      · exact horigin'
      · exact horigin'.trans hfirst.symm
      · exact hlinks'
    · unfold Metadata.use at hprefix
      simpa [hused] using hprefix

end Setup

/-- The query of a draft is compiled below its root. -/
theorem Compile.exec_rootQuery {env : Environment} {p : Progress} {root : Query.NodeId}
    (hroot : p.draft.root = some root) :
    exec (rootQuery env) p = exec (nodeWithin env (depthBound p.draft.arena.size) root) p := by
  rw [rootQuery, exec_get_bind, hroot]
  exact exec_arena_bind _ p

/-- Without a query, everything matches. -/
theorem Compile.exec_rootQuery_none {env : Environment} {p : Progress} (hroot : p.draft.root = none) :
    exec (rootQuery env) p = (.ok (.matchAll none), p) := by
  rw [rootQuery, exec_get_bind, hroot]
  rfl

end LinkedSearch
