import LinkedSearch.Proofs.Outcome

/-! # Owners of fields

The metadata of a query keeps what it fetched. As long as it is *faithful*, which it is from the
start, every lookup answers what the resolver would answer if it were asked afresh:

* `Metadata.owner`, `Metadata.ownerMapping`: the link that a field belongs to, and the mapping of its
  index, asked of the resolver directly.
* `exec_find`, `exec_mappingOf`: the lookups give exactly these answers.
* `Metadata.Grows`: a lookup only adds to what was fetched and used. -/

namespace LinkedSearch

open Schema (Mapping)

namespace Metadata

variable {resolver : Resolver} {md md' : Metadata}

/-- What was fetched is what the resolver answers. -/
def Faithful (resolver : Resolver) (md : Metadata) : Prop :=
  ∀ index mapping, Keyed.find? index md.fetched = some mapping → resolver.mapping index = .ok mapping

/-- **Growth**: only what was fetched and used has changed, and nothing of it was lost. -/
structure Grows (resolver : Resolver) (md md' : Metadata) : Prop where
  origin_eq : md'.origin = md.origin
  primary_eq : md'.primary = md.primary
  links_eq : md'.links = md.links
  used_prefix : md.used <+: md'.used
  faithful : md.Faithful resolver → md'.Faithful resolver

namespace Grows

@[refl] theorem refl (md : Metadata) : md.Grows resolver md :=
  ⟨rfl, rfl, rfl, List.prefix_refl _, id⟩

theorem trans {md'' : Metadata} (h : md.Grows resolver md') (h' : md'.Grows resolver md'') :
    md.Grows resolver md'' where
  origin_eq := h'.origin_eq.trans h.origin_eq
  primary_eq := h'.primary_eq.trans h.primary_eq
  links_eq := h'.links_eq.trans h.links_eq
  used_prefix := h.used_prefix.trans h'.used_prefix
  faithful := h'.faithful ∘ h.faithful

end Grows

/-- Recording a use only adds to the links in use. -/
theorem grows_use (link : Link) (md : Metadata) : md.Grows resolver (use link md) := by
  unfold use
  split
  · exact .refl md
  · exact ⟨rfl, rfl, rfl, List.prefix_append _ _, id⟩

/-! ## Answers of the resolver -/

/-- The first of some links whose index has a field. -/
def firstOwner (resolver : Resolver) (field : String) : List Link → Except Error (Option Link)
  | [] => .ok none
  | link :: rest =>
    match resolver.mapping link.index with
    | .error error => .error error
    | .ok mapping => if mapping.hasField field then .ok (some link) else firstOwner resolver field rest

/-- The links that are asked for a field after the primary one. -/
def others (md : Metadata) : List Link :=
  md.links ++ (if md.origin = md.primary then [] else [md.origin])

/-- **Owner of a field**, asked of the resolver. -/
def owner (resolver : Resolver) (md : Metadata) (field : String) : Except Error Link :=
  match md.namedLink? field with
  | some link => .ok link
  | none =>
    match firstOwner resolver field (md.primary :: md.others) with
    | .error error => .error error
    | .ok link => .ok (link.getD md.primary)

/-- A link whose index has a field is one of those that were asked. -/
theorem mem_of_firstOwner {field : String} {links : List Link} {link : Link}
    (h : firstOwner resolver field links = .ok (some link)) : link ∈ links := by
  induction links with
  | nil => exact absurd h (by simp [firstOwner])
  | cons first rest ih =>
    rw [firstOwner] at h
    split at h
    · exact absurd h (by simp)
    · split at h
      · rw [Option.some.inj (Except.ok.inj h)]
        exact List.mem_cons_self
      · exact List.mem_cons_of_mem first (ih h)

/-- The owner of a field is the primary link, the origin, or one of the links. -/
theorem mem_of_owner {field : String} {link : Link} (h : md.owner resolver field = .ok link) :
    link ∈ md.primary :: md.origin :: md.links := by
  unfold owner at h
  split at h
  · next named hnamed =>
    obtain rfl := Except.ok.inj h
    obtain ⟨_, -, hfind⟩ := Option.bind_eq_some_iff.mp hnamed
    have hmem := List.mem_of_find?_eq_some hfind
    simp [hmem]
  · split at h
    · exact absurd h (by simp)
    · next found hfound =>
      obtain rfl := Except.ok.inj h
      cases found with
      | none => exact List.mem_cons_self
      | some first =>
        have hmem := mem_of_firstOwner hfound
        unfold others at hmem
        show first ∈ md.primary :: md.origin :: md.links
        split at hmem <;> grind

/-- A link that was asked for a field and has it is the first one if it is asked first. -/
theorem firstOwner_of_firstOwner {field : String} {links others : List Link} {link : Link}
    (h : firstOwner resolver field links = .ok (some link)) :
    firstOwner resolver field (link :: others) = .ok (some link) := by
  induction links with
  | nil => exact absurd h (by simp [firstOwner])
  | cons first rest ih =>
    rw [firstOwner] at h
    split at h
    · exact absurd h (by simp)
    · next mapping hmapping =>
      split at h
      · next hfield =>
        obtain rfl := Option.some.inj (Except.ok.inj h)
        rw [firstOwner, hmapping]
        exact if_pos hfield
      · exact ih h

/-- **The owner of a field stays its owner** when it becomes the primary link. -/
theorem owner_of_owner {field : String} {link : Link} (h : md.owner resolver field = .ok link) :
    ({ md with primary := link } : Metadata).owner resolver field = .ok link := by
  unfold owner at h ⊢
  have hnamed : ({ md with primary := link } : Metadata).namedLink? field = md.namedLink? field := rfl
  rw [hnamed]
  cases hfield : md.namedLink? field with
  | some named =>
    rw [hfield] at h
    exact h
  | none =>
    simp only [hfield] at h ⊢
    cases hfound : firstOwner resolver field (md.primary :: md.others) with
    | error error =>
      rw [hfound] at h
      exact absurd h (by simp)
    | ok found =>
      simp only [hfound] at h
      obtain rfl := Except.ok.inj h
      cases found with
      | some owner =>
        simp only [Option.getD_some]
        rw [firstOwner_of_firstOwner hfound]
        rfl
      | none =>
        -- nobody has the field, so that the primary link owns it and stays the primary one
        simp only [Option.getD_none]
        rw [show ({ md with primary := md.primary } : Metadata) = md from rfl, hfound]
        rfl

/-- **Mapping of the owner** of a field, asked of the resolver. -/
def ownerMapping (resolver : Resolver) (md : Metadata) (field : String) : Except Error Mapping :=
  match md.owner resolver field with
  | .error error => .error error
  | .ok link => resolver.mapping link.index

/-- The owner of a field depends on the origin, the primary link and the other links only. -/
theorem owner_congr (horigin : md'.origin = md.origin) (hprimary : md'.primary = md.primary)
    (hlinks : md'.links = md.links) (field : String) :
    md'.owner resolver field = md.owner resolver field := by
  unfold owner others namedLink? linkNamed?
  rw [horigin, hprimary, hlinks]

/-- Growth does not change the owner of a field. -/
theorem Grows.owner_eq (h : md.Grows resolver md') (field : String) :
    md'.owner resolver field = md.owner resolver field :=
  owner_congr h.origin_eq h.primary_eq h.links_eq field

/-- Growth does not change the mapping of the owner of a field. -/
theorem Grows.ownerMapping_eq (h : md.Grows resolver md') (field : String) :
    md'.ownerMapping resolver field = md.ownerMapping resolver field := by
  unfold ownerMapping
  rw [h.owner_eq]

/-! ## Lookups -/

/-- What a lookup has fetched stays faithful. -/
theorem Faithful.fetch (hf : md.Faithful resolver) {index : String} {mapping : Mapping}
    (h : resolver.mapping index = .ok mapping) :
    Faithful resolver { md with fetched := (index, mapping) :: md.fetched } := by
  intro other found hfind
  rw [Keyed.find?_cons] at hfind
  split at hfind
  · next heq =>
    rw [← heq, h, Option.some.inj hfind]
  · exact hf other found hfind

/-- **Mapping of an index**: the answer of the resolver, whether it was fetched before or not. -/
theorem exec_mapping (hf : md.Faithful resolver) (index : String) :
    ∃ md', exec (mapping resolver index) md = (resolver.mapping index, md') ∧
      md.Grows resolver md' := by
  rw [mapping, exec_get_bind]
  cases hfind : Keyed.find? index md.fetched with
  | some found =>
    refine ⟨md, ?_, .refl md⟩
    rw [hf index found hfind]
    rfl
  | none =>
    cases hanswer : resolver.mapping index with
    | error error => exact ⟨md, rfl, .refl md⟩
    | ok found =>
      refine ⟨{ md with fetched := (index, found) :: md.fetched }, rfl, ?_⟩
      exact ⟨rfl, rfl, rfl, List.prefix_refl _, fun hf => hf.fetch hanswer⟩

/-- The first link with a field is the one that the resolver's answers give. -/
theorem exec_firstWithField (field : String) (links : List Link) (hf : md.Faithful resolver) :
    ∃ md', exec (firstWithField resolver field links) md = (firstOwner resolver field links, md') ∧
      md.Grows resolver md' := by
  induction links generalizing md with
  | nil => exact ⟨md, rfl, .refl md⟩
  | cons link rest ih =>
    obtain ⟨md₁, h₁, hg₁⟩ := exec_mapping hf link.index
    rw [firstWithField, exec_bind, h₁, firstOwner]
    cases resolver.mapping link.index with
    | error error => exact ⟨md₁, rfl, hg₁⟩
    | ok found =>
      by_cases hfield : found.hasField field
      · exact ⟨md₁, by simp only [if_pos hfield]; rfl, hg₁⟩
      · obtain ⟨md₂, h₂, hg₂⟩ := ih (hg₁.faithful hf)
        exact ⟨md₂, by simp only [if_neg hfield]; exact h₂, hg₁.trans hg₂⟩

/-- **Locating** a field gives its owner. -/
theorem exec_locate (hf : md.Faithful resolver) (field : String) :
    ∃ md', exec (locate resolver field) md = (md.owner resolver field, md') ∧
      md.Grows resolver md' := by
  unfold locate owner
  rw [exec_bind]
  show ∃ md', exec (match md.namedLink? field with | some link => _ | none => _) md = _ ∧ _
  cases md.namedLink? field with
  | some link => exact ⟨md, rfl, .refl md⟩
  | none =>
    obtain ⟨md₁, h₁, hg₁⟩ := exec_firstWithField field (md.primary :: md.others) hf
    refine ⟨md₁, ?_, hg₁⟩
    show exec (firstWithField resolver field (md.primary :: md.others) >>= _) md = _
    rw [exec_bind, h₁]
    cases firstOwner resolver field (md.primary :: md.others) <;> rfl

/-- **Finding** a field gives its owner, and records it as used. -/
theorem exec_find (hf : md.Faithful resolver) (field : String) :
    ∃ md', exec (find resolver field) md = (md.owner resolver field, md') ∧
      md.Grows resolver md' := by
  obtain ⟨md₁, h₁, hg₁⟩ := exec_locate hf field
  unfold find
  rw [exec_bind, h₁]
  cases md.owner resolver field with
  | error error => exact ⟨md₁, rfl, hg₁⟩
  | ok link => exact ⟨use link md₁, rfl, hg₁.trans (grows_use link md₁)⟩

/-- Fetching a mapping records no use. -/
theorem wp_mapping_used (index : String) (md : Metadata) :
    wp (mapping resolver index) (fun _ md' => md'.used = md.used) (fun _ md' => md'.used = md.used)
      md := by
  unfold mapping
  rw [wp_bind, wp_get]
  split
  · rfl
  · rw [wp_bind]
    cases resolver.mapping index with
    | error error => rfl
    | ok found => rfl

/-- Neither does looking for a link with a field. -/
theorem wp_firstWithField_used (field : String) (links : List Link) (md : Metadata) :
    wp (firstWithField resolver field links) (fun _ md' => md'.used = md.used)
      (fun _ md' => md'.used = md.used) md := by
  induction links generalizing md with
  | nil => exact rfl
  | cons link rest ih =>
    rw [firstWithField, wp_bind]
    refine wp_mono (wp_mapping_used link.index md) (fun found md₁ h₁ => ?_) fun _ _ => id
    split
    · exact h₁
    · exact wp_mono (ih md₁) (fun _ _ h => h.trans h₁) fun _ _ h => h.trans h₁

/-- **A field that was found** is recorded as used, and nothing else is. -/
theorem wp_find_used (field : String) (md : Metadata) :
    wp (find resolver field) (fun link md' => md'.used = (use link md).used)
      (fun _ md' => md'.used = md.used) md := by
  have hlocate : wp (locate resolver field) (fun _ md' => md'.used = md.used)
      (fun _ md' => md'.used = md.used) md := by
    unfold locate
    rw [wp_bind, wp_get]
    split
    · rfl
    · rw [wp_bind]
      exact wp_mono (wp_firstWithField_used field _ md) (fun _ _ h => h) fun _ _ => id
  unfold find
  rw [wp_bind]
  refine wp_mono hlocate (fun link md₁ h₁ => ?_) fun _ _ => id
  rw [wp_bind, wp_modify, wp_pure]
  unfold use
  rw [h₁]
  split
  · exact h₁
  · rfl

/-- **Mapping of a field**: the mapping of its owner. -/
theorem exec_mappingOf (hf : md.Faithful resolver) (field : String) :
    ∃ md', exec (mappingOf resolver field) md = (md.ownerMapping resolver field, md') ∧
      md.Grows resolver md' := by
  obtain ⟨md₁, h₁, hg₁⟩ := exec_find hf field
  unfold mappingOf ownerMapping
  rw [exec_bind, h₁]
  cases md.owner resolver field with
  | error error => exact ⟨md₁, rfl, hg₁⟩
  | ok link =>
    obtain ⟨md₂, h₂, hg₂⟩ := exec_mapping (hg₁.faithful hf) link.index
    exact ⟨md₂, h₂, hg₁.trans hg₂⟩

end Metadata

end LinkedSearch
