import LinkedSearch.Cluster
import LinkedSearch.Proofs.Starting
import LinkedSearch.Proofs.Tables

/-! # Consulting the metadata

The metadata of a query is asked for mappings and for the links that fields belong to, and is told which link is the
primary one. It answers like one that keeps nothing and asks the resolver each time, but asks for no mapping twice,
and has the links that it found on record.

* `Metadata.Question`, `Metadata.asked`: what the metadata is asked, one after the other and whatever the answers.
* `Metadata.askedAfresh`, `Metadata.foundAfresh`: the answers of the resolver, and the links that were found.
* `Metadata.Economical`: what asks only for mappings that were not fetched, and fetches those it gets.
* `Metadata.start_asked`: starting is asking for the mappings of the links.
* `Metadata.start_transparent`: the metadata is transparent, economical, and accounts for what was used. -/

namespace LinkedSearch

open Schema (Mapping)

namespace Metadata

/-- **A question** to the metadata; setting the primary link counts as one. -/
inductive Question where
  | mapping (index : String)
  | find (field : String)
  | mappingOf (field : String)
  | primaryMapping
  | setPrimary (link : Link)
  deriving DecidableEq

/-- The answer to a question. -/
inductive Answer where
  | mapping (mapping : Mapping)
  | link (link : Link)
  | done
  deriving DecidableEq

namespace Question

/-- A question as a lookup. -/
def ask (resolver : Resolver) : Question → Lookup Answer
  | mapping index => return .mapping (← Metadata.mapping resolver index)
  | find field => return .link (← Metadata.find resolver field)
  | mappingOf field => return .mapping (← Metadata.mappingOf resolver field)
  | primaryMapping => return .mapping (← Metadata.primaryMapping resolver)
  | setPrimary link => do
    modify fun metadata => { metadata with primary := link }
    return .done

/-- The answer of the resolver, given the origin, the primary link and the other links. -/
def answer (resolver : Resolver) (metadata : Metadata) : Question → Except Error Answer
  | mapping index => (resolver.mapping index).map .mapping
  | find field => (metadata.owner resolver field).map .link
  | mappingOf field => (metadata.ownerMapping resolver field).map .mapping
  | primaryMapping => (resolver.mapping metadata.primary.index).map .mapping
  | setPrimary _ => .ok .done

/-- The links that a question finds by looking up a field. -/
def found (resolver : Resolver) (metadata : Metadata) : Question → List Link
  | find field | mappingOf field => (metadata.owner resolver field).toOption.toList
  | mapping _ | primaryMapping | setPrimary _ => []

/-- The metadata after a question, but for what was fetched and used. -/
def redirect (metadata : Metadata) : Question → Metadata
  | setPrimary link => { metadata with primary := link }
  | mapping _ | find _ | mappingOf _ | primaryMapping => metadata

end Question

/-- **Questions** asked one after the other: their answers, and the metadata after them. -/
def asked (resolver : Resolver) : List Question → Metadata → List (Except Error Answer) × Metadata
  | [], metadata => ([], metadata)
  | question :: rest, metadata =>
    let (answer, metadata) := exec (question.ask resolver) metadata
    let (answers, metadata) := asked resolver rest metadata
    (answer :: answers, metadata)

/-- The answers to questions if the resolver is asked afresh for each of them. -/
def askedAfresh (resolver : Resolver) : List Question → Metadata → List (Except Error Answer)
  | [], _ => []
  | question :: rest, metadata =>
    question.answer resolver metadata :: askedAfresh resolver rest (question.redirect metadata)

/-- The links found by questions if the resolver is asked afresh for each of them. -/
def foundAfresh (resolver : Resolver) : List Question → Metadata → List Link
  | [], _ => []
  | question :: rest, metadata =>
    question.found resolver metadata ++ foundAfresh resolver rest (question.redirect metadata)

theorem asked_append (resolver : Resolver) (questions later : List Question) (md : Metadata) :
    asked resolver (questions ++ later) md =
      ((asked resolver questions md).1 ++ (asked resolver later (asked resolver questions md).2).1,
        (asked resolver later (asked resolver questions md).2).2) := by
  induction questions generalizing md with
  | nil => rfl
  | cons question rest ih => simp only [List.cons_append, asked, ih]

/-! ## Answers -/

variable {resolver : Resolver} {md md' reference : Metadata} {found : List Link}

/-- **A mirror** of a reference that keeps nothing: metadata that knows only the resolver's answers, has the links of
the reference, and has exactly the links found so far on record, each of them once. -/
structure Mirrors (resolver : Resolver) (md reference : Metadata) (found : List Link) : Prop where
  faithful : md.Faithful resolver
  origin_eq : md.origin = reference.origin
  primary_eq : md.primary = reference.primary
  links_eq : md.links = reference.links
  used_eq : md.used = found.eraseDups

namespace Mirrors

theorem owner_eq (h : Mirrors resolver md reference found) (field : String) :
    md.owner resolver field = reference.owner resolver field :=
  owner_congr h.origin_eq h.primary_eq h.links_eq field

/-- What grows stays a mirror, if its record does. -/
theorem grow (h : Mirrors resolver md reference found) (hgrows : md.Grows resolver md') {more : List Link}
    (hused : md'.used = (found ++ more).eraseDups) : Mirrors resolver md' reference (found ++ more) :=
  ⟨hgrows.faithful h.faithful, hgrows.origin_eq.trans h.origin_eq, hgrows.primary_eq.trans h.primary_eq,
    hgrows.links_eq.trans h.links_eq, hused⟩

/-- Recording a link keeps each link once, in the order in which they were found. -/
theorem used_use (h : Mirrors resolver md reference found) (link : Link) :
    (use link md).used = (found ++ [link]).eraseDups := by
  have hmem : link ∈ md.used ↔ link ∈ found := by rw [h.used_eq, List.mem_eraseDups]
  unfold use
  rw [List.eraseDups_append]
  by_cases hlink : link ∈ found
  · rw [if_pos (hmem.mpr hlink)]
    simp [List.removeAll, hlink, h.used_eq]
  · rw [if_neg (hmem.not.mpr hlink)]
    simp [List.removeAll, hlink, h.used_eq, List.eraseDups_cons]

/-- Asking for a mapping records nothing. -/
theorem exec_mapping (h : Mirrors resolver md reference found) (index : String) :
    ∃ md', exec (mapping resolver index) md = (resolver.mapping index, md') ∧
      Mirrors resolver md' reference found := by
  obtain ⟨md', hexec, hgrows⟩ := Metadata.exec_mapping h.faithful index
  have hused : (exec (mapping resolver index) md).2.used = md.used := wp_const.mp (wp_mapping_used index md)
  rw [hexec, h.used_eq] at hused
  exact ⟨md', hexec, hgrows.faithful h.faithful, hgrows.origin_eq.trans h.origin_eq,
    hgrows.primary_eq.trans h.primary_eq, hgrows.links_eq.trans h.links_eq, hused⟩

/-- **Finding a field** records its owner. -/
theorem exec_find (h : Mirrors resolver md reference found) (field : String) :
    ∃ md', exec (find resolver field) md = (reference.owner resolver field, md') ∧
      Mirrors resolver md' reference (found ++ (reference.owner resolver field).toOption.toList) := by
  obtain ⟨md', hexec, hgrows⟩ := Metadata.exec_find h.faithful field
  have hused : wp (find resolver field) _ _ md := wp_find_used field md
  rw [h.owner_eq] at hexec
  refine ⟨md', hexec, h.grow hgrows ?_⟩
  cases howner : reference.owner resolver field with
  | error error =>
    rw [howner] at hexec
    rw [(wp_of_error hexec).mp hused, h.used_eq]
    simp [Except.toOption]
  | ok link =>
    rw [howner] at hexec
    rw [(wp_of_ok hexec).mp hused, h.used_use]
    rfl

/-- The mapping of a field: its owner is recorded, whether there is a mapping of it or not. -/
theorem exec_mappingOf (h : Mirrors resolver md reference found) (field : String) :
    ∃ md', exec (mappingOf resolver field) md = (reference.ownerMapping resolver field, md') ∧
      Mirrors resolver md' reference (found ++ (reference.owner resolver field).toOption.toList) := by
  obtain ⟨md₁, hfind, hmirrors⟩ := h.exec_find field
  rw [mappingOf, exec_bind, hfind, ownerMapping]
  cases howner : reference.owner resolver field with
  | error error =>
    rw [howner] at hmirrors
    exact ⟨md₁, rfl, hmirrors⟩
  | ok link =>
    -- the owner is on record by now, whatever the mapping of its index turns out to be
    rw [howner] at hmirrors
    exact hmirrors.exec_mapping link.index

/-- **One question** is answered as the resolver would, and leaves a mirror. -/
theorem exec_ask (h : Mirrors resolver md reference found) (question : Question) :
    ∃ md', exec (question.ask resolver) md = (question.answer resolver reference, md') ∧
      Mirrors resolver md' (question.redirect reference) (found ++ question.found resolver reference) := by
  -- answers are only wrapped, so that each question is a lookup that is mirrored
  have hmap : ∀ {α : Type} {x : Lookup α} {outcome : Except Error α} {t : Metadata} (f : α → Answer),
      exec x md = (outcome, t) → exec (do return f (← x)) md = (outcome.map f, t) := by
    intro α x outcome t f hexec
    rw [exec_return, hexec]
  cases question with
  | mapping index =>
    obtain ⟨md', hexec, hmirrors⟩ := h.exec_mapping index
    exact ⟨md', hmap _ hexec, (List.append_nil found).symm ▸ hmirrors⟩
  | find field =>
    obtain ⟨md', hexec, hmirrors⟩ := h.exec_find field
    exact ⟨md', hmap _ hexec, hmirrors⟩
  | mappingOf field =>
    obtain ⟨md', hexec, hmirrors⟩ := h.exec_mappingOf field
    exact ⟨md', hmap _ hexec, hmirrors⟩
  | primaryMapping =>
    obtain ⟨md', hexec, hmirrors⟩ := h.exec_mapping reference.primary.index
    refine ⟨md', hmap _ ?_, (List.append_nil found).symm ▸ hmirrors⟩
    rw [primaryMapping, exec_get_bind, h.primary_eq]
    exact hexec
  | setPrimary link =>
    refine ⟨{ md with primary := link }, rfl, (List.append_nil found).symm ▸ ?_⟩
    exact ⟨h.faithful, h.origin_eq, rfl, h.links_eq, h.used_eq⟩

/-- **Questions** are answered as the resolver would, and leave a mirror. -/
theorem asked_spec (h : Mirrors resolver md reference found) (questions : List Question) :
    (asked resolver questions md).1 = askedAfresh resolver questions reference ∧
      Mirrors resolver (asked resolver questions md).2 (questions.foldl Question.redirect reference)
        (found ++ foundAfresh resolver questions reference) := by
  induction questions generalizing md reference found with
  | nil =>
    rw [foundAfresh, List.append_nil]
    exact ⟨rfl, h⟩
  | cons question rest ih =>
    -- the reference goes along: its primary link is all that a question changes
    obtain ⟨md', hexec, hmirrors⟩ := h.exec_ask question
    obtain ⟨hanswers, hlast⟩ := ih hmirrors
    rw [asked, hexec, askedAfresh, foundAfresh, ← List.append_assoc]
    exact ⟨congrArg _ hanswers, hlast⟩

end Mirrors

/-! ## Economy -/

section Economy

variable {α β γ : Type}

/-- **An economical step** from some metadata: what it fetches was not there before and is fetched once, and another
resolver makes no difference if it agrees on that, and on what there is no mapping of. So nothing that was fetched is
asked for again, and every mapping that is answered is kept. -/
structure Fetches (step : Resolver → Metadata → α × Metadata) (resolver : Resolver) (md : Metadata)
    (fetched : List (String × Mapping)) : Prop where
  fetched_eq : (step resolver md).2.fetched = fetched ++ md.fetched
  nodup : (Keyed.keys fetched).Nodup
  absent : ∀ index ∈ Keyed.keys fetched, index ∉ Keyed.keys md.fetched
  agree : ∀ other : Resolver, (∀ index, index ∉ Keyed.keys md.fetched →
    (index ∈ Keyed.keys fetched ∨ ∃ error, resolver.mapping index = .error error) →
      other.mapping index = resolver.mapping index) → step other md = step resolver md

/-- **Economy** of steps: each of them is economical from all metadata. -/
def Economical (step : Resolver → Metadata → α × Metadata) : Prop :=
  ∀ resolver md, ∃ fetched, Fetches step resolver md fetched

namespace Economical

/-- What asks for no mapping and leaves those that were fetched alone. -/
theorem of_still {step : Metadata → α × Metadata} (h : ∀ md, (step md).2.fetched = md.fetched) :
    Economical fun _ => step :=
  fun _ md => ⟨[], h md, List.nodup_nil, by simp [Keyed.keys], fun _ _ => rfl⟩

/-- **One economical step after another** is economical. -/
theorem andThen {step : Resolver → Metadata → α × Metadata} {next : α → Resolver → Metadata → β × Metadata}
    (hstep : Economical step) (hnext : ∀ a, Economical (next a)) :
    Economical fun resolver md => next (step resolver md).1 resolver (step resolver md).2 := by
  intro resolver md
  obtain ⟨first, hfirst⟩ := hstep resolver md
  obtain ⟨second, hsecond⟩ := hnext (step resolver md).1 resolver (step resolver md).2
  have hkeys : ∀ index, index ∈ Keyed.keys (step resolver md).2.fetched ↔
      index ∈ Keyed.keys first ∨ index ∈ Keyed.keys md.fetched := by
    intro index
    rw [hfirst.fetched_eq, Keyed.keys, List.map_append, List.mem_append]
    rfl
  have hboth : Keyed.keys (second ++ first) = Keyed.keys second ++ Keyed.keys first := List.map_append
  refine ⟨second ++ first, ?_, ?_, fun index hindex => ?_, fun other hother => ?_⟩
  · rw [hsecond.fetched_eq, hfirst.fetched_eq, List.append_assoc]
  · rw [hboth, List.nodup_append]
    refine ⟨hsecond.nodup, hfirst.nodup, fun index hin index' hin' heq => ?_⟩
    exact hsecond.absent index hin ((hkeys index).mpr (.inl (heq ▸ hin')))
  · rw [hboth, List.mem_append] at hindex
    rcases hindex with hin | hin
    · exact fun hold => hsecond.absent index hin ((hkeys index).mpr (.inr hold))
    · exact hfirst.absent index hin
  · -- what is fetched by either step is fetched by both, and the second step asks for less
    have hagree := hfirst.agree other fun index habsent hcase => hother index habsent
      (hcase.imp_left fun hin => hboth ▸ List.mem_append_right _ hin)
    have hagree' := hsecond.agree other fun index habsent hcase => hother index
      (fun hold => habsent ((hkeys index).mpr (.inr hold)))
      (hcase.imp_left fun hin => hboth ▸ List.mem_append_left _ hin)
    simp only [hagree, hagree']

theorem pure (a : α) : Economical fun _ => exec (pure a : Lookup α) :=
  of_still fun md => show md.fetched = md.fetched from rfl

theorem get : Economical fun _ => exec (get : Lookup Metadata) :=
  of_still fun md => show md.fetched = md.fetched from rfl

/-- A sequence of lookups goes on as long as they succeed. -/
theorem bind {x : Resolver → Lookup α} {f : α → Resolver → Lookup β}
    (hx : Economical fun resolver => exec (x resolver)) (hf : ∀ a, Economical fun resolver => exec (f a resolver)) :
    Economical fun resolver => exec (x resolver >>= fun a => f a resolver) := by
  have hnext : ∀ outcome : Except Error α, Economical fun resolver =>
      exec (mapping.liftExcept outcome >>= fun a => f a resolver) := by
    rintro (error | a)
    · show Economical fun _ md => ((.error error : Except Error β), md)
      exact of_still fun _ => rfl
    · exact hf a
  have heq : (fun resolver => exec (x resolver >>= fun a => f a resolver)) = fun resolver md =>
      exec (mapping.liftExcept (exec (x resolver) md).1 >>= fun a => f a resolver) (exec (x resolver) md).2 := by
    funext resolver md
    rw [exec_bind]
    rcases exec (x resolver) md with ⟨_ | _, _⟩ <;> rfl
  rw [heq]
  exact hx.andThen hnext

/-- **The mapping of an index** is asked for only if it was not fetched before. -/
theorem mapping (index : String) : Economical fun resolver => exec (mapping resolver index) := by
  intro resolver md
  cases hfind : Keyed.find? index md.fetched with
  | some found =>
    have hexec : ∀ resolver, exec (Metadata.mapping resolver index) md = (.ok found, md) := by
      intro resolver
      rw [Metadata.mapping, exec_get_bind, hfind]
      rfl
    exact ⟨[], by rw [hexec]; rfl, List.nodup_nil, by simp [Keyed.keys], fun other _ => by rw [hexec, hexec]⟩
  | none =>
    have habsent : index ∉ Keyed.keys md.fetched := by
      rw [← Keyed.isSome_find?_iff, hfind]
      simp
    have herror : ∀ (resolver : Resolver) error, resolver.mapping index = .error error →
        exec (Metadata.mapping resolver index) md = (.error error, md) := by
      intro resolver error hanswer
      rw [Metadata.mapping, exec_get_bind, hfind, hanswer]
      rfl
    have hok : ∀ (resolver : Resolver) found, resolver.mapping index = .ok found →
        exec (Metadata.mapping resolver index) md =
          (.ok found, { md with fetched := (index, found) :: md.fetched }) := by
      intro resolver found hanswer
      rw [Metadata.mapping, exec_get_bind, hfind, hanswer]
      rfl
    cases hanswer : resolver.mapping index with
    | error error =>
      refine ⟨[], ?_, List.nodup_nil, by simp [Keyed.keys], fun other hother => ?_⟩
      · rw [herror resolver error hanswer]
        rfl
      · -- a resolver that agrees on what there is no mapping of refuses it as well
        have hagree := hother index habsent (.inr ⟨error, hanswer⟩)
        rw [herror resolver error hanswer, herror other error (hagree.trans hanswer)]
    | ok found =>
      refine ⟨[(index, found)], ?_, List.nodup_singleton index, ?_, fun other hother => ?_⟩
      · rw [hok resolver found hanswer]
        rfl
      · simpa [Keyed.keys] using habsent
      · have hagree := hother index habsent (.inl (List.mem_singleton.mpr rfl))
        rw [hok resolver found hanswer, hok other found (hagree.trans hanswer)]

theorem firstWithField (field : String) (links : List Link) :
    Economical fun resolver => exec (firstWithField resolver field links) := by
  induction links with
  | nil => exact .pure none
  | cons link rest ih =>
    refine (mapping link.index).bind fun found => ?_
    split
    · exact .pure _
    · exact ih

/-- **Finding a field** is economical. -/
theorem find (field : String) : Economical fun resolver => exec (find resolver field) := by
  have hlocate : Economical fun resolver => exec (locate resolver field) := by
    refine get.bind fun md => ?_
    split
    · exact .pure _
    · exact (firstWithField field _).bind fun owner => .pure _
  refine hlocate.bind fun link => .bind (.of_still fun md => ?_) fun _ => .pure link
  show (use link md).fetched = md.fetched
  unfold use
  split <;> rfl

/-- Every question is economical. -/
theorem ask (question : Question) : Economical fun resolver => exec (question.ask resolver) := by
  cases question with
  | mapping index => exact (mapping index).bind fun _ => .pure _
  | find field => exact (find field).bind fun _ => .pure _
  | mappingOf field => exact ((find field).bind fun link => mapping link.index).bind fun _ => .pure _
  | primaryMapping => exact (get.bind fun md => mapping md.primary.index).bind fun _ => .pure _
  | setPrimary link => exact .bind (.of_still fun _ => rfl) fun _ => .pure _

/-- **Questions are economical**, whatever their answers. -/
theorem asked (questions : List Question) : Economical fun resolver => asked resolver questions := by
  induction questions with
  | nil => exact of_still fun _ => rfl
  | cons question rest ih =>
    have hnext : ∀ answer, Economical fun resolver md =>
        (answer :: (Metadata.asked resolver rest md).1, (Metadata.asked resolver rest md).2) := by
      intro answer resolver md
      obtain ⟨fetched, hfetches⟩ := ih resolver md
      exact ⟨fetched, hfetches.fetched_eq, hfetches.nodup, hfetches.absent, fun other hother => by
        rw [hfetches.agree other hother]⟩
    exact (ask question).andThen hnext

end Economical

end Economy

/-! ## From the start on -/

/-- The outcome of a start if the resolver is asked for one mapping after the other. -/
def allMapped (resolver : Resolver) : List String → Except Error Unit
  | [] => .ok ()
  | index :: rest =>
    match resolver.mapping index with
    | .error error => .error error
    | .ok _ => allMapped resolver rest

/-- Fetching mappings is asking for them, up to the first one that there is not. -/
theorem fetchAll_spec (hf : md.Faithful resolver) (indexes : List String) :
    (exec (fetchAll resolver indexes) md).1 = allMapped resolver indexes ∧
      ((exec (fetchAll resolver indexes) md).1 = .ok () →
        (exec (fetchAll resolver indexes) md).2 = (asked resolver (indexes.map .mapping) md).2) := by
  induction indexes generalizing md with
  | nil => exact ⟨rfl, fun _ => rfl⟩
  | cons index rest ih =>
    obtain ⟨md', hexec, hgrows⟩ := exec_mapping hf index
    have hask : (exec ((Question.mapping index).ask resolver) md).2 = md' := by
      rw [Question.ask, exec_bind, hexec]
      cases resolver.mapping index <;> rfl
    rw [fetchAll, exec_bind, hexec, allMapped, List.map_cons, asked]
    simp only [hask]
    cases resolver.mapping index with
    | error error => exact ⟨rfl, fun hok => absurd hok (by simp)⟩
    | ok found => exact ih (hgrows.faithful hf)

/-- **Starting** succeeds if there are all mappings; then it is asking for those of the links. -/
theorem start_asked (resolver : Resolver) (index : String) (links : List Link) :
    (start resolver index links).map (fun _ => ()) = allMapped resolver (index :: links.map (·.index)) ∧
      ∀ md, start resolver index links = .ok md → ∃ mapping, resolver.mapping index = .ok mapping ∧
        md = (asked resolver (links.map fun link => .mapping link.index) (opened mapping index links)).2 := by
  cases hmapping : resolver.mapping index with
  | error error =>
    have hstart : start resolver index links = .error error := by
      simp only [start, hmapping]
      rfl
    rw [hstart, allMapped, hmapping]
    exact ⟨rfl, fun md hok => absurd hok (by simp)⟩
  | ok mapping =>
    obtain ⟨houtcome, hlast⟩ := fetchAll_spec (opened_faithful hmapping links) (links.map (·.index))
    rcases hexec : exec (fetchAll resolver (links.map (·.index))) (opened mapping index links) with ⟨outcome, md'⟩
    rw [hexec] at houtcome hlast
    have hrun : (fetchAll resolver (links.map (·.index))).run (opened mapping index links) = (outcome, md') := hexec
    have hstart : start resolver index links = outcome.map fun _ => md' := by
      unfold opened at hrun
      simp only [start, hmapping, bind, Except.bind, hrun]
      cases outcome <;> rfl
    rw [hstart, allMapped, hmapping]
    cases outcome with
    | error error => exact ⟨houtcome, fun md hok => absurd hok (by simp [Except.map])⟩
    | ok _ =>
      refine ⟨houtcome, fun md hok => ⟨mapping, rfl, ?_⟩⟩
      have hmd : md' = md := Except.ok.inj hok
      rw [← hmd]
      exact (hlast rfl).trans (by rw [List.map_map]; rfl)

/-- Mappings are fetched once, from an opened index on. -/
theorem nodup_asked (resolver : Resolver) (mapping : Mapping) (index : String) (links : List Link)
    (questions : List Question) :
    (Keyed.keys (asked resolver questions (opened mapping index links)).2.fetched).Nodup := by
  obtain ⟨fetched, hfetches⟩ := Economical.asked questions resolver (opened mapping index links)
  rw [hfetches.fetched_eq, Keyed.keys, List.map_append, List.nodup_append]
  refine ⟨hfetches.nodup, List.nodup_singleton index, fun key hkey other hother heq => ?_⟩
  exact hfetches.absent key hkey (heq ▸ hother)

/-- Questions that set no primary link leave it as it is. -/
theorem foldl_redirect {questions : List Question} (h : ∀ link, .setPrimary link ∉ questions) (md : Metadata) :
    questions.foldl Question.redirect md = md := by
  induction questions generalizing md with
  | nil => rfl
  | cons question rest ih =>
    have hrest := ih fun link hlink => h link (List.mem_cons_of_mem question hlink)
    cases question with
    | setPrimary link => exact absurd List.mem_cons_self (h link)
    | _ => exact hrest md

/-- **The metadata is transparent and accounts for its use.** A start succeeds, or fails with the first error, as if
the resolver was asked for the mapping of the index and of each link in turn. Whatever the metadata is asked then, and
with whatever outcomes: it answers as the resolver would if it was asked afresh each time; it has on record the links
that were found by looking up fields, each once and in the order in which they were found first; what was fetched is
what the resolver answers, once for each index, so that nothing is asked for twice; and a field belongs to the same
link until another primary link is set. -/
theorem start_transparent (resolver : Resolver) (index : String) (links : List Link) :
    (start resolver index links).map (fun _ => ()) = allMapped resolver (index :: links.map (·.index)) ∧
      (∀ questions, Economical fun resolver => asked resolver questions) ∧
      ∀ md, start resolver index links = .ok md → ∃ mapping, resolver.mapping index = .ok mapping ∧
        md = (asked resolver (links.map fun link => .mapping link.index) (opened mapping index links)).2 ∧
        ∀ questions,
          (asked resolver questions md).1 = askedAfresh resolver questions (opened mapping index links) ∧
          (asked resolver questions md).2.used =
            (foundAfresh resolver questions (opened mapping index links)).eraseDups ∧
          (asked resolver questions md).2.Faithful resolver ∧
          (Keyed.keys (asked resolver questions md).2.fetched).Nodup ∧
          ∀ later, (∀ link, .setPrimary link ∉ later) → ∀ field,
            (exec (find resolver field) (asked resolver (questions ++ later) md).2).1 =
              (exec (find resolver field) (asked resolver questions md).2).1 := by
  obtain ⟨houtcome, hstarted⟩ := start_asked resolver index links
  refine ⟨houtcome, Economical.asked, fun md hstart => ?_⟩
  obtain ⟨mapping, hmapping, hmd⟩ := hstarted md hstart
  obtain ⟨_, hmapping', hfaithful, -, horigin, hprimary, hlinks, hused⟩ := start_spec hstart
  obtain rfl := Except.ok.inj (hmapping.symm.trans hmapping')
  have hmirrors : Mirrors resolver md (opened mapping index links) [] :=
    ⟨hfaithful, horigin, hprimary, hlinks, hused⟩
  refine ⟨mapping, hmapping, hmd, fun questions => ?_⟩
  obtain ⟨hanswers, hlast⟩ := hmirrors.asked_spec questions
  refine ⟨hanswers, hlast.used_eq, hlast.faithful, ?_, fun later hlater field => ?_⟩
  · have hnodup := nodup_asked resolver mapping index links
      ((links.map fun link => .mapping link.index) ++ questions)
    rwa [asked_append, ← hmd] at hnodup
  · obtain ⟨-, hthen⟩ := hlast.asked_spec later
    obtain ⟨_, hfind, -⟩ := hlast.exec_find field
    obtain ⟨_, hfind', -⟩ := hthen.exec_find field
    rw [asked_append, hfind', hfind, foldl_redirect hlater]

/-- Books, and their authors under two links. -/
def shelf : Resolver := Cluster.resolver { mappings := [
  ("authors", (Mapping.keyed "authors" "id").withField "name" { type := .keyword none }),
  ("books", (Mapping.keyed "books" "id").withField "title" { type := .plainText })] }

/-- The links of the shelf, of which the first one has a name. -/
def shelfLinks : List Link := [⟨some "author", "author", "authors", "id"⟩, .unnamed "editor" "authors" "id"]

/-- The authors are found by name under their first link until they are the primary index under the second one; then
the titles belong to the origin. -/
theorem start_transparent_shelf : ∃ md, start shelf "books" shelfLinks = .ok md ∧
    (asked shelf [.find "name", .mappingOf "author.name", .setPrimary (.unnamed "editor" "authors" "id"), .find "name",
        .find "title"] md).2.used =
      [⟨some "author", "author", "authors", "id"⟩, .unnamed "editor" "authors" "id", .unnamed "id" "books" "id"] := by
  obtain ⟨houtcome, -, hstarted⟩ := start_transparent shelf "books" shelfLinks
  have hmapped : allMapped shelf ("books" :: shelfLinks.map (·.index)) = .ok () := by decide
  rw [hmapped] at houtcome
  cases hstart : start shelf "books" shelfLinks with
  | error error =>
    rw [hstart] at houtcome
    exact absurd houtcome (by simp [Except.map])
  | ok md =>
    obtain ⟨mapping, hmapping, -, hasked⟩ := hstarted md hstart
    obtain ⟨-, hused, -⟩ := hasked [.find "name", .mappingOf "author.name",
      .setPrimary (.unnamed "editor" "authors" "id"), .find "name", .find "title"]
    obtain rfl := Except.ok.inj hmapping
    exact ⟨md, rfl, hused.trans (by decide)⟩

end Metadata

end LinkedSearch
