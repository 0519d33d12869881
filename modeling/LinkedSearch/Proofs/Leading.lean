import LinkedSearch.Proofs.Evolution

/-! # Lookups and changes of the draft

What the smallest parts of the compiler do, each as an evolution with a known result:

* `Looked`, `Looks`: a state with more looked up, and a computation that does nothing else. The
  answers are those of the resolver.
* `leads_labelOf`, `leads_queryOf`, …: what is read from the draft.
* `leads_report`, `leads_scan`, `leads_push`, `leads_setChild`: what is written.
* `leaf_looks`, `proximity_looks`, `sharedPath_looks`: predicates look things up. -/

namespace LinkedSearch.Resolver

variable (resolver : Resolver)

/-- Whether a hop is the primary key of its index. -/
def isKeyHop (hop : String) : Except Error Bool :=
  if (Hop.index hop).isEmpty then .ok false
  else (resolver.mapping (Hop.index hop)).map (·.isPrimaryKey (Hop.field hop))

/-- The fields at both ends of a join path, and whether they are primary keys right next to each
other. -/
def joinFields : List String → Except Error (String × String × Bool)
  | [left, right] =>
    match resolver.isKeyHop left with
    | .ok true => (resolver.isKeyHop right).map fun keys => (Hop.field left, Hop.field right, keys)
    | .ok false => .ok (Hop.field left, Hop.field right, false)
    | .error error => .error error
  | [left, middle, right] =>
    if resolver.equivalent left middle && resolver.equivalent middle right then
      .ok (Hop.field left, Hop.field right, false)
    else .error (.unrelatedHops left middle right)
  | path => .error (.unsupportedIndirection path.length)

end LinkedSearch.Resolver

namespace LinkedSearch.Compile

open Query (Arena Kind Label NodeId Tree)
open Schema (Mapping)

variable {α β : Type} {env : Environment} {p q : Progress} {E : Error → Progress → Prop}

/-! ## Lookups -/

/-- **Looked**: the same state with more looked up. -/
def Looked (env : Environment) (p q : Progress) : Prop :=
  ∃ md, p.metadata.Grows env.resolver md ∧ q = { p with metadata := md }

namespace Looked

theorem refl (p : Progress) : Looked env p p := ⟨p.metadata, .refl _, rfl⟩

theorem trans {s : Progress} (h : Looked env p q) (h' : Looked env q s) : Looked env p s := by
  obtain ⟨md, hgrows, rfl⟩ := h
  obtain ⟨md', hgrows', rfl⟩ := h'
  exact ⟨md', hgrows.trans hgrows', rfl⟩

theorem evolves (h : Looked env p q) (hp : Sound env p) : Evolves env p q := by
  obtain ⟨md, hgrows, rfl⟩ := h
  exact .look hp hgrows

theorem draft_eq (h : Looked env p q) : q.draft = p.draft := by
  obtain ⟨md, -, rfl⟩ := h
  rfl

end Looked

/-- **Looking**: a computation that, whatever its outcome, only looks things up. -/
def Looks (env : Environment) (x : Compile α) (p : Progress) : Prop :=
  ∃ outcome q, exec x p = (outcome, q) ∧ Looked env p q

namespace Looks

theorem leads {x : Compile α} (h : Looks env x p) (hp : Sound env p) :
    Leads env x (fun _ q => Looked env p q) p := by
  obtain ⟨outcome, q, hexec, hlooked⟩ := h
  cases outcome with
  | error e => exact (wp_of_error hexec).mpr (hlooked.evolves hp)
  | ok a => exact (wp_of_ok hexec).mpr ⟨hlooked.evolves hp, hlooked⟩

theorem pure (a : α) : Looks env (pure a) p := ⟨_, p, rfl, .refl p⟩

theorem throw (e : Error) : Looks env (throw e : Compile α) p := ⟨_, p, rfl, .refl p⟩

theorem bind {x : Compile β} {f : β → Compile α} (hx : Looks env x p)
    (hf : ∀ b q, Looked env p q → Looks env (f b) q) : Looks env (x >>= f) p := by
  obtain ⟨outcome, q, hexec, hpq⟩ := hx
  unfold Looks
  rw [exec_bind, hexec]
  cases outcome with
  | error e => exact ⟨_, q, rfl, hpq⟩
  | ok b =>
    obtain ⟨outcome, s, hexec', hqs⟩ := hf b q hpq
    exact ⟨outcome, s, hexec', hpq.trans hqs⟩

/-- What agrees with itself only looks things up. -/
theorem of_agrees {x : Compile α} (h : Agrees env x x p p) : Looks env x p := by
  obtain ⟨outcome, md, -, hx, -, hgrows, -⟩ := h _ _ (.refl _) (.refl _)
  exact ⟨outcome, { p with metadata := md }, hx, md, hgrows, rfl⟩

end Looks

/-- A lookup with a known answer. -/
theorem exec_look_of {lookup : Lookup α} {answer : Except Error α}
    (h : ∃ md, exec lookup p.metadata = (answer, md) ∧ p.metadata.Grows env.resolver md) :
    ∃ q, exec (look lookup) p = (answer, q) ∧ Looked env p q := by
  obtain ⟨md, hexec, hgrows⟩ := h
  refine ⟨{ p with metadata := md }, ?_, md, hgrows, rfl⟩
  rw [exec_look, hexec]

/-- A known answer leads to itself. -/
theorem leads_of_exec {x : Compile α} {answer : Except Error α} (hp : Sound env p)
    (h : ∃ q, exec x p = (answer, q) ∧ Looked env p q) :
    Leads env x (fun a q => Looked env p q ∧ answer = .ok a) p := by
  obtain ⟨q, hexec, hlooked⟩ := h
  cases answer with
  | error e => exact (wp_of_error hexec).mpr (hlooked.evolves hp)
  | ok a => exact (wp_of_ok hexec).mpr ⟨hlooked.evolves hp, hlooked, rfl⟩

/-- The mapping of an index is what the resolver says it is. -/
theorem exec_mapping (hp : Sound env p) (index : String) :
    ∃ q, exec (mapping env index) p = (env.resolver.mapping index, q) ∧ Looked env p q :=
  exec_look_of (Metadata.exec_mapping hp.faithful index)

/-- The owner of a field is the one that the resolver's answers give. -/
theorem exec_ownerOf (hp : Sound env p) (field : String) :
    ∃ q, exec (ownerOf env field) p = (p.metadata.owner env.resolver field, q) ∧
      Looked env p q :=
  exec_look_of (Metadata.exec_find hp.faithful field)

/-- The mapping of the owner of a field. -/
theorem exec_mappingOf (hp : Sound env p) (field : String) :
    ∃ q, exec (mappingOf env field) p = (p.metadata.ownerMapping env.resolver field, q) ∧
      Looked env p q :=
  exec_look_of (Metadata.exec_mappingOf hp.faithful field)

theorem mapping_looks (hp : Sound env p) (index : String) : Looks env (mapping env index) p :=
  ⟨_, exec_mapping hp index⟩

theorem mappingOf_looks (hp : Sound env p) (field : String) : Looks env (mappingOf env field) p :=
  ⟨_, exec_mappingOf hp field⟩

/-! ## Reading and changing the draft -/

/-- The label of a node. -/
theorem leads_labelOf (hp : Sound env p) (id : NodeId) :
    Leads env (labelOf id) (fun l q => l = p.draft.arena.label id ∧ q = p) p :=
  ⟨.refl hp, rfl, rfl⟩

theorem leads_childrenOf (hp : Sound env p) (id : NodeId) :
    Leads env (childrenOf id) (fun l q => l = p.draft.arena.children id ∧ q = p) p :=
  ⟨.refl hp, rfl, rfl⟩

theorem leads_arena (hp : Sound env p) :
    Leads env arena (fun a q => a = p.draft.arena ∧ q = p) p :=
  ⟨.refl hp, rfl, rfl⟩

/-- The query of an expansion. -/
theorem exec_queryOf {n c : NodeId} (hc : p.draft.arena.child? n 0 = some c) :
    exec (queryOf n) p = (.ok c, p) := by
  rw [queryOf, exec_arena_bind, hc]
  rfl

/-- There is no query in an expansion without children. -/
theorem exec_queryOf_none {n : NodeId} (hc : p.draft.arena.child? n 0 = none) :
    exec (queryOf n) p = (.error .emptyExpansion, p) := by
  rw [queryOf, exec_arena_bind, hc]
  rfl

/-- The query of an expansion, if it has one. -/
theorem leads_queryOf (hp : Sound env p) (id : NodeId) :
    Leads env (queryOf id) (fun n q => p.draft.arena.child? id 0 = some n ∧ q = p) p := by
  unfold queryOf
  refine (leads_arena hp).bind fun arena q _ h => ?_
  obtain ⟨rfl, rfl⟩ := h
  split
  · next n hn => exact .pure hp ⟨hn, rfl⟩
  · exact .throw hp

/-- The link of a node that has one. -/
theorem exec_linkOf (h : (p.draft.arena.label n).kind.link? = some link) :
    exec (linkOf n) p = (.ok link, p) := by
  rw [linkOf, exec_labelOf_bind]
  simp only [h]
  rfl

/-- The link of an expansion. -/
theorem leads_linkOf (hp : Sound env p) (id : NodeId) :
    Leads env (linkOf id) (fun link q => (p.draft.arena.label id).kind.link? = some link ∧ q = p)
      p := by
  unfold linkOf
  refine (leads_labelOf hp id).bind fun label q _ h => ?_
  obtain ⟨rfl, rfl⟩ := h
  simp only
  split
  · next link hlink => exact .pure hp ⟨hlink, rfl⟩
  · exact .throw hp

/-- The report that is made in a state. -/
def reportOn (p : Progress) (id : NodeId) (link : Link) (query : Tree) (resolution : Resolution) :
    Report where
  id := id
  link := link
  generated := (p.draft.arena.label id).kind.isGenerated
  query := query
  enclosing := (p.draft.arena.ancestors id).filterMap fun ancestor =>
    (p.draft.arena.label ancestor).kind.link?.map fun link => (ancestor, link)
  scopeDepth := p.scopeDepth
  resolution := resolution

/-- Making a genuine report on an expansion that is not scanned. -/
theorem leads_report (hp : Sound env p) (id : NodeId) (link : Link) (query : Tree)
    (resolution : Resolution) (hresolution : resolution.request? = none)
    (h : (reportOn p id link query resolution).Genuine env p) :
    Leads env (report id link query resolution)
      (fun _ q => q = { p with reports := p.reports ++ [reportOn p id link query resolution] }) p := by
  have hevolves := Evolves.report hp h
  have hnone : [reportOn p id link query resolution].filterMap (·.resolution.request?) = [] := by
    simpa [reportOn] using hresolution
  rw [hnone, List.append_nil] at hevolves
  exact ⟨hevolves, rfl⟩

/-- **A scan** with the genuine report on it changes nothing but the scans and the reports. -/
theorem leads_scan (hp : Sound env p) (id : NodeId) (link : Link) (query : Tree)
    (request : ScanRequest) (h : (reportOn p id link query (.scan request)).Genuine env p) :
    Leads env (report id link query (.scan request) >>= fun _ => scan env request)
      (fun values q => (env.executor.run p.scans request).outcome = .ok values ∧
        q = { p with
          reports := p.reports ++ [reportOn p id link query (.scan request)]
          scans := p.scans ++ [request] }) p := by
  -- the scan is on record even if it fails
  have hevolves := Evolves.report hp h
  unfold Leads scan report
  rw [wp_bind, wp_modify, wp_bind, wp_get, wp_bind, wp_modify, wp_ofExcept]
  cases (env.executor.run p.scans request).outcome with
  | error e =>
    simp only
    exact hevolves
  | ok values =>
    simp only
    exact ⟨hevolves, trivial, rfl⟩

/-- Pushing a node changes nothing but the arena. -/
theorem leads_push (hp : Sound env p) {label : Label}
    (hlabel : label.kind.isParent = false ∧ label.kind.isExpansion = false) :
    Leads env (push label) (fun id q => id = p.draft.arena.size ∧
      q = { p with draft := { p.draft with arena := (p.draft.arena.push label).1 } }) p := by
  unfold Leads
  rw [wp_push]
  refine ⟨.changeArena hp (hp.ascending.push label) (by simp) ?_ fun i hi => ?_, rfl, rfl⟩
  swap
  · rw [Arena.label_push_of_lt label hi]
    exact ⟨rfl, rfl⟩
  intro i hi
  rcases Nat.lt_trichotomy i p.draft.arena.size with hlt | rfl | hgt
  · exact ⟨i, by rw [Arena.label_push_of_lt label hlt]⟩
  · rw [Arena.label_push_size, hlabel.1, hlabel.2] at hi
    exact absurd hi (by simp)
  · have hsize : (p.draft.arena.push label).1.size ≤ i := by rw [Arena.size_push]; exact hgt
    exact ⟨i, by rw [Arena.label_of_size_le hsize, Arena.label_of_size_le (Nat.le_of_lt hgt)]⟩

/-- Giving an expansion another query. -/
theorem leads_setChild (hp : Sound env p) {id v : NodeId}
    (hasc : (p.draft.arena.setChild id 0 v).Ascending) :
    Leads env (modifyArena fun arena => arena.setChild id 0 v) (fun _ q =>
      q = { p with draft := { p.draft with arena := p.draft.arena.setChild id 0 v } }) p := by
  refine ⟨.changeArena hp hasc (Nat.le_of_eq (Arena.size_setChild ..).symm) ?_ fun i _ => ?_, rfl⟩
  · exact .of_kinds fun i => ⟨i, by rw [Arena.label_setChild]⟩
  · rw [Arena.label_setChild]
    exact ⟨rfl, rfl⟩

/-! ## Join fields -/

theorem isKeyHop_looks (hp : Sound env p) (hop : String) : Looks env (isKeyHop env hop) p := by
  unfold isKeyHop
  simp only
  split
  · exact .pure _
  · exact (mapping_looks hp _).bind fun _ _ _ => .pure _

/-- The answer of the resolver about a hop. -/
theorem exec_isKeyHop (hp : Sound env p) (hop : String) :
    ∃ q, exec (isKeyHop env hop) p = (env.resolver.isKeyHop hop, q) ∧ Looked env p q := by
  unfold isKeyHop Resolver.isKeyHop
  simp only
  split
  · exact ⟨p, rfl, .refl p⟩
  · obtain ⟨q, hexec, hlooked⟩ := exec_mapping hp (Hop.index hop)
    refine ⟨q, ?_, hlooked⟩
    rw [exec_bind, hexec]
    cases env.resolver.mapping (Hop.index hop) <;> rfl

/-- The answer of the resolver about a join path. -/
theorem exec_joinFields (hp : Sound env p) (path : List String) :
    ∃ q, exec (joinFields env path) p = (env.resolver.joinFields path, q) ∧ Looked env p q := by
  rcases path with _ | ⟨left, _ | ⟨middle, _ | ⟨right, _ | ⟨next, rest⟩⟩⟩⟩
  · exact ⟨p, rfl, .refl p⟩
  · exact ⟨p, rfl, .refl p⟩
  · obtain ⟨q, hleft, hlooked⟩ := exec_isKeyHop hp left
    unfold joinFields Resolver.joinFields
    simp only [exec_bind, hleft]
    cases env.resolver.isKeyHop left with
    | error error => exact ⟨q, rfl, hlooked⟩
    | ok isKey =>
      cases isKey with
      | false => exact ⟨q, rfl, hlooked⟩
      | true =>
        obtain ⟨s, hright, hlooked'⟩ := exec_isKeyHop (hlooked.evolves hp).sound middle
        refine ⟨s, ?_, hlooked.trans hlooked'⟩
        simp only [if_true, exec_bind, hright]
        cases env.resolver.isKeyHop middle <;> rfl
  · simp only [joinFields, Resolver.joinFields]
    split
    · exact ⟨p, rfl, .refl p⟩
    · exact ⟨p, rfl, .refl p⟩
  · exact ⟨p, rfl, .refl p⟩

/-- **Join fields**: the fields of the first and the last hop of a path. -/
theorem leads_joinFields (hp : Sound env p) (path : List String) :
    Leads env (joinFields env path) (fun fields q => Looked env p q ∧
      ∃ first last, path.head? = some first ∧ path.getLast? = some last ∧
        fields.1 = Hop.field first ∧ fields.2.1 = Hop.field last) p := by
  unfold joinFields
  split
  · next left right =>
    refine ((isKeyHop_looks hp left).leads hp).bind fun leftKey p₁ e₁ h₁ => ?_
    split
    · refine ((isKeyHop_looks e₁.sound right).leads e₁.sound).bind fun _ p₂ e₂ h₂ => ?_
      exact .pure e₂.sound ⟨h₁.trans h₂, left, right, rfl, rfl, rfl, rfl⟩
    · exact .pure e₁.sound ⟨h₁, left, right, rfl, rfl, rfl, rfl⟩
  · next left middle right =>
    split
    · exact .pure hp ⟨.refl p, left, right, rfl, rfl, rfl, rfl⟩
    · exact .throw hp
  · exact .throw hp

/-! ## Predicates -/

/-- A sound state is a peer of itself. -/
theorem Sound.peers (hp : Sound env p) : Peers env p p :=
  ⟨hp.faithful, hp.faithful, rfl, rfl, .inr rfl, rfl⟩

/-- A predicate looks things up. -/
theorem leaf_looks (hp : Sound env p) (label : Label) : Looks env (leaf env label) p :=
  .of_agrees (leaf_agrees (Sound.peers hp) rfl)

/-- A proximity looks things up. -/
theorem proximity_looks (hp : Sound env p) (label : Label) {id : Nat}
    (hid : id < p.draft.arena.size) : Looks env (proximity env label id) p :=
  .of_agrees (proximity_agrees (Sound.peers hp) hp.ascending hp.ascending label
    (hp.ascending.holds_treeAt id) (hp.ascending.holds_treeAt id) (fun _ _ _ => rfl) hid hid)

/-- The nested path of a scope is looked up. -/
theorem sharedPath_looks (hp : Sound env p) (id : NodeId) : Looks env (sharedPath env id) p :=
  .of_agrees (sharedPath_agrees (Sound.peers hp) hp.ascending hp.ascending
    (hp.ascending.holds_treeAt id) (hp.ascending.holds_treeAt id) fun _ _ _ => rfl)

end LinkedSearch.Compile
