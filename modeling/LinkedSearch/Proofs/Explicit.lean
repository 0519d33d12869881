import LinkedSearch.Proofs.Arena.Relabeling
import LinkedSearch.Proofs.InStep
import LinkedSearch.Proofs.Proximity
import LinkedSearch.Proofs.SemiJoin

/-! # Synthesized links and explicit ones

An expansion over a synthesized link is resolved by code of its own: it takes the fields of its link as they
are and then asks who owns its field, where an explicit one is led along a join path. On surroundings where
join paths lead from field to field, it makes no difference if the link is written by the user instead, as long
as nothing but the primary index owns the field:

* `Label.explicit`: a label whose link counts as written by the user.
* `Straight`: surroundings where join paths lead from field to field.
* `Explicable`: what a link has to be like.
* `Explicated`: two states of which one is the other one with all links made explicit.
* `resolve_inStep`, `nodeWithin_inStep`: resolutions and compilations stay in step. -/

namespace LinkedSearch

open Query (Arena Draft Kind Label NodeId Tree)
open Schema (Mapping)

/-! ## Explicit links -/

namespace Query

/-- A kind whose link counts as written by the user. -/
def Kind.explicit : Kind → Kind
  | expansion link _ => expansion link false
  | kind => kind

/-- A label whose link counts as written by the user. -/
def Label.explicit (label : Label) : Label := { label with kind := label.kind.explicit }

namespace Kind

@[simp] theorem isExpansion_explicit (kind : Kind) : kind.explicit.isExpansion = kind.isExpansion := by
  cases kind <;> rfl

@[simp] theorem link?_explicit (kind : Kind) : kind.explicit.link? = kind.link? := by cases kind <;> rfl

@[simp] theorem isParent_explicit (kind : Kind) : kind.explicit.isParent = kind.isParent := by
  cases kind <;> rfl

@[simp] theorem isLeaf_explicit (kind : Kind) : kind.explicit.isLeaf = kind.isLeaf := by cases kind <;> rfl

@[simp] theorem name_explicit (kind : Kind) : kind.explicit.name = kind.name := by cases kind <;> rfl

@[simp] theorem isGenerated_explicit (kind : Kind) : kind.explicit.isGenerated = false := by
  cases kind <;> rfl

end Kind

namespace Label

/-- Links are made explicit without touching anything else. -/
theorem mild_explicit : Label.Mild Label.explicit :=
  ⟨rfl, fun _ => rfl, fun _ _ => rfl, fun label => label.kind.isExpansion_explicit⟩

/-- Only synthesized links are changed. -/
theorem explicit_of_isGenerated {label : Label} (h : label.kind.isGenerated = false) :
    label.explicit = label := by
  obtain ⟨kind, field, operator, boost, nestedPath⟩ := label
  cases kind with
  | expansion link generated =>
    obtain rfl : generated = false := h
    rfl
  | _ => rfl

/-- A node without a link has none that could be synthesized. -/
theorem explicit_of_isExpansion {label : Label} (h : label.kind.isExpansion = false) :
    label.explicit = label :=
  explicit_of_isGenerated (by cases hkind : label.kind <;> simp_all [Kind.isExpansion, Kind.isGenerated])

end Label

end Query

/-! ## Related states -/

/-- **Metadata of the same indexes**: the same links, and nothing was fetched that the resolver would not
give. -/
structure Metadata.Same (resolver : Resolver) (md md' : Metadata) : Prop where
  origin_eq : md'.origin = md.origin
  primary_eq : md'.primary = md.primary
  links_eq : md'.links = md.links
  faithful : md'.Faithful resolver

namespace Metadata.Same

variable {resolver : Resolver} {md md' md'' : Metadata}

theorem owner_eq (h : md.Same resolver md') (field : String) :
    md'.owner resolver field = md.owner resolver field :=
  owner_congr h.origin_eq h.primary_eq h.links_eq field

theorem ownerMapping_eq (h : md.Same resolver md') (field : String) :
    md'.ownerMapping resolver field = md.ownerMapping resolver field := by
  unfold ownerMapping
  rw [h.owner_eq]

theorem grows (h : md.Same resolver md') (hgrows : md'.Grows resolver md'') : md.Same resolver md'' where
  origin_eq := hgrows.origin_eq.trans h.origin_eq
  primary_eq := hgrows.primary_eq.trans h.primary_eq
  links_eq := hgrows.links_eq.trans h.links_eq
  faithful := hgrows.faithful h.faithful

end Metadata.Same

namespace Compile

variable {α : Type} {env : Environment} {md : Metadata} {p q s t : Progress} {n : NodeId} {link target : Link}

/-- **Straight surroundings**: join paths lead from field to field, the names of indexes do not contain the
colon that ends them in a hop, and queries keep to the primary index. -/
structure Straight (env : Environment) : Prop where
  joinPath_eq : ∀ source target, env.resolver.joinPath source target =
    .ok [Hop.of source.index target.leftField, Hop.of target.index target.rightField]
  names : ∀ index mapping, env.resolver.mapping index = .ok mapping → ':' ∉ index.toList
  allowSingleIndex_eq : env.settings.allowSingleIndex = false

/-- **Explicable labels**: a link leads from the primary link to another one whose index exists; and if it is
synthesized, the expansion has no field of its own, and the primary link owns the right field. -/
def Explicable (env : Environment) (md : Metadata) (label : Label) : Prop :=
  ∀ link, label.kind.link? = some link →
    link ≠ md.primary ∧ (∃ mapping, env.resolver.mapping link.index = .ok mapping) ∧
      (label.kind.isGenerated = true →
        label.field = none ∧ md.owner env.resolver link.rightField = .ok md.primary)

/-- What is no expansion has no link. -/
theorem Explicable.of_isExpansion {label : Label} (h : label.kind.isExpansion = false) :
    Explicable env md label := by
  intro link hlink
  cases hkind : label.kind <;> simp_all [Kind.isExpansion, Kind.link?]

/-- The field does not matter where it is left alone if there is none. -/
theorem Explicable.withField {label : Label} (h : Explicable env md label) (change : String → String) :
    Explicable env md { label with field := label.field.map change } := by
  intro link hlink
  obtain ⟨hforeign, hmapped, hgenerated⟩ := h link hlink
  refine ⟨hforeign, hmapped, fun hkind => ?_⟩
  obtain ⟨hfield, howner⟩ := hgenerated hkind
  exact ⟨by rw [hfield]; rfl, howner⟩

/-- **A state with all links made explicit**, and another one with the links that there are. Different things
may have been looked up in them. -/
structure Explicated (env : Environment) (md : Metadata) (p q : Progress) : Prop where
  draft_eq : p.draft = q.draft.relabel Label.explicit
  scopeDepth_eq : p.scopeDepth = q.scopeDepth
  scopePath_eq : p.scopePath = q.scopePath
  aggregating_eq : p.aggregating = q.aggregating
  scans_eq : p.scans = q.scans
  left : md.Same env.resolver p.metadata
  right : md.Same env.resolver q.metadata
  mapped : ∃ mapping, env.resolver.mapping md.primary.index = .ok mapping
  explicable : ∀ n, Explicable env md (q.draft.arena.label n)

namespace Explicated

variable (h : Explicated env md p q)

include h

theorem label_eq (n : NodeId) : p.draft.arena.label n = (q.draft.arena.label n).explicit := by
  rw [h.draft_eq]
  exact Arena.label_relabel Label.mild_explicit.default_eq q.draft.arena n

theorem children_eq (n : NodeId) : p.draft.arena.children n = q.draft.arena.children n := by
  rw [h.draft_eq]
  exact Arena.children_relabel q.draft.arena n

theorem child?_eq (n : NodeId) (index : Nat) :
    p.draft.arena.child? n index = q.draft.arena.child? n index := by
  rw [h.draft_eq]
  exact Arena.child?_relabel q.draft.arena n index

theorem size_eq : p.draft.arena.size = q.draft.arena.size := by
  rw [h.draft_eq]
  exact Arena.size_relabel q.draft.arena

/-- Lookups keep states related. -/
theorem grows {md₁ md₂ : Metadata} (hp : p.metadata.Grows env.resolver md₁)
    (hq : q.metadata.Grows env.resolver md₂) :
    Explicated env md { p with metadata := md₁ } { q with metadata := md₂ } :=
  { h with left := h.left.grows hp, right := h.right.grows hq }

/-- Predicates consult the same facts. -/
theorem peers : Peers env p q where
  faithful_left := h.left.faithful
  faithful_right := h.right.faithful
  aggregating_eq := h.aggregating_eq.symm
  scopeDepth_eq := h.scopeDepth_eq.symm
  scopePath_eq := .inr h.scopePath_eq.symm
  arrayData_eq := by rw [h.draft_eq]; rfl

theorem sameFacts (label : Label) : SameFacts env p q label := by
  unfold SameFacts Metadata.factsOf
  rw [h.left.ownerMapping_eq, h.right.ownerMapping_eq]

/-- Computations that agree keep states related. -/
theorem of_agrees {x y : Compile α} (hagrees : Agrees env x y p q) : InStep (Explicated env md) x y p q :=
  .of_agrees hagrees fun _ _ => h.grows

/-- **Lookups** with the same answer. -/
theorem look {lookup : Lookup α} {outcome : Except Error α}
    (hlookup : ∀ md', md.Same env.resolver md' →
      ∃ md₁, exec lookup md' = (outcome, md₁) ∧ md'.Grows env.resolver md₁) :
    InStep (Explicated env md) (look lookup) (look lookup) p q := by
  obtain ⟨md₁, hp, hleft⟩ := hlookup p.metadata h.left
  obtain ⟨md₂, hq, hright⟩ := hlookup q.metadata h.right
  unfold InStep
  rw [exec_look, exec_look, hp, hq]
  exact ⟨rfl, h.grows hleft hright⟩

theorem mapping (index : String) :
    InStep (Explicated env md) (mapping env index) (Compile.mapping env index) p q :=
  h.look fun _ hsame => Metadata.exec_mapping hsame.faithful index

theorem mappingOf (field : String) :
    InStep (Explicated env md) (mappingOf env field) (Compile.mappingOf env field) p q :=
  h.look fun _ hsame => hsame.ownerMapping_eq field ▸ Metadata.exec_mappingOf hsame.faithful field

theorem ownerOf (field : String) :
    InStep (Explicated env md) (ownerOf env field) (Compile.ownerOf env field) p q :=
  h.look fun _ hsame => hsame.owner_eq field ▸ Metadata.exec_find hsame.faithful field

/-- Changes of the arena that do the same to explicit links. -/
theorem modifyArena {f g : Arena → Arena} (hcommutes : ∀ arena : Arena,
      (f arena).relabel Label.explicit = g (arena.relabel Label.explicit))
    (hexplicable : ∀ n, Explicable env md ((f q.draft.arena).label n)) :
    InStep (Explicated env md) (modifyArena g) (Compile.modifyArena f) p q := by
  refine .modify { h with draft_eq := ?_, explicable := hexplicable }
  rw [h.draft_eq]
  exact congrArg (fun arena => { q.draft with arena }) (hcommutes q.draft.arena).symm

end Explicated

/-! ## Predicates and proximities -/

section Predicates

variable (h : Explicated env md p q)

include h

/-- The clause for a child of a proximity. -/
theorem spanOfChild_explicit {near : Label → NodeId → Compile Span}
    (hnear : ∀ label n, Agrees env (near label n) (near label n) p q) (outer : Label) (n : NodeId) :
    Agrees env (spanOfChild env near outer n) (spanOfChild env near outer n) p q := by
  unfold spanOfChild
  refine .labelOf ?_
  rw [h.label_eq]
  cases hexpansion : (q.draft.arena.label n).kind.isExpansion with
  | false =>
    rw [Label.explicit_of_isExpansion hexpansion]
    generalize q.draft.arena.label n = label
    split
    · next hkind =>
      exact (spanOfPhrase_agrees h.peers outer (h.sameFacts label) (by rw [hkind]; rfl)).bind fun _ => .pure _
    · exact (hnear label n).bind fun _ => .pure _
    · exact (spanOfLeaf_agrees outer.operator outer.fieldName).bind fun _ => .pure _
  | true =>
    -- an expansion stands for no word, whoever has written its link
    generalize q.draft.arena.label n = label at hexpansion
    obtain ⟨kind, field, operator, boost, nestedPath⟩ := label
    cases kind <;> simp [Kind.isExpansion] at hexpansion
    exact Agrees.bind (.throw _) fun _ => .pure _

/-- The clauses of a proximity. -/
theorem nearWithin_explicit (fuel : Nat) (label : Label) (n : NodeId) :
    Agrees env (nearWithin env fuel label n) (nearWithin env fuel label n) p q := by
  induction fuel generalizing label n with
  | zero => exact .throw _
  | succ fuel ih =>
    unfold nearWithin
    refine .childrenOf ?_
    rw [h.children_eq]
    exact (Agrees.mapM_same fun c _ => spanOfChild_explicit h ih label c).bind fun _ => .pure _

theorem proximity_explicit (label : Label) (n : NodeId) :
    Agrees env (proximity env label n) (proximity env label n) p q := by
  unfold proximity
  refine .arena ?_
  rw [h.size_eq]
  exact (nearWithin_explicit h _ label n).bind fun _ => .pure _

/-- The path of a scope, which is that of its leaves. -/
theorem sharedPath_explicit (n : NodeId) : Agrees env (sharedPath env n) (sharedPath env n) p q := by
  -- only leaves count, and their labels are the same in both drafts
  have hlabels : (((p.draft.arena.descendants n).map p.draft.arena.label).filter (·.kind.isLeaf)) =
      (((q.draft.arena.descendants n).map q.draft.arena.label).filter (·.kind.isLeaf)) := by
    have hdescendants : p.draft.arena.descendants n = q.draft.arena.descendants n := by
      rw [h.draft_eq]
      exact Arena.descendants_relabel q.draft.arena n
    rw [hdescendants, List.filter_map, List.filter_map]
    have hleaf : ((·.kind.isLeaf) ∘ p.draft.arena.label : NodeId → Bool) =
        (·.kind.isLeaf) ∘ q.draft.arena.label := by
      funext id
      simp only [Function.comp, h.label_eq, Label.explicit, Kind.isLeaf_explicit]
    rw [hleaf]
    refine List.map_congr_left fun id hid => ?_
    have hleaf : (q.draft.arena.label id).kind.isLeaf = true := (List.mem_filter.mp hid).2
    rw [h.label_eq]
    refine Label.explicit_of_isExpansion ?_
    cases hkind : (q.draft.arena.label id).kind <;> simp_all [Kind.isLeaf, Kind.isExpansion]
  unfold sharedPath
  refine .arena (.arena ?_)
  simp only
  rw [hlabels]
  refine Agrees.foldlM fun label _ shared => ?_
  unfold sharePath
  refine (nestedPathOf_agrees h.peers (h.sameFacts label)).bind fun path => ?_
  split
  · exact .pure _
  · exact .pure _
  · split
    · exact .pure _
    · exact .throw _

end Predicates

/-! ## Nodes that are no expansions -/

section Nodes

variable {recur : NodeId → Compile Fragment}
  (hrecur : ∀ n p q, Explicated env md p q → InStep (Explicated env md) (recur n) (recur n) p q)
  (h : Explicated env md p q)

include hrecur h

/-- A condition that a connective makes of its clauses. -/
theorem wrapped_inStep (wrap : List Fragment → Fragment) (n : NodeId) :
    InStep (Explicated env md) (do return wrap (← (← childrenOf n).mapM recur))
      (do return wrap (← (← childrenOf n).mapM recur)) p q := by
  refine .childrenOf ?_
  rw [h.children_eq]
  exact (InStep.mapM h fun c _ s t hst => hrecur c s t hst).bind fun clauses s t hst => .pure hst _

/-- The clauses of a scope whose path is known. -/
theorem scopeClauses_inStep (ids : List NodeId) :
    InStep (Explicated env md) (scopeClauses recur ids) (scopeClauses recur ids) p q := by
  unfold scopeClauses
  refine InStep.bind (InStep.within ?_ (InStep.mapM ?_ fun c _ s t hst => hrecur c s t hst))
    fun fragments s t hst => ?_
  · exact fun s t hst => { hst with scopeDepth_eq := congrArg (· - 1) hst.scopeDepth_eq }
  · exact { h with scopeDepth_eq := congrArg (· + 1) h.scopeDepth_eq }
  · unfold InStep
    rw [exec_closing, exec_closing]
    refine ⟨congrArg Except.ok (closeScope_congr fragments hst.scopeDepth_eq hst.scopePath_eq), ?_⟩
    unfold closeScope
    by_cases hinner : 0 < t.scopeDepth
    · rw [if_pos hinner, if_pos (hst.scopeDepth_eq ▸ hinner)]
      exact hst
    · rw [if_neg hinner, if_neg (hst.scopeDepth_eq ▸ hinner)]
      exact { hst with scopePath_eq := rfl }

/-- **Scopes.** -/
theorem scope_inStep (n : NodeId) : InStep (Explicated env md) (scope env recur n) (scope env recur n) p q := by
  unfold scope
  refine .childrenOf (.get ?_)
  rw [h.children_eq, h.scopeDepth_eq]
  show InStep (Explicated env md) (if q.scopeDepth = 0 then _ else _) (if q.scopeDepth = 0 then _ else _) p q
  split
  · refine (h.of_agrees (sharedPath_explicit h n)).bind fun path s t hst => ?_
    refine InStep.bind (InStep.modify ?_) fun _ s t hst => scopeClauses_inStep hrecur hst _
    exact { hst with scopePath_eq := rfl }
  · exact scopeClauses_inStep hrecur h _

/-- **Parent and child scopes.** -/
theorem joined_inStep (join : Fragment → Fragment) (n : NodeId) :
    InStep (Explicated env md) (joined env recur join n) (joined env recur join n) p q := by
  unfold joined
  refine .childrenOf ?_
  rw [h.children_eq]
  split
  · exact .pure h _
  · exact (hrecur _ p q h).bind fun F s t hst => .pure hst _

end Nodes

/-! ## Expansions -/

section Reading

variable (h : Explicated env md p q)

include h

theorem queryOf_inStep (n : NodeId) : InStep (Explicated env md) (queryOf n) (queryOf n) p q := by
  unfold queryOf
  refine .arena ?_
  rw [h.child?_eq]
  split
  · exact .pure h _
  · exact .throw h _

/-- The link of an expansion, whoever has written it. -/
theorem linkOf_inStep {f g : Link → Compile α} (n : NodeId)
    (hnext : ∀ link, (q.draft.arena.label n).kind.link? = some link →
      InStep (Explicated env md) (f link) (g link) p q) :
    InStep (Explicated env md) (linkOf n >>= f) (linkOf n >>= g) p q := by
  have hlink : ∀ s : Progress, exec (linkOf n) s = ((s.draft.arena.label n).kind.link?.elim
      (.error (.notAnExpansion (s.draft.arena.label n).kind.name)) .ok, s) := by
    intro s
    unfold linkOf
    rw [exec_labelOf_bind]
    simp only
    cases (s.draft.arena.label n).kind.link? <;> rfl
  unfold InStep
  rw [exec_bind, exec_bind, hlink, hlink, h.label_eq]
  simp only [Label.explicit, Kind.link?_explicit, Kind.name_explicit]
  cases hkind : (q.draft.arena.label n).kind.link? with
  | none => exact ⟨rfl, h⟩
  | some link => exact hnext link hkind

/-- Reports are not compared. -/
theorem report_inStep (n : NodeId) (link link' : Link) (query query' : Tree) (resolution : Resolution) :
    InStep (Explicated env md) (report n link query resolution) (report n link' query' resolution) p q :=
  .modify { h with }

/-- A new node that is no expansion. -/
theorem push_inStep {label : Label} (hlabel : label.kind.isExpansion = false) :
    InStep (Explicated env md) (push label) (push label) p q := by
  unfold push
  refine .arena ?_
  simp only
  rw [Arena.push_snd, Arena.push_snd, h.size_eq]
  refine InStep.bind (.modify { h with draft_eq := ?_, explicable := ?_ }) fun _ s t hst => .pure hst _
  · have hpush := Arena.relabel_push (f := Label.explicit) q.draft.arena label
    rw [Label.explicit_of_isExpansion hlabel] at hpush
    rw [h.draft_eq]
    exact congrArg (fun arena => { q.draft with arena }) hpush.symm
  · exact Arena.forall_label_push h.explicable (.of_isExpansion hlabel)

/-- **Scans** for the same values. -/
theorem scan_inStep (request : ScanRequest) :
    InStep (Explicated env md) (scan env request) (scan env request) p q := by
  unfold scan
  refine .get (InStep.bind (.modify { h with scans_eq := ?_ }) fun _ s t hst => ?_)
  · rw [h.scans_eq]
  · rw [h.scans_eq]
    exact .ofExcept hst _

end Reading

section Joins

variable (henv : Straight env)

include henv

/-- Whether a hop is a primary key can be told if its index exists. -/
theorem isKeyHop_answers (hp : p.metadata.Faithful env.resolver) {index : String}
    (hindex : ∃ mapping, env.resolver.mapping index = .ok mapping) (field : String) :
    ∃ key md', exec (isKeyHop env (Hop.of index field)) p = (.ok key, { p with metadata := md' }) ∧
      p.metadata.Grows env.resolver md' := by
  obtain ⟨mapping, hmapping⟩ := hindex
  have hname := henv.names index mapping hmapping
  unfold isKeyHop
  rw [Hop.index_of hname, Hop.field_of hname]
  simp only
  split
  · exact ⟨false, p.metadata, rfl, .refl _⟩
  · obtain ⟨md', hexec, hgrows⟩ := Metadata.exec_mapping hp index
    refine ⟨mapping.isPrimaryKey field, md', ?_, hgrows⟩
    rw [exec_bind, Compile.mapping, exec_look, hexec, hmapping]
    rfl

/-- **Straight joins** lead from the left field of a link to the right one. -/
theorem joinFields_answers (hp : p.metadata.Faithful env.resolver) {index other : String}
    (hindex : ∃ mapping, env.resolver.mapping index = .ok mapping)
    (hother : ∃ mapping, env.resolver.mapping other = .ok mapping) (left right : String) :
    ∃ keys md', exec (joinFields env [Hop.of index left, Hop.of other right]) p =
        (.ok (left, right, keys), { p with metadata := md' }) ∧ p.metadata.Grows env.resolver md' := by
  have hleft : Hop.field (Hop.of index left) = left := by
    obtain ⟨mapping, hmapping⟩ := hindex
    exact Hop.field_of (henv.names index mapping hmapping) left
  have hright : Hop.field (Hop.of other right) = right := by
    obtain ⟨mapping, hmapping⟩ := hother
    exact Hop.field_of (henv.names other mapping hmapping) right
  obtain ⟨key, md₁, hkey, hgrows⟩ := isKeyHop_answers henv hp hindex left
  unfold joinFields
  simp only [hleft, hright, exec_bind, hkey]
  cases key with
  | false => exact ⟨false, md₁, rfl, hgrows⟩
  | true =>
    obtain ⟨key', md₂, hkey', hgrows'⟩ :=
      isKeyHop_answers (p := { p with metadata := md₁ }) henv (hgrows.faithful hp) hother right
    refine ⟨key', md₂, ?_, hgrows.trans hgrows'⟩
    simp only [if_true]
    rw [exec_bind, hkey']
    rfl

/-- **An expansion over a straight join path** is resolved by the fields of its link, after some lookups. -/
theorem exec_resolveLink (recur : NodeId → Compile Fragment) (hp : p.metadata.Faithful env.resolver)
    (htarget : ∃ mapping, env.resolver.mapping target.index = .ok mapping)
    (hlink : ∃ mapping, env.resolver.mapping link.index = .ok mapping) (n : NodeId) :
    ∃ md', exec (resolveLink env recur n link target) p =
        exec (joinValues env recur n link link.leftField link.rightField) { p with metadata := md' } ∧
      p.metadata.Grows env.resolver md' := by
  obtain ⟨keys, md', hfields, hgrows⟩ :=
    joinFields_answers henv hp htarget hlink link.leftField link.rightField
  refine ⟨md', ?_, hgrows⟩
  unfold resolveLink
  rw [exec_bind, henv.joinPath_eq target link]
  show exec (joinFields env _ >>= _) p = _
  rw [exec_bind, hfields]
  show exec (if _ then _ else _) _ = _
  rw [henv.allowSingleIndex_eq, Bool.and_false, if_neg (by simp)]

end Joins

section Expansions

variable {recur : NodeId → Compile Fragment}
  (hrecur : ∀ n p q, Explicated env md p q → InStep (Explicated env md) (recur n) (recur n) p q)

include hrecur

theorem scanQuery_inStep (h : Explicated env md p q) (n : NodeId) :
    InStep (Explicated env md) (scanQuery recur n) (scanQuery recur n) p q := by
  unfold scanQuery
  refine .get (InStep.within ?_ (hrecur n _ _ { h with aggregating_eq := rfl }))
  exact fun s t hst => { hst with aggregating_eq := h.aggregating_eq }

/-- The condition under which documents are visible. -/
theorem visibility_inStep (h : Explicated env md p q) (n : NodeId) (link : Link) :
    InStep (Explicated env md) (visibility env recur n link) (visibility env recur n link) p q := by
  unfold visibility
  refine (h.mapping link.index).bind fun mapping s t hst => ?_
  split
  · exact .pure hst _
  · refine .get ?_
    have hfind : s.draft.find? (·.kind.isParent) = t.draft.find? (·.kind.isParent) := by
      rw [hst.draft_eq]
      exact t.draft.find?_relabel Label.mild_explicit fun label => label.kind.isParent_explicit
    have hwithin : ∀ scope, s.draft.arena.isWithin n scope = t.draft.arena.isWithin n scope := by
      rw [hst.draft_eq]
      exact Arena.isWithin_relabel t.draft.arena n
    simp only [hfind, hwithin]
    split
    · exact .pure hst _
    · split
      · exact .pure hst _
      · exact (scanQuery_inStep hrecur hst _).bind fun F s t hst => .pure hst _

/-- **Join values.** -/
theorem joinValues_inStep (h : Explicated env md p q) (n : NodeId) (link : Link) (left right : String) :
    InStep (Explicated env md) (joinValues env recur n link left right)
      (joinValues env recur n link left right) p q := by
  unfold joinValues
  refine (queryOf_inStep h n).bind fun queryId p q h => ?_
  refine .labelOf (.arena ?_)
  rw [h.label_eq]
  generalize q.draft.arena.label queryId = label
  generalize p.draft.arena.treeAt queryId = tree
  generalize q.draft.arena.treeAt queryId = tree'
  refine (h.mapping link.index).bind fun linked p q h => ?_
  refine (h.mappingOf left).bind fun leftOwner p q h => ?_
  refine (h.mappingOf right).bind fun rightOwner p q h => ?_
  have hkeys : isKeyQuery label.explicit linked leftOwner rightOwner left right =
      isKeyQuery label linked leftOwner rightOwner left right := by
    obtain ⟨kind, field, operator, boost, nestedPath⟩ := label
    cases kind <;> rfl
  rw [hkeys]
  split
  · exact (report_inStep h n link link tree tree' .keys).bind fun _ p q h => push_inStep h rfl
  · refine (scanQuery_inStep hrecur h queryId).bind fun filter p q h => ?_
    refine (visibility_inStep hrecur h n link).bind fun postFilter p q h => ?_
    refine (report_inStep h n link link tree tree' (.scan _)).bind fun _ p q h => ?_
    exact (scan_inStep h _).bind fun values p q h => push_inStep h rfl

variable (henv : Straight env)

include henv

/-- An expansion with an explicit link, from two targets. -/
theorem resolveLink_inStep (h : Explicated env md p q) {target' : Link}
    (htarget : ∃ mapping, env.resolver.mapping target.index = .ok mapping)
    (htarget' : ∃ mapping, env.resolver.mapping target'.index = .ok mapping)
    (hlink : ∃ mapping, env.resolver.mapping link.index = .ok mapping) (n : NodeId) :
    InStep (Explicated env md) (resolveLink env recur n link target) (resolveLink env recur n link target')
      p q := by
  obtain ⟨md₁, hleft, hgrows⟩ := exec_resolveLink henv recur h.left.faithful htarget hlink n
  obtain ⟨md₂, hright, hgrows'⟩ := exec_resolveLink henv recur h.right.faithful htarget' hlink n
  unfold InStep
  rw [hleft, hright]
  exact joinValues_inStep hrecur (h.grows hgrows hgrows') n link _ _

/-- **An expansion with a synthesized link**, beside the same expansion with an explicit one. The primary link
owns the right field, so that no primary keys are asked for. -/
theorem resolveGenerated_inStep (h : Explicated env md p q) {label : Label} (hfield : label.field = none)
    (htarget : ∃ mapping, env.resolver.mapping target.index = .ok mapping)
    (hlink : ∃ mapping, env.resolver.mapping link.index = .ok mapping)
    (howner : md.owner env.resolver link.rightField = .ok md.primary) (n : NodeId) :
    InStep (Explicated env md) (resolveLink env recur n link target)
      (resolveGenerated env recur n label link md.primary) p q := by
  obtain ⟨md₁, hleft, hgrows⟩ := exec_resolveLink henv recur h.left.faithful htarget hlink n
  have hvalues := joinValues_inStep hrecur (h.grows hgrows (.refl _)) n link link.leftField link.rightField
  unfold resolveGenerated
  refine InStep.bindRight ⟨(congrArg Prod.fst hleft).trans hvalues.1, ?_⟩ fun values s t hst => ?_
  · rw [hleft]
    exact hvalues.2
  · rw [hfield]
    obtain ⟨md₂, hfind, hgrows⟩ := Metadata.exec_find hst.right.faithful link.rightField
    rw [hst.right.owner_eq, howner] at hfind
    have hexec : exec (ownerOf env link.rightField) t = (.ok md.primary, { t with metadata := md₂ }) := by
      rw [Compile.ownerOf, exec_look, hfind]
    rw [exec_bind, Option.getD_none, hexec]
    simp only [if_true]
    exact ⟨rfl, hst.grows (.refl _) hgrows⟩

omit hrecur henv in
/-- What takes the place of an expansion gets its boost. -/
theorem place_inStep (h : Explicated env md p q) (n resolved : NodeId) (label : Label) :
    InStep (Explicated env md)
      (do
        modifyArena fun arena => arena.replace n resolved
        if label.explicit.boost.isSome then
          modifyArena fun arena =>
            arena.modifyLabel n fun new => { new with boost := label.explicit.boost })
      (do
        modifyArena fun arena => arena.replace n resolved
        if label.boost.isSome then
          modifyArena fun arena => arena.modifyLabel n fun new => { new with boost := label.boost }) p q := by
  refine (h.modifyArena (fun arena => Arena.relabel_replace arena n resolved)
    (Arena.forall_label_replace h.explicable n resolved)).bind fun _ p q h => ?_
  show InStep _ (if label.boost.isSome then _ else _) (if label.boost.isSome then _ else _) p q
  split
  · have hboost : ∀ new, Explicable env md new → Explicable env md { new with boost := label.boost } :=
      fun _ hnew => hnew
    exact h.modifyArena (fun arena => Arena.relabel_modifyLabel arena n fun _ => rfl)
      (Arena.forall_label_modifyLabel h.explicable hboost n)
  · exact .pure h _

/-- **Resolution** of an expansion, from two targets. -/
theorem resolve_inStep (h : Explicated env md p q) {target' : Link}
    (htarget : ∃ mapping, env.resolver.mapping target.index = .ok mapping)
    (htarget' : ∃ mapping, env.resolver.mapping target'.index = .ok mapping) (n : NodeId) :
    InStep (Explicated env md) (resolve env recur md.primary target n) (resolve env recur md.primary target' n)
      p q := by
  unfold resolve
  refine .labelOf (linkOf_inStep h n fun link hlink => .get ?_)
  rw [h.label_eq]
  have hexplicable := h.explicable n link hlink
  generalize q.draft.arena.label n = label at hexplicable
  obtain ⟨hforeign, hmapped, hgenerated⟩ := hexplicable
  have hprimary : ∀ empty : Bool, (empty && link == md.primary) = false := fun empty => by simp [hforeign]
  simp only [hprimary, Bool.false_eq_true, if_false, Label.explicit, Kind.isGenerated_explicit]
  -- only one of the two codes takes a synthesized link for what it is
  cases hkind : label.kind.isGenerated with
  | false =>
    simp only [Bool.false_eq_true, if_false]
    exact (resolveLink_inStep hrecur henv h htarget htarget' hmapped n).bind fun resolved p q h =>
      place_inStep h n resolved label
  | true =>
    obtain ⟨hfield, howner⟩ := hgenerated hkind
    simp only [if_true]
    exact (resolveGenerated_inStep hrecur henv h hfield htarget hmapped howner n).bind fun resolved p q h =>
      place_inStep h n resolved label

/-- **Expansions**, whose stack is resolved first. -/
theorem expand_inStep (h : Explicated env md p q) (n : NodeId) :
    InStep (Explicated env md) (expand env recur n) (expand env recur n) p q := by
  unfold expand
  refine linkOf_inStep h n fun link hlink => .arena (.get (.get ?_))
  have hstack : p.draft.arena.expansions n = q.draft.arena.expansions n := by
    rw [h.draft_eq]
    exact Arena.expansions_relabel Label.mild_explicit q.draft.arena n
  rw [hstack, h.left.primary_eq, h.right.primary_eq]
  -- both targets exist, whichever they are
  have htarget : ∀ empty : Bool, ∃ mapping,
      env.resolver.mapping (if empty = true then md.primary else link).index = .ok mapping := by
    intro empty
    cases empty with
    | true => exact h.mapped
    | false => exact (h.explicable n link hlink).2.1
  have hresolve : ∀ {s t}, Explicated env md s t → InStep (Explicated env md)
      (do
        (q.draft.arena.expansions n).reverse.forM
          (resolve env recur md.primary (if p.generated.isEmpty = true then md.primary else link))
        recur n)
      (do
        (q.draft.arena.expansions n).reverse.forM
          (resolve env recur md.primary (if q.generated.isEmpty = true then md.primary else link))
        recur n) s t := fun {s t} hst =>
    (InStep.forM hst fun c _ s t hst =>
      resolve_inStep hrecur henv hst (htarget p.generated.isEmpty) (htarget q.generated.isEmpty) c).bind
        fun _ s t hst => hrecur n s t hst
  cases hname : link.name with
  | none => exact hresolve h
  | some name =>
    refine (h.modifyArena (fun arena => Arena.relabel_stripName Label.mild_explicit arena n name) ?_).bind
      fun _ s t hst => hresolve hst
    exact Arena.forall_label_stripName h.explicable (fun label hlabel => hlabel.withField _) n

/-- **Nodes** are compiled in step if the nodes below them are. -/
theorem node_inStep (h : Explicated env md p q) (n : NodeId) :
    InStep (Explicated env md) (node env recur n) (node env recur n) p q := by
  unfold node
  refine .labelOf ?_
  rw [h.label_eq]
  cases hexpansion : (q.draft.arena.label n).kind.isExpansion with
  | true =>
    generalize q.draft.arena.label n = label at hexpansion
    obtain ⟨kind, field, operator, boost, nestedPath⟩ := label
    cases kind <;> simp [Kind.isExpansion] at hexpansion
    rename_i link generated
    show InStep _ (expansion env recur n false) (expansion env recur n generated) p q
    unfold expansion
    simp only [Bool.false_eq_true, if_false]
    split
    · -- only the synthesized link is pushed; the explicit one leaves the stack of the left state alone
      have hentered : Explicated env md p { q with generated := n :: q.generated } := { h with }
      exact .withinRight (fun s t hst => { hst with }) (expand_inStep hrecur henv hentered n)
    · exact expand_inStep hrecur henv h n
  | false =>
    rw [Label.explicit_of_isExpansion hexpansion]
    generalize q.draft.arena.label n = label at hexpansion
    split
    · exact wrapped_inStep hrecur h _ n
    · exact wrapped_inStep hrecur h _ n
    · refine .get ?_
      rw [h.aggregating_eq]
      split
      · exact .pure h _
      · exact wrapped_inStep hrecur h (fun clauses => .bool [] [] clauses none none) n
    · exact scope_inStep hrecur h n
    · exact joined_inStep hrecur h _ n
    · refine .get ?_
      rw [h.aggregating_eq]
      split
      · exact .pure h _
      · exact joined_inStep hrecur h _ n
    · next hkind => simp [hkind, Kind.isExpansion] at hexpansion
    · exact (h.of_agrees (proximity_explicit h label n)).bind fun F s t hst => .pure hst _
    · exact (h.of_agrees (leaf_agrees h.peers (h.sameFacts label))).bind fun F s t hst => .pure hst _

end Expansions

section Queries

variable (henv : Straight env)

include henv

/-- **Every node** is compiled in step, by induction on how deep a compilation may go. -/
theorem nodeWithin_inStep (fuel : Nat) (n : NodeId) (p q : Progress) (h : Explicated env md p q) :
    InStep (Explicated env md) (nodeWithin env fuel n) (nodeWithin env fuel n) p q := by
  induction fuel generalizing n p q with
  | zero => exact .throw h _
  | succ fuel ih => exact node_inStep ih henv h n

theorem rootQuery_inStep (h : Explicated env md p q) :
    InStep (Explicated env md) (rootQuery env) (rootQuery env) p q := by
  unfold rootQuery
  refine .get ?_
  rw [show p.draft.root = q.draft.root by rw [h.draft_eq]; rfl]
  split
  · unfold query
    refine .arena ?_
    rw [h.size_eq]
    exact nodeWithin_inStep henv _ _ p q h
  · exact .pure h _

end Queries

end Compile

end LinkedSearch
