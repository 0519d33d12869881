import LinkedSearch.Compile.Node
import LinkedSearch.Proofs.Agreement
import LinkedSearch.Proofs.Proximity

/-! # What every compilation keeps

Whether it succeeds or fails, a compilation leaves behind a state from which the next one can start:

* `Sound`: the arena is ascending, and what is known about the indexes is what they are.
* `Evolves`: from one state to a later one. The arena grows and stays sound, the request and the
  links stay, scopes are left again, and every scan is reported.
* `Report.Genuine`: what the state says about a report that is on record, above all that a recorded
  scan asks for what the query of its expansion was compiled to.
* `KeyJoin`: what it says about an expansion that was not scanned because every value qualifies.
* `Compile.Steps`: computations that only ever let a sound state evolve. -/

namespace LinkedSearch

open Query (Arena Kind Label NodeId Tree)
open Schema (Mapping)

/-! ## Sound states -/

/-- **Soundness** of a state. -/
structure Sound (env : Environment) (p : Progress) : Prop where
  ascending : p.draft.arena.Ascending
  faithful : p.metadata.Faithful env.resolver

/-- The request of the scan by which an expansion is resolved. -/
def Resolution.request? : Resolution → Option ScanRequest
  | .scan request => some request
  | _ => none

theorem Resolution.request?_eq_some {resolution : Resolution} {request : ScanRequest} :
    resolution.request? = some request ↔ resolution = .scan request := by
  cases resolution <;> simp [request?]

/-- **Join fields** of an expansion: the fields at both ends of a path to its link, those of a synthesized
link, or the field of the primary link and the key of the linked index. -/
inductive JoinFields (resolver : Resolver) (primary link : Link) : String → String → Prop where
  | ends (target : Link) (path : List String) (first last : String)
      (hpath : resolver.joinPath target link = .ok path) (hfirst : path.head? = some first)
      (hlast : path.getLast? = some last) :
      JoinFields resolver primary link (Hop.field first) (Hop.field last)
  | own : JoinFields resolver primary link link.leftField link.rightField
  | keys (linked : Mapping) (hlinked : resolver.mapping link.index = .ok linked) :
      JoinFields resolver primary link primary.rightField linked.primaryKey

/-- **A join between keys**: the query of an expansion asks for the primary key of the linked index only,
and both join fields are the primary keys of those indexes that they are found in. -/
structure KeyJoin (resolver : Resolver) (md : Metadata) (link : Link) (query : Label)
    (left right : String) (linked leftOwner rightOwner : Mapping) : Prop where
  fields : JoinFields resolver md.primary link left right
  linked_eq : resolver.mapping link.index = .ok linked
  leftOwner_eq : md.ownerMapping resolver left = .ok leftOwner
  rightOwner_eq : md.ownerMapping resolver right = .ok rightOwner
  kind_eq : query.kind = .notNull
  field_eq : query.field = some linked.primaryKey
  left_eq : leftOwner.primaryKey = left
  right_eq : rightOwner.primaryKey = right

/-- **Genuine reports**: what is true of a report on record.

An expansion that was replaced by its query has the primary link, or the settings allow for a single
index and one is in use. One that was replaced by its keys is a join between keys. The request of a scan
is for the index of the link, and its query is what the query of the expansion was compiled to, outside of
aggregates and as deep in scopes as the report says. -/
def Report.Genuine (env : Environment) (p : Progress) (r : Report) : Prop :=
  match r.resolution with
  | .inPlace true => r.link = p.metadata.primary
  | .inPlace false => env.settings.allowSingleIndex = true ∧ ∃ link, [link] <+: p.metadata.used
  | .keys => ∃ left right linked leftOwner rightOwner, KeyJoin env.resolver p.metadata r.link
      r.query.label left right linked leftOwner rightOwner
  | .scan request =>
    request.index = r.link.index ∧ (∃ mapping, env.resolver.mapping r.link.index = .ok mapping) ∧
      ∃ (s t : Progress) (fuel n : Nat) (filter : Fragment),
      Sound env s ∧ s.aggregating = false ∧ s.scopeDepth = r.scopeDepth ∧
      s.draft.arrayData = p.draft.arrayData ∧ s.metadata.origin = p.metadata.origin ∧
      s.metadata.primary = p.metadata.primary ∧ s.metadata.links = p.metadata.links ∧
      n < s.draft.arena.size ∧ s.draft.arena.treeAt n = r.query ∧
      exec (Compile.nodeWithin env fuel n) s = (.ok filter, t) ∧
      request.query = .constantScore filter none

/-- A report stays genuine as the metadata grow. -/
theorem Report.Genuine.mono {env : Environment} {p q : Progress} {r : Report}
    (h : r.Genuine env p) (hgrows : p.metadata.Grows env.resolver q.metadata)
    (hdata : q.draft.arrayData = p.draft.arrayData) : r.Genuine env q := by
  unfold Report.Genuine at h ⊢
  split at h
  · exact h.trans hgrows.primary_eq.symm
  · obtain ⟨hallow, link, hused⟩ := h
    exact ⟨hallow, link, hused.trans hgrows.used_prefix⟩
  · obtain ⟨left, right, linked, leftOwner, rightOwner, hkeys⟩ := h
    exact ⟨left, right, linked, leftOwner, rightOwner,
      { hkeys with
        fields := hgrows.primary_eq ▸ hkeys.fields
        leftOwner_eq := (hgrows.ownerMapping_eq left).trans hkeys.leftOwner_eq
        rightOwner_eq := (hgrows.ownerMapping_eq right).trans hkeys.rightOwner_eq }⟩
  · rwa [hdata, hgrows.origin_eq, hgrows.primary_eq, hgrows.links_eq]

/-- **What a report leaves behind**: the query of the expansion, a predicate that asks for a key, or one
that asks for the values of a scan. -/
def Report.Leaves (r : Report) (kind : Kind) : Prop :=
  match r.resolution with
  | .inPlace _ => kind = r.query.label.kind
  | .keys => kind = .notNull
  | .scan _ => ∃ values hits, kind = .array (.external values hits) false

/-! ## Evolution -/

/-- **Inheritance**: parent scopes and expansions have been there before. -/
def Query.Arena.Inherits (arena other : Arena) : Prop :=
  ∀ i, (other.label i).kind.isParent = true ∨ (other.label i).kind.isExpansion = true →
    ∃ j, (arena.label j).kind = (other.label i).kind

/-- Labels of the same kinds are inherited. -/
theorem Query.Arena.Inherits.of_kinds {arena other : Arena}
    (h : ∀ i, ∃ j, (other.label i).kind = (arena.label j).kind) : arena.Inherits other :=
  fun i _ => (h i).imp fun _ => Eq.symm

/-- **Keeping**: boosts stay where they are, and all nodes but expansions keep their kinds. -/
structure Query.Arena.Keeps (arena other : Arena) : Prop where
  kind_eq : ∀ i, i < arena.size → (arena.label i).kind.isExpansion = false →
    (other.label i).kind = (arena.label i).kind
  boost_eq : ∀ i b, (arena.label i).boost = some b → (other.label i).boost = some b

@[refl] theorem Query.Arena.Keeps.refl (arena : Arena) : arena.Keeps arena :=
  ⟨fun _ _ _ => rfl, fun _ _ h => h⟩

theorem Query.Arena.Keeps.trans {arena other last : Arena} (h : arena.Keeps other)
    (hsize : arena.size ≤ other.size) (h' : other.Keeps last) : arena.Keeps last where
  kind_eq := fun i hi hkind => by
    have heq := h.kind_eq i hi hkind
    exact (h'.kind_eq i (Nat.lt_of_lt_of_le hi hsize) (heq ▸ hkind)).trans heq
  boost_eq := fun i b hb => h'.boost_eq i b (h.boost_eq i b hb)

/-- **Evolution** of a state into a later one. -/
structure Evolves (env : Environment) (p q : Progress) : Prop where
  sound : Sound env q
  grows : p.metadata.Grows env.resolver q.metadata
  draft_eq : q.draft = { p.draft with arena := q.draft.arena }
  size_le : p.draft.arena.size ≤ q.draft.arena.size
  inherits : p.draft.arena.Inherits q.draft.arena
  keeps : p.draft.arena.Keeps q.draft.arena
  resolved : ∀ i, (p.draft.arena.label i).kind.isExpansion = true →
    (q.draft.arena.label i).kind.isExpansion = true ∨
      ∃ r ∈ q.reports, r.id = i ∧ r.Leaves (q.draft.arena.label i).kind
  logged : ∃ reports, q.reports = p.reports ++ reports ∧
    q.scans = p.scans ++ reports.filterMap (·.resolution.request?)
  scopeDepth_eq : q.scopeDepth = p.scopeDepth
  scopePath_eq : p.scopeDepth = 0 ∨ q.scopePath = p.scopePath
  aggregating_eq : q.aggregating = p.aggregating
  generated_eq : q.generated = p.generated
  genuine : ∀ r ∈ q.reports, r ∈ p.reports ∨ r.Genuine env q

namespace Evolves

variable {env : Environment} {p q s : Progress}

theorem refl (h : Sound env p) : Evolves env p p where
  sound := h
  grows := .refl _
  draft_eq := rfl
  size_le := Nat.le_refl _
  inherits := fun i _ => ⟨i, rfl⟩
  keeps := .refl _
  resolved := fun _ => .inl
  logged := ⟨[], by simp, by simp⟩
  scopeDepth_eq := rfl
  scopePath_eq := .inr rfl
  aggregating_eq := rfl
  generated_eq := rfl
  genuine := fun _ => .inl

/-- The blocks of values belong to the request. -/
theorem arrayData_eq (h : Evolves env p q) : q.draft.arrayData = p.draft.arrayData := by
  rw [h.draft_eq]

/-- Parent scopes are not made. -/
theorem parentless (h : Evolves env p q) (hp : ∀ i, (p.draft.arena.label i).kind.isParent = false)
    (i : Nat) : (q.draft.arena.label i).kind.isParent = false := by
  cases hparent : (q.draft.arena.label i).kind.isParent with
  | false => rfl
  | true =>
    obtain ⟨j, hj⟩ := h.inherits i (.inl hparent)
    rw [← hj, hp] at hparent
    exact absurd hparent (by simp)

/-- The root belongs to the request. -/
theorem root_eq (h : Evolves env p q) : q.draft.root = p.draft.root := by
  rw [h.draft_eq]

theorem trans (h : Evolves env p q) (h' : Evolves env q s) : Evolves env p s where
  sound := h'.sound
  grows := h.grows.trans h'.grows
  draft_eq := by rw [h'.draft_eq, h.draft_eq]
  size_le := Nat.le_trans h.size_le h'.size_le
  inherits := by
    intro i hi
    obtain ⟨j, hj⟩ := h'.inherits i hi
    rw [← hj] at hi ⊢
    exact h.inherits j hi
  keeps := h.keeps.trans h.size_le h'.keeps
  resolved := by
    intro i hi
    by_cases hq : (q.draft.arena.label i).kind.isExpansion = true
    · exact h'.resolved i hq
    · -- what has taken the place of an expansion is no expansion, and stays
      obtain ⟨r, hr, hid, hleaves⟩ := (h.resolved i hi).resolve_left hq
      obtain ⟨reports, hreports, -⟩ := h'.logged
      have hlt := Nat.lt_of_lt_of_le (Query.Arena.lt_size_of_isExpansion hi) h.size_le
      refine .inr ⟨r, ?_, hid, ?_⟩
      · rw [hreports]
        exact List.mem_append_left _ hr
      · rw [h'.keeps.kind_eq i hlt (eq_false_of_ne_true hq)]
        exact hleaves
  logged := by
    obtain ⟨reports, hreports, hscans⟩ := h.logged
    obtain ⟨reports', hreports', hscans'⟩ := h'.logged
    refine ⟨reports ++ reports', ?_, ?_⟩
    · rw [hreports', hreports, List.append_assoc]
    · rw [hscans', hscans, List.filterMap_append, List.append_assoc]
  scopeDepth_eq := h'.scopeDepth_eq.trans h.scopeDepth_eq
  scopePath_eq := by
    rcases h.scopePath_eq with hzero | heq
    · exact .inl hzero
    · exact h'.scopePath_eq.imp (h.scopeDepth_eq.symm.trans ·) (·.trans heq)
  aggregating_eq := h'.aggregating_eq.trans h.aggregating_eq
  generated_eq := h'.generated_eq.trans h.generated_eq
  genuine := by
    intro r hr
    rcases h'.genuine r hr with hold | hnew
    · exact (h.genuine r hold).imp_right fun hg => hg.mono h'.grows h'.arrayData_eq
    · exact .inr hnew

/-- **Looking up** is an evolution. -/
theorem look (h : Sound env p) {md : Metadata} (hgrows : p.metadata.Grows env.resolver md) :
    Evolves env p { p with metadata := md } :=
  { refl h with
    sound := ⟨h.ascending, hgrows.faithful h.faithful⟩
    grows := hgrows
    genuine := fun _ => .inl }

/-- **A change of the arena** after an evolution. It makes neither parent scopes nor expansions, and what
takes the place of an expansion was reported. -/
theorem rewriteArena (h : Evolves env p q) {arena : Arena} (hasc : arena.Ascending)
    (hsize : q.draft.arena.size ≤ arena.size) (hinherits : q.draft.arena.Inherits arena)
    (hkeeps : p.draft.arena.Keeps arena)
    (hresolved : ∀ i, (p.draft.arena.label i).kind.isExpansion = true →
      (arena.label i).kind.isExpansion = true ∨
        ∃ r ∈ q.reports, r.id = i ∧ r.Leaves (arena.label i).kind) :
    Evolves env p { q with draft := { q.draft with arena } } :=
  { h with
    sound := ⟨hasc, h.sound.faithful⟩
    size_le := Nat.le_trans h.size_le hsize
    inherits := fun i hi => by
      obtain ⟨j, hj⟩ := hinherits i hi
      rw [← hj] at hi ⊢
      exact h.inherits j hi
    keeps := hkeeps
    resolved := hresolved
    draft_eq := by rw [h.draft_eq]
    genuine := fun r hr => (h.genuine r hr).imp_right fun hg => hg.mono (.refl _) rfl }

/-- **A change of the arena** that keeps its shape, its kinds and its boosts is an evolution. -/
theorem changeArena (h : Sound env p) {arena : Arena} (hasc : arena.Ascending)
    (hsize : p.draft.arena.size ≤ arena.size) (hinherits : p.draft.arena.Inherits arena)
    (hsame : ∀ i, i < p.draft.arena.size → (arena.label i).kind = (p.draft.arena.label i).kind ∧
      (arena.label i).boost = (p.draft.arena.label i).boost) :
    Evolves env p { p with draft := { p.draft with arena } } := by
  refine (refl h).rewriteArena hasc hsize hinherits ⟨fun i hi _ => (hsame i hi).1, fun i b hb => ?_⟩
    fun i hi => .inl ?_
  · have hi : i < p.draft.arena.size := by
      by_contra hge
      rw [Query.Arena.label_of_size_le (Nat.le_of_not_lt hge)] at hb
      simp [default, Query.instInhabitedLabel.default] at hb
    rw [(hsame i hi).2, hb]
  · rw [(hsame i (Query.Arena.lt_size_of_isExpansion hi)).1, hi]

/-- **A genuine report**, together with the scan it is about, is an evolution. -/
theorem report (h : Sound env p) {r : Report} (hr : r.Genuine env p) :
    Evolves env p { p with
      reports := p.reports ++ [r]
      scans := p.scans ++ [r].filterMap (·.resolution.request?) } :=
  { refl h with
    sound := ⟨h.ascending, h.faithful⟩
    resolved := fun _ => .inl
    logged := ⟨[r], rfl, rfl⟩
    genuine := by
      intro r' hr'
      rcases List.mem_append.mp hr' with hold | hnew
      · exact .inl hold
      · rw [List.mem_singleton.mp hnew]
        exact .inr (hr.mono (.refl _) rfl) }

/-- **Scopes**: an evolution inside a scope is one outside, if leaving the scope undoes the change
that entering it made. -/
theorem transfer {p' q' : Progress} (h : Evolves env p' q') (hdraft : p'.draft = p.draft)
    (hmetadata : p'.metadata = p.metadata) (hscans : p'.scans = p.scans)
    (hreports : p'.reports = p.reports) (hdraft' : q.draft = q'.draft)
    (hmetadata' : q.metadata = q'.metadata) (hscans' : q.scans = q'.scans)
    (hreports' : q.reports = q'.reports) (hdepth : q.scopeDepth = p.scopeDepth)
    (hpath : p.scopeDepth = 0 ∨ q.scopePath = p.scopePath)
    (haggregating : q.aggregating = p.aggregating) (hgenerated : q.generated = p.generated) :
    Evolves env p q where
  sound := ⟨hdraft' ▸ h.sound.ascending, hmetadata' ▸ h.sound.faithful⟩
  grows := by rw [hmetadata', ← hmetadata]; exact h.grows
  draft_eq := by rw [hdraft', h.draft_eq, hdraft]
  size_le := by rw [hdraft', ← hdraft]; exact h.size_le
  inherits := by rw [hdraft', ← hdraft]; exact h.inherits
  keeps := by rw [hdraft', ← hdraft]; exact h.keeps
  resolved := by rw [hdraft', ← hdraft, hreports']; exact h.resolved
  logged := by rw [hreports', hscans', ← hreports, ← hscans]; exact h.logged
  scopeDepth_eq := hdepth
  scopePath_eq := hpath
  aggregating_eq := haggregating
  generated_eq := hgenerated
  genuine := by
    intro r hr
    rw [hreports'] at hr
    refine (h.genuine r hr).imp (fun hold => hreports ▸ hold) fun hg => hg.mono ?_ ?_
    · rw [hmetadata']
    · rw [hdraft']

end Evolves

namespace Compile

variable {α β : Type} {env : Environment} {p : Progress}

/-- **Leading**: from a state, a computation lets the state evolve whatever its outcome, and if it
succeeds something holds of its value and the last state. -/
def Leads (env : Environment) (x : Compile α) (Q : α → Progress → Prop) (p : Progress) : Prop :=
  wp x (fun a q => Evolves env p q ∧ Q a q) (fun _ q => Evolves env p q) p

namespace Leads

variable {Q : α → Progress → Prop}

theorem pure {a : α} (h : Sound env p) (ha : Q a p) : Leads env (pure a) Q p := ⟨.refl h, ha⟩

theorem throw {e : Error} (h : Sound env p) : Leads env (throw e : Compile α) Q p := .refl h

theorem get (h : Sound env p) : Leads env get (fun s q => s = p ∧ q = p) p := ⟨.refl h, rfl, rfl⟩

theorem mono {Q' : α → Progress → Prop} {x : Compile α} (h : Leads env x Q p)
    (hQ : ∀ a q, Evolves env p q → Q a q → Q' a q) : Leads env x Q' p :=
  wp_mono h (fun a q ha => ⟨ha.1, hQ a q ha.1 ha.2⟩) fun _ _ h => h

/-- The second part of a sequence starts in a state to which the first part leads. -/
theorem bind {R : β → Progress → Prop} {x : Compile β} {f : β → Compile α}
    (hx : Leads env x R p) (hf : ∀ b q, Evolves env p q → R b q → Leads env (f b) Q q) :
    Leads env (x >>= f) Q p := by
  unfold Leads
  rw [wp_bind]
  refine wp_mono hx ?_ fun _ _ h => h
  rintro b q ⟨hpq, hR⟩
  exact wp_mono (hf b q hpq hR) (fun _ _ h => ⟨hpq.trans h.1, h.2⟩) fun _ _ => hpq.trans

/-- A loop for its effect, with a condition on the state that evolutions keep. -/
theorem forM {γ : Type} {f : γ → Compile PUnit} {I : Progress → Prop} (l : List γ)
    (hI : ∀ p q, Evolves env p q → I p → I q)
    (h : ∀ a ∈ l, ∀ p, Sound env p → I p → Leads env (f a) (fun _ _ => True) p)
    (hs : Sound env p) (hp : I p) : Leads env (l.forM f) (fun _ _ => True) p := by
  induction l generalizing p with
  | nil => exact pure hs trivial
  | cons a l ih =>
    refine (h a List.mem_cons_self p hs hp).bind fun _ q hpq _ => ?_
    exact ih (fun a' ha' => h a' (List.mem_cons_of_mem a ha')) hpq.sound (hI p q hpq hp)

end Leads

/-- **Steps**: computations that only ever let a sound state evolve, whatever their outcome. -/
def Steps (env : Environment) (x : Compile α) : Prop :=
  ∀ p, Sound env p → Leads env x (fun _ _ => True) p

namespace Steps

theorem pure (a : α) : Steps env (pure a) := fun _ h => Leads.pure h trivial

theorem throw (e : Error) : Steps env (throw e : Compile α) := fun _ h => Leads.throw h

theorem ofExcept (outcome : Except Error α) : Steps env (ofExcept outcome) := by
  cases outcome with
  | error e => exact throw e
  | ok a => exact pure a

theorem bind {x : Compile β} {f : β → Compile α} (hx : Steps env x) (hf : ∀ b, Steps env (f b)) :
    Steps env (x >>= f) := fun p h =>
  (hx p h).bind fun b q hpq _ => hf b q hpq.sound

theorem get {f : Progress → Compile α} (h : ∀ p, Steps env (f p)) :
    Steps env (MonadState.get >>= f) := fun _ hp =>
  (Leads.get hp).bind fun s _ hpq _ => h s _ hpq.sound

theorem mapM {γ : Type} {f : γ → Compile α} {l : List γ} (h : ∀ a ∈ l, Steps env (f a)) :
    Steps env (l.mapM f) := by
  induction l with
  | nil => exact pure []
  | cons a l ih =>
    rw [List.mapM_cons]
    refine (h a List.mem_cons_self).bind fun b => ?_
    exact (ih fun a' ha' => h a' (List.mem_cons_of_mem a ha')).bind fun bs => pure (b :: bs)

/-- What agrees with itself in every sound state only looks things up. -/
theorem of_agrees {x : Compile α} (h : ∀ p, Sound env p → Agrees env x x p p) : Steps env x := by
  intro p hp
  obtain ⟨outcome, md, -, hx, -, hgrows, -⟩ := h p hp _ _ (.refl _) (.refl _)
  have hx : exec x p = (outcome, { p with metadata := md }) := hx
  cases outcome with
  | error e => exact (wp_of_error hx).mpr (.look hp hgrows)
  | ok a => exact (wp_of_ok hx).mpr ⟨.look hp hgrows, trivial⟩

end Steps

end Compile

end LinkedSearch
