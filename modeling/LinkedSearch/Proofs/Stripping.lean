import LinkedSearch.Proofs.Calling
import LinkedSearch.Proofs.SemiJoin
import LinkedSearch.Proofs.Underway

/-! # Whose name is stripped

The names of links are stripped from fields when an expansion is entered, for its whole query, and not when
the expansions in that query are resolved. So what is compiled for any of these was stripped of the name of
the outermost expansion around it, exactly once, and of no other name:

* `Arena.Outermost`: an expansion without further ones above it, and without parent scopes below it.
* `Unentered`: drafts in which it is still as it was at the start, if it is still there.
* `nodeWithin_unentered`: successful compilations of other nodes do not enter it.
* `nodeWithin_stripped`: whatever the outcome, queries in it are reported when they were stripped once.
* `Compiler.outermost_name_stripped`: the reports of a compiler. -/

namespace LinkedSearch

open Query (Arena Draft Kind Label NodeId Tree)

namespace Query.Arena

/-! ## Names -/

/-- The name and the dot are removed where a field starts with them, once. -/
theorem withoutName_of_eq {name field rest : String} (h : field = name ++ "." ++ rest) :
    withoutName name field = rest := by
  have hlist : (name.toList ++ ['.']).isPrefixOf? field.toList = some rest.toList := by
    rw [List.isPrefixOf?_eq_some_iff_append_eq, h]
    simp
  rw [withoutName, hlist]
  simp

/-- Other fields stay what they are. -/
theorem withoutName_of_ne {name field : String} (h : ∀ rest, field ≠ name ++ "." ++ rest) :
    withoutName name field = field := by
  unfold withoutName
  split
  · next rest heq =>
    rw [List.isPrefixOf?_eq_some_iff_append_eq] at heq
    refine absurd (String.toList_inj.mp ?_) (h (String.ofList rest))
    simp [← heq]
  · rfl

/-! ## Outermost expansions -/

variable {start arena other : Arena} {a c e n o x y : Nat}

/-- **Outermost**: an expansion with none above it, and with no parent scope below it. -/
structure Outermost (start : Arena) (o : Nat) : Prop where
  ascending : start.Ascending
  isExpansion : (start.label o).kind.isExpansion = true
  exposed : start.Exposed o
  sheltered : start.Sheltered o

/-- **Outside** of an expansion: a node that was not below it at the start, the expansion itself, or any
node without expansions. -/
def Outside (o : Nat) (start arena : Arena) (n : Nat) : Prop :=
  ¬start.Below o n ∨ n = o ∨ arena.Bare n

namespace Outermost

variable (ho : start.Outermost o) (hrewrites : start.Rewrites arena)

include ho

theorem lt_size : o < start.size := lt_size_of_isExpansion ho.isExpansion

/-- What is above it is exposed and no expansion. -/
theorem above (hy : start.Below y o) (hne : y ≠ o) :
    start.Exposed y ∧ (start.label y).kind.isExpansion = false := by
  have hno : ∀ e : Nat, (start.label e).kind.isExpansion = true → ¬start.Below e y := fun e he hey => by
    have heo : e = o := ho.exposed e he (hey.trans hy)
    exact hne (Nat.le_antisymm (ho.ascending.le_of_below hy) (heo ▸ ho.ascending.le_of_below hey))
  exact ⟨fun e he hey => absurd hey (hno e he), eq_false_of_ne_true fun htrue => hno y htrue (.refl y)⟩

include hrewrites

/-- The way to it stays. -/
theorem below_of_above (ha : start.Below a o) : arena.Below a o := by
  induction ha using Relation.ReflTransGen.head_induction_on with
  | refl => exact .refl o
  | @head y z hyz hzo ih =>
    have hlt := ho.ascending.lt_child y z hyz
    have hle := ho.ascending.le_of_below hzo
    obtain ⟨hexposed, hkind⟩ := ho.above (.of_child hyz hzo) (by omega)
    have hslot := (hrewrites.pruned ho.ascending).slot_eq y (lt_size_of_mem_children hyz) hexposed hkind
    exact .of_child (by rwa [children_congr hslot]) ih

/-- **There is one way in**, which is the expansion itself. -/
theorem entry (hc : c ∈ arena.children y) (hin : start.Below o c) (hout : ¬start.Below o y) : c = o := by
  by_contra hne
  have hlt := ho.ascending.below_lt_size hin ho.lt_size
  have hyc := (hrewrites.traced ho.ascending).below y c hlt (.of_mem hc)
  rcases ho.ascending.linear hin hyc with hoy | hyo
  · exact hout hoy
  · -- nodes above it have the children that they had
    obtain ⟨hexposed, hkind⟩ := ho.above hyo fun heq => hout (heq ▸ .refl y)
    have hylt := Nat.lt_of_le_of_lt (ho.ascending.le_of_below hyo) ho.lt_size
    have hslot := (hrewrites.pruned ho.ascending).slot_eq y hylt hexposed hkind
    rw [children_congr hslot] at hc
    exact hout (ho.ascending.below_parent hin hc fun heq => hne heq.symm)

/-- What is reached from elsewhere is reached through the expansion. -/
theorem below_of_reached (ha : start.Below o a → a = o) (hin : start.Below o x) (hx : arena.Below a x) :
    arena.Below o x := by
  induction hx with
  | refl => exact ha hin ▸ .refl a
  | @tail y x hay hyx ih =>
    by_cases hy : start.Below o y
    · exact (ih hy).tail hyx
    · exact ho.entry hrewrites hyx hin hy ▸ .refl x

/-- Nothing in it is below an expansion elsewhere. -/
theorem apart (he : (start.label e).kind.isExpansion = true) (hout : ¬start.Below o e)
    (hin : start.Below o x) : ¬arena.Below e x := by
  intro hx
  have hlt := ho.ascending.below_lt_size hin ho.lt_size
  rcases ho.ascending.linear ((hrewrites.traced ho.ascending).below e x hlt hx) hin with heo | hoe
  · exact hout (ho.exposed e he heo ▸ .refl e)
  · exact hout hoe

/-- **A parent scope elsewhere** has nothing of it below itself, since it is neither above the expansion nor
in it. -/
theorem scope_apart {scope : Nat} (hroot : arena.Below 0 scope)
    (hparent : (arena.label scope).kind.isParent = true) (hsheltered : arena.Sheltered o)
    (hoe : arena.Below o e) (hwithin : ¬arena.Below scope e) (hin : start.Below o x) :
    ¬arena.Below scope x := by
  intro hx
  have hlt := ho.ascending.below_lt_size hin ho.lt_size
  rcases ho.ascending.linear hin ((hrewrites.traced ho.ascending).below scope x hlt hx) with hos | hso
  · have hreached := ho.below_of_reached hrewrites
      (fun hzero => (Nat.le_zero.mp (ho.ascending.le_of_below hzero)).symm) hos hroot
    exact absurd (hparent.symm.trans (hsheltered scope hreached)) (by simp)
  · exact hwithin ((ho.below_of_above hrewrites hso).trans hoe)

/-- When it is gone, no expansion is left in its place. -/
theorem bare_of_gone (hgone : (arena.label o).kind.isExpansion = false) : arena.Bare o :=
  (hrewrites.pruned ho.ascending).emptied o ho.isExpansion hgone

/-- The children of a node outside of it. -/
theorem outside_child (h : Outside o start arena n) (hkind : (arena.label n).kind.isExpansion = false)
    (hc : c ∈ arena.children n) : Outside o start arena c := by
  rcases h with hout | rfl | hbare
  · by_cases hin : start.Below o c
    · exact .inr (.inl (ho.entry hrewrites hc hin hout))
    · exact .inl hin
  · exact .inr (.inr ((ho.bare_of_gone hrewrites hkind).child hc))
  · exact .inr (.inr (hbare.child hc))

end Outermost

/-- Nodes stay outside. -/
theorem Outside.rewrites (h : Outside o start arena n) (hasc : arena.Ascending) (hn : n < arena.size)
    (hrewrites : arena.Rewrites other) : Outside o start other n :=
  h.imp_right (.imp_right fun hbare => (hrewrites.pruned hasc).bare hasc hn hbare)

end Query.Arena

/-! ## Drafts in which an expansion was not entered -/

namespace Compile

open Query.Arena (Outermost Outside)

variable {env : Environment} {p q s t : Progress} {c e n o v fuel : Nat} {start : Arena}

/-- **Unentered**: a draft in which all that was below an expansion at the start is as it was, if the
expansion is still there. -/
structure Unentered (o : Nat) (start : Arena) (draft : Draft) : Prop where
  rewrites : start.Rewrites draft.arena
  slot_eq : (draft.arena.label o).kind.isExpansion = true → ∀ x : Nat, start.Below o x →
    draft.arena.slot? x = start.slot? x
  root_eq : ∀ root, draft.root = some root → root = 0

/-- What holds of the drafts after successful compilations. -/
def StaysOut (env : Environment) (o : Nat) (start : Arena) (recur : NodeId → Compile Fragment) : Prop :=
  ∀ (n : Nat) (p q : Progress) (fragment : Fragment), Sound env p → Unentered o start p.draft →
    Outside o start p.draft.arena n → n < p.draft.arena.size → exec (recur n) p = (.ok fragment, q) →
      Unentered o start q.draft

section Unentered

variable (ho : start.Outermost o)

include ho

omit ho in
/-- A draft in which the expansion is gone. -/
theorem Unentered.of_gone {draft : Draft} (hrewrites : start.Rewrites draft.arena)
    (hroot : ∀ root, draft.root = some root → root = 0)
    (hgone : (draft.arena.label o).kind.isExpansion = false) : Unentered o start draft :=
  ⟨hrewrites, fun htrue => absurd (htrue.symm.trans hgone) (by simp), hroot⟩

/-- A change below an expansion elsewhere. -/
theorem Unentered.framed {draft draft' : Draft} (h : Unentered o start draft)
    (hrewrites : start.Rewrites draft'.arena) (hroot : draft'.root = draft.root)
    (he : (start.label e).kind.isExpansion = true) (hout : ¬start.Below o e)
    (hframed : Arena.Framed e draft.arena draft'.arena) : Unentered o start draft' := by
  have hslot : ∀ x : Nat, start.Below o x → draft'.arena.slot? x = draft.arena.slot? x := fun x hx =>
    hframed.outside x (Nat.lt_of_lt_of_le (ho.ascending.below_lt_size hx ho.lt_size)
      (h.rewrites.pruned ho.ascending).size_le) (ho.apart h.rewrites he hout hx)
  refine ⟨hrewrites, fun htrue x hx => (hslot x hx).trans (h.slot_eq ?_ x hx), hroot ▸ h.root_eq⟩
  rwa [Query.Arena.label_congr (hslot o (.refl o))] at htrue

/-- **The parent scope** of the query is outside. -/
theorem Unentered.outside_scope {draft : Draft} {scope : Nat} (h : Unentered o start draft)
    (hscope : FirstParent draft scope) :
    Outside o start draft.arena scope := by
  obtain ⟨root, hroot, hfirst⟩ := hscope
  obtain rfl := h.root_eq root hroot
  by_cases hin : start.Below o scope
  · refine .inr (.inr fun y hy => ?_)
    cases hthere : (draft.arena.label o).kind.isExpansion with
    | true =>
      -- there was no parent scope below it at the start
      have hparent := hfirst.condition_eq
      rw [Query.Arena.label_congr (h.slot_eq hthere scope hin), ho.sheltered scope hin] at hparent
      exact absurd hparent (by simp)
    | false =>
      have hreached := ho.below_of_reached h.rewrites
        (fun hzero => (Nat.le_zero.mp (ho.ascending.le_of_below hzero)).symm) hin hfirst.below_root
      exact ho.bare_of_gone h.rewrites hthere y (hreached.trans hy)
  · exact .inl hin

variable (hrecur : StaysOut env o start (nodeWithin env fuel))

include hrecur

/-- A peek at the parent scope. -/
theorem Peeks.unentered (h : Peeks env fuel e p q) (hp : Unentered o start p.draft) :
    Unentered o start q.draft := by
  rcases h with hdraft | ⟨scope, s, t, fragment, hs, hdraft, hscope, -, hexec, hq⟩
  · exact hdraft ▸ hp
  · rw [← hdraft] at hp hscope
    have hfirst := (find?_eq_some_iff hs.ascending).mp hscope
    obtain ⟨root, -, hroot⟩ := id hfirst
    rw [hq]
    exact hrecur scope s t fragment hs hp (hp.outside_scope ho hfirst)
      (Query.Arena.lt_size_of_isParent hroot.condition_eq) hexec

section Elsewhere

variable (he : (start.label e).kind.isExpansion = true) (hout : ¬start.Below o e)

include he hout

/-- Whenever an expansion elsewhere asks for compiled nodes. -/
theorem Asking.unentered (h : Asking env fuel e p q) (hp : Unentered o start p.draft) :
    Unentered o start q.draft := by
  rcases h.draft with hdraft | ⟨-, u, label, hpeeks, hlabel, hrequeries⟩
  · exact hdraft ▸ hp
  · have hu := hpeeks.unentered ho hrecur hp
    have hlt : e < u.draft.arena.size := Nat.lt_of_lt_of_le (Query.Arena.lt_size_of_isExpansion he)
      (hu.rewrites.pruned ho.ascending).size_le
    refine hu.framed ho (hp.rewrites.trans h.rewrites) ?_ he hout ?_
    · rw [show q.draft = _ from hrequeries]
    · rw [show q.draft = _ from hrequeries]
      exact .push_setChild 0 label hlt

/-- **The resolution of an expansion elsewhere.** -/
theorem resolve_unentered {primary target : Link} (hp : Sound env p) (h : Unentered o start p.draft)
    (hprimary : primary = p.metadata.primary)
    (hquery : (p.draft.arena.label e).kind.isExpansion = true → ∀ c,
      p.draft.arena.child? e 0 = some c → p.draft.arena.Settled c ∧ p.draft.arena.Bare c)
    (hexec : exec (resolve env (nodeWithin env fuel) primary target e) p = (.ok ⟨⟩, q)) :
    Unentered o start q.draft := by
  obtain ⟨hpq, link, v, s, hlink, hresolved, hps, hq⟩ := (wp_of_ok hexec).mp
    (leads_resolve fuel (nodeWithin_steps fuel) hp primary target e hprimary)
  have hexpansion := Query.Kind.isExpansion_of_link? hlink
  have hproceeds : Proceeds env (fun _ => True) p q :=
    (resolve_proceeds (nodeWithin_proceeds fuel) hp hquery trivial (hprimary ▸ hexec)).1
  have hlt := Nat.lt_of_lt_of_le (Query.Arena.lt_size_of_isExpansion hexpansion) hps.size_le
  have hs : Unentered o start s.draft := by
    rcases hresolved.peeks hp hexpansion (hquery hexpansion) with
      ⟨hdraft, -⟩ | ⟨s', u, label, hasking, hpeeks, hlabel, -, hpushes⟩
    · exact hdraft ▸ h
    · have hu := hpeeks.unentered ho hrecur (hasking.unentered ho hrecur he hout h)
      have hdraft : s.draft = { u.draft with arena := (u.draft.arena.push label).1 } := hpushes
      refine hu.framed ho ?_ (by rw [hdraft]) he hout ?_
      · rw [hdraft]
        exact hu.rewrites.trans (Query.Arena.Rewrite.push _ label hlabel.kind_eq.1).rewrites
      · rw [hdraft]
        exact .push e _ label
  refine hs.framed ho (h.rewrites.trans hproceeds.rewrites) (by rw [hq]) he hout ?_
  rw [hq]
  exact substituted_framed hps.sound hlt (hresolved.child_or_fresh hp) _

end Elsewhere

/-! ### Nodes -/

omit ho in
/-- Some nodes, compiled one after the other. -/
theorem compiledAll_unentered (ids : List NodeId) {fragments : List Fragment} (hp : Sound env p)
    (h : Unentered o start p.draft)
    (hids : ∀ c ∈ ids, (c : Nat) < p.draft.arena.size ∧ Outside o start p.draft.arena c)
    (hexec : CompiledAll (nodeWithin env fuel) ids p fragments q) : Unentered o start q.draft := by
  induction ids generalizing p fragments with
  | nil =>
    obtain ⟨-, rfl⟩ := Prod.mk.inj hexec
    exact h
  | cons c rest ih =>
    obtain ⟨fragment, s, fragments', hc, hrest, -⟩ := exec_mapM_cons_ok.mp hexec
    obtain ⟨hps, -⟩ := compiled_of_ok hp hc
    obtain ⟨hlt, hout⟩ := hids c List.mem_cons_self
    have hrewrites := nodeWithin_rewrites fuel c p s fragment hp hlt hc
    refine ih hps.sound (hrecur c p s fragment hp h hout hlt hc) (fun c' hc' => ?_) hrest
    obtain ⟨hlt', hout'⟩ := hids c' (List.mem_cons_of_mem c hc')
    exact ⟨Nat.lt_of_lt_of_le hlt' hps.size_le, hout'.rewrites hp.ascending hlt' hrewrites⟩

/-- **The stack of an expansion elsewhere**, up to any of its turns. -/
theorem stack_unentered {link primary target : Link} (hp : Sound env p) (h : Unentered o start p.draft)
    (hprimary : primary = p.metadata.primary) (hn : (p.draft.arena.label n).kind.isExpansion = true)
    (hout : ¬start.Below o n) {before after : List NodeId}
    (hstack : (p.draft.arena.expansions n).reverse = before ++ after)
    (hexec : exec (before.forM (resolve env (nodeWithin env fuel) primary target)) (stripped p n link) =
      (.ok ⟨⟩, q)) : Unentered o start q.draft := by
  have hstrip := evolves_stripped hp n link
  have hpruned := h.rewrites.pruned ho.ascending
  have hn' := hpruned.remaining n hn
  refine (expansions_turns hp hprimary hn).invariant (I := fun q => Unentered o start q.draft) ?_
    (fun e he q s hturn hq hs => ?_) before after hstack q hexec
  · exact h.framed ho (h.rewrites.trans (stripped_rewrites hn link).2) hstrip.root_eq hn' hout
      (stripped_framed p n link).1
  · -- the expansions of the stack are below it
    obtain ⟨hopen, hkind⟩ := Query.Arena.open_of_mem_expansionsWithin _ (List.mem_reverse.mp he)
    have hlt := Query.Arena.lt_size_of_isExpansion hkind
    have hapart : ¬start.Below o e := fun hin => ho.apart h.rewrites hn' hout hin hopen.below
    exact resolve_unentered ho hrecur (hpruned.remaining e hkind) hapart hturn.evolves.sound hq
      (hprimary.trans (hstrip.trans hturn.evolves).grows.primary_eq.symm) hturn.query hs

/-- A compiled expansion. -/
theorem Expanded.unentered (hp : Sound env p) (h : Unentered o start p.draft)
    (hout : Outside o start p.draft.arena n) {fragment : Fragment}
    (hexpanded : Expanded env (nodeWithin env fuel) n p fragment q) : Unentered o start q.draft := by
  obtain ⟨link, target, s, hlink, -, hstack, -, -, hexec⟩ := hexpanded
  have hn := Query.Kind.isExpansion_of_link? hlink
  obtain ⟨hps, hrewrites, hsettled, hbare⟩ := expansions_resolved hp rfl hn hstack
  refine hrecur n s q fragment hps.sound ?_ (.inr (.inr hbare)) hsettled.lt_size hexec
  rcases hout with hout | rfl | hbare'
  · exact stack_unentered ho hrecur hp h rfl hn hout (List.append_nil _).symm hstack
  · exact .of_gone (h.rewrites.trans hrewrites) (hps.root_eq ▸ h.root_eq) (hbare n (.refl n))
  · exact absurd (hn.symm.trans (hbare' n (.refl n))) (by simp)

end Unentered

/-- **Successful compilations of nodes outside** do not enter the expansion, unless they resolve it. -/
theorem nodeWithin_unentered (ho : start.Outermost o) (fuel : Nat) :
    StaysOut env o start (nodeWithin env fuel) := by
  induction fuel with
  | zero =>
    intro n p q fragment hp _ _ _ h
    obtain ⟨-, bound, hbound, -⟩ := compiled_of_ok hp h
    omega
  | succ fuel ih =>
    intro n p q fragment hp h hout hn hexec
    obtain ⟨-, bound, hbound, hcompiled⟩ := compiled_of_ok hp hexec
    obtain rfl : fuel = bound := by omega
    -- the children of a node that is no expansion lie outside of it as the node does
    have hchildren : (p.draft.arena.label n).kind.isExpansion = false → ∀ c ∈ p.draft.arena.children n,
        (c : Nat) < p.draft.arena.size ∧ Outside o start p.draft.arena c := fun hkind c hc =>
      ⟨hp.ascending.child_lt n c hc, ho.outside_child h.rewrites hout hkind hc⟩
    cases hcompiled with
    | conjunction fragments _ hkind hall =>
      exact compiledAll_unentered ih _ hp h (hchildren (by rw [hkind]; rfl)) hall
    | disjunction fragments _ hkind hall =>
      exact compiledAll_unentered ih _ hp h (hchildren (by rw [hkind]; rfl)) hall
    | negation fragments _ hkind _ hall =>
      exact compiledAll_unentered ih _ hp h (hchildren (by rw [hkind]; rfl)) hall
    | scope path fragments _ s t hkind hlooked hall path' =>
      obtain ⟨md, hgrows, rfl⟩ := hlooked
      exact compiledAll_unentered ih (q := t)
        (p := { p with metadata := md, scopePath := path, scopeDepth := p.scopeDepth + 1 }) _
        ⟨hp.ascending, hgrows.faithful hp.faithful⟩ h (hchildren (by rw [hkind]; rfl)) hall
    | joined child rest fragment _ _ hkind hlist hexec' =>
      obtain ⟨hlt, hout'⟩ := hchildren (by
        obtain ⟨name, hkind⟩ | ⟨⟨name, hkind⟩, -⟩ := hkind <;> rw [hkind] <;> rfl) child (by simp [hlist])
      exact ih child p q fragment hp h hout' hlt hexec'
    | childless => exact h
    | admitted => exact h
    | expansion link generated _ stack s hkind _ hexpanded =>
      exact Expanded.unentered ho ih (p := { p with generated := stack }) (q := s)
        ⟨hp.ascending, hp.faithful⟩ h hout hexpanded
    | proximity distance ordered _ _ _ hlooked => exact hlooked.draft_eq ▸ h
    | leaf fragment _ _ hlooked _ => exact hlooked.draft_eq ▸ h

end Compile

/-! ## Reports on queries -/

/-- **Stripped once**: a report on an explicit expansion at or below an expansion `o` tells what its query at
the start settles to without a name. -/
def Report.StrippedOnce (o : Nat) (start : Arena) (name : Option String) (r : Report) : Prop :=
  start.Below o r.id → (start.label r.id).kind.isGenerated = false →
    ∀ c, start.child? r.id 0 = some c → ((start.treeAt c).stripped name).Settles r.query

namespace Compile

open Query.Arena (Outermost Outside Underway)

variable {env : Environment} {p q s t u : Progress} {c e n o v fuel : Nat} {start : Arena} {link : Link}
  (ho : start.Outermost o)

include ho

/-- **The parent scope** that is compiled for an expansion below this one is elsewhere, as it is not around that
expansion. So nothing of this one is reported. -/
theorem scope_stripped {draft : Draft} (hrewrites : start.Rewrites draft.arena)
    (hroot : ∀ root, draft.root = some root → root = 0) (hsheltered : draft.arena.Sheltered o)
    (hoe : draft.arena.Below o e) (name : Option String) :
    FilesScope env (Report.StrippedOnce o start name) start fuel e draft := by
  rintro v scope hv rfl hscope hwithin
  have hfirst := (find?_eq_some_iff hv.ascending).mp hscope
  obtain ⟨root, hroot', hfound⟩ := id hfirst
  obtain rfl := hroot root hroot'
  have hsize := (hrewrites.pruned ho.ascending).size_le
  have hfiles := nodeWithin_files_below fuel scope v hv (.inr ⟨scope, hfirst, .refl _⟩)
    (Query.Arena.lt_size_of_isParent hfound.condition_eq)
  refine (hfiles.rebase hrewrites).mono fun r hr hin => ?_
  have hlt := Nat.lt_of_lt_of_le (ho.ascending.below_lt_size hin ho.lt_size) hsize
  refine absurd (hr hlt) (ho.scope_apart hrewrites hfound.below_root hfound.condition_eq hsheltered hoe
    (fun hbelow => ?_) hin)
  have hlt' := hv.ascending.below_lt_size hoe (Nat.lt_of_lt_of_le ho.lt_size hsize)
  rw [hv.ascending.isWithin_of_below hbelow hlt'] at hwithin
  exact absurd hwithin (by simp)

/-! ### The expansion itself -/

section Own

variable (hp : Sound env p) (h : Unentered o start p.draft)
  (hthere : (p.draft.arena.label o).kind.isExpansion = true)

include hp h hthere

omit ho in
/-- **The expansion when it is entered**: it is what it was at the start, stripped of the name. -/
theorem Unentered.stripped (link : Link) :
    (∀ x : Nat, start.Below o x → (stripped p o link).draft.arena.children x = start.children x ∧
      ((stripped p o link).draft.arena.label x).kind = (start.label x).kind) ∧
    ∀ (c : Nat) (tree : Tree), start.Below o c → start.Holds c tree →
      (stripped p o link).draft.arena.Holds c (tree.stripped link.name) := by
  have hsame := h.slot_eq hthere
  have hheld : ∀ (c : Nat) (tree : Tree), start.Below o c → start.Holds c tree →
      p.draft.arena.Holds c tree := fun c tree hc hheld =>
    hheld.congr (fun x hx => Query.Arena.label_congr (hsame x (hc.trans hx)))
      fun x hx => Query.Arena.children_congr (hsame x (hc.trans hx))
  have hbelow : ∀ c : Nat, start.Below o c → p.draft.arena.Below o c := fun c hc => by
    induction hc with
    | refl => exact .refl o
    | tail hy hyz ih => exact ih.tail (by rwa [Query.Arena.children_congr (hsame _ hy)])
  -- stripping changes labels only, and of these nothing but the field
  unfold Compile.stripped
  split
  · next hname =>
    rw [hname]
    exact ⟨fun x hx => ⟨Query.Arena.children_congr (hsame x hx),
      congrArg Label.kind (Query.Arena.label_congr (hsame x hx))⟩, hheld⟩
  · next name hname =>
    obtain ⟨-, hkinds, hchildren, -⟩ := p.draft.arena.stripName_spec o name
    rw [hname]
    refine ⟨fun x hx => ⟨?_, ?_⟩, fun c tree hc hstart => ?_⟩
    · exact (hchildren x).trans (Query.Arena.children_congr (hsame x hx))
    · exact (hkinds x).trans (congrArg Label.kind (Query.Arena.label_congr (hsame x hx)))
    · have hlt := hp.ascending.below_lt_size (hbelow c hc) (Query.Arena.lt_size_of_isExpansion hthere)
      exact (hheld c tree hc hstart).stripName hp.ascending name (hbelow c hc) hlt

/-- **The stack of the expansion** at any of its turns. -/
theorem stack_underway {primary target : Link} (hprimary : primary = p.metadata.primary)
    {before after : List NodeId} (hstack : (p.draft.arena.expansions o).reverse = before ++ after)
    (hexec : exec (before.forM (resolve env (nodeWithin env fuel) primary target)) (Compile.stripped p o link) =
      (.ok ⟨⟩, q)) : Underway o (Compile.stripped p o link).draft.arena q.draft.arena := by
  have hstrip := evolves_stripped hp o link
  obtain ⟨hsame, -⟩ := h.stripped hp hthere link
  have hlt := Nat.lt_of_lt_of_le (Query.Arena.lt_size_of_isExpansion hthere) hstrip.size_le
  have hsheltered : (Compile.stripped p o link).draft.arena.Sheltered o := by
    intro x hx
    have hx' : start.Below o x := by
      induction hx with
      | refl => exact .refl o
      | tail _ hyz ih => exact ih.tail ((hsame _ ih).1 ▸ hyz)
    rw [(hsame x hx').2]
    exact ho.sheltered x hx'
  refine (expansions_turns hp hprimary hthere).invariant
    (I := fun q => Underway o (Compile.stripped p o link).draft.arena q.draft.arena) (.of_sheltered hsheltered)
    (fun e he q s hturn hq hs => ?_) before after hstack q hexec
  rw [← (stripped_framed p o link).2] at he
  obtain ⟨hopen, -⟩ := Query.Arena.open_of_mem_expansionsWithin _ (List.mem_reverse.mp he)
  exact resolve_underway hstrip.sound.ascending hlt hq hopen hturn.evolves.sound
    (hprimary.trans (hstrip.trans hturn.evolves).grows.primary_eq.symm) hturn.query hs

/-- **An expansion of the stack that has its turn** is reported with its query stripped once. -/
theorem turn_stripped {primary target : Link} (hprimary : primary = p.metadata.primary)
    {before after : List NodeId} {e : NodeId}
    (hstack : (p.draft.arena.expansions o).reverse = before ++ e :: after)
    (hexec : exec (before.forM (resolve env (nodeWithin env fuel) primary target)) (Compile.stripped p o link) =
      (.ok ⟨⟩, q)) :
    Files (Report.StrippedOnce o start link.name) start
      (resolve env (nodeWithin env fuel) primary target e) q := by
  have hstrip := evolves_stripped hp o link
  obtain ⟨hsame, hheld⟩ := h.stripped hp hthere link
  have hturn := expansions_turns hp hprimary hthere before e after hstack q hexec
  have hunderway := stack_underway ho hp h hthere hprimary hstack hexec
  have hq := hturn.evolves.sound
  have hqo : o < q.draft.arena.size := Nat.lt_of_lt_of_le (Query.Arena.lt_size_of_isExpansion hthere)
    (hstrip.trans hturn.evolves).size_le
  have hrewrites := (h.rewrites.trans (stripped_rewrites hthere link).2).trans hturn.rewrites
  have hmem : e ∈ ((Compile.stripped p o link).draft.arena.expansions o).reverse := by
    rw [(stripped_framed p o link).2, hstack]
    simp
  obtain ⟨hopen, hexpansion⟩ := Query.Arena.open_of_mem_expansionsWithin _ (List.mem_reverse.mp hmem)
  refine resolve_files hq hrewrites hturn.query (fun u hu => ?_) primary target
  have he := (hu.rewrites.pruned hq.ascending).remaining e hu.isExpansion
  have hqopen := (hturn.rewrites.traced hstrip.sound.ascending).open_after o e he hopen
  obtain ⟨hlabel, hchildren⟩ := hunderway.kept e (Query.Arena.lt_size_of_isExpansion hexpansion)
    hqopen.below fun _ => he
  constructor
  · have hworked := hu.worked hq.ascending hqo hqopen hunderway.sheltered he fun c hc => (hturn.query he c hc).2
    have huopen := (hu.rewrites.traced hq.ascending).open_after o e hu.isExpansion hqopen
    have hsame := hu.root_eq.trans (hstrip.trans hturn.evolves).root_eq
    exact scope_stripped ho (hrewrites.trans hworked.rewrites) (fun root hroot => h.root_eq root (hsame ▸ hroot))
      hworked.sheltered huopen.below link.name
  · -- the query of the expansion settled to what is reported
    rintro r c hc rfl hquery hin hexplicit c' hc'
    rcases hu.draft with hdraft | ⟨hgenerated, -⟩
    · rw [hdraft] at hc hquery
      have hc'' : q.draft.arena.child? r.id 0 = some c' := by
        rw [Query.Arena.child?, hchildren, (hsame r.id hin).1, ← Query.Arena.child?, hc']
      obtain rfl := Option.some.inj (hc.symm.trans hc'')
      have hmemc := List.mem_of_getElem? hc
      have hinc := hin.trans (.of_mem (List.mem_of_getElem? hc'))
      obtain ⟨tree', hheld', hsettles⟩ := hunderway.settles hstrip.sound.ascending
        (hstrip.sound.ascending.child_lt r.id c (hchildren ▸ hmemc)) (hqopen.below.trans (.of_mem hmemc))
        (hturn.query he c hc).2 (hheld c _ hinc (ho.ascending.holds_treeAt c))
      rwa [hquery, (hq.ascending.holds_treeAt c).unique hheld']
    · rw [hlabel, (hsame r.id hin).2] at hgenerated
      exact absurd (hgenerated.symm.trans hexplicit) (by simp)

end Own

/-! ### Nodes -/

section Nodes

variable (ih : ∀ (n : Nat) (p : Progress), Sound env p → Unentered o start p.draft →
  Outside o start p.draft.arena n → n < p.draft.arena.size →
    Files (Report.StrippedOnce o start link.name) start (nodeWithin env fuel n) p)

include ih

/-- An expansion elsewhere: what is reported on its own stack is not in question. -/
theorem turn_stripped_elsewhere {link' primary target : Link} (hp : Sound env p)
    (h : Unentered o start p.draft) (hprimary : primary = p.metadata.primary)
    (hn : (p.draft.arena.label n).kind.isExpansion = true) (hout : ¬start.Below o n)
    {before after : List NodeId} {e : NodeId}
    (hstack : (p.draft.arena.expansions n).reverse = before ++ e :: after)
    (hexec : exec (before.forM (resolve env (nodeWithin env fuel) primary target)) (Compile.stripped p n link') =
      (.ok ⟨⟩, q)) :
    Files (Report.StrippedOnce o start link.name) start
      (resolve env (nodeWithin env fuel) primary target e) q := by
  have hpruned := h.rewrites.pruned ho.ascending
  have hturn := expansions_turns hp hprimary hn before e after hstack q hexec
  have hq := stack_unentered ho (nodeWithin_unentered ho fuel) hp h hprimary hn hout hstack hexec
  have hmem : e ∈ (p.draft.arena.expansions n).reverse := hstack ▸ by simp
  obtain ⟨hopen, hkind⟩ := Query.Arena.open_of_mem_expansionsWithin _ (List.mem_reverse.mp hmem)
  have hapart : ¬start.Below o e := fun hin =>
    ho.apart h.rewrites (hpruned.remaining n hn) hout hin hopen.below
  refine resolve_files hturn.evolves.sound hq.rewrites hturn.query (fun u hu => ⟨?_, ?_⟩) primary target
  · intro v scope hv hdraft hscope _
    have hu' := hu.unentered ho (nodeWithin_unentered ho fuel) (hpruned.remaining e hkind) hapart hq
    have hfirst := (find?_eq_some_iff hu.sound.ascending).mp hscope
    obtain ⟨root, -, hfound⟩ := id hfirst
    rw [← hdraft] at hu' hfirst hfound
    exact ih scope v hv hu' (hu'.outside_scope ho hfirst) (Query.Arena.lt_size_of_isParent hfound.condition_eq)
  · rintro r c - rfl - hin
    exact absurd hin hapart

/-- **A compiled expansion.** -/
theorem expand_stripped (hlink : (start.label o).kind.link? = some link) (hp : Sound env p)
    (h : Unentered o start p.draft) (hout : Outside o start p.draft.arena n)
    (hn : (p.draft.arena.label n).kind.isExpansion = true) :
    Files (Report.StrippedOnce o start link.name) start (expand env (nodeWithin env fuel) n) p := by
  obtain ⟨link', generated, hkind⟩ := Kind.exists_of_isExpansion hn
  have hlink' : (p.draft.arena.label n).kind.link? = some link' := by rw [hkind]; rfl
  refine expand_files hn h.rewrites hlink' (fun target before e after hstack q hexec => ?_)
    fun target q hexec => ?_
  · rcases hout with hout | rfl | hbare
    · exact turn_stripped_elsewhere ho ih hp h rfl hn hout hstack hexec
    · -- the name is that of the link at the start
      rw [Query.Arena.label_congr (h.slot_eq hn n (.refl n)), hlink] at hlink'
      obtain rfl := Option.some.inj hlink'
      exact turn_stripped ho hp h hn rfl hstack hexec
    · exact absurd (hn.symm.trans (hbare n (.refl n))) (by simp)
  · obtain ⟨hpq, hrewrites, hsettled, -⟩ := expansions_resolved hp rfl hn hexec
    exact .of_rests (h.rewrites.trans hrewrites) (nodeWithin_rests fuel hpq.sound hsettled)

end Nodes

/-- **Whatever is compiled**, and whatever the outcome, the queries of expansions below an outermost one
are reported when they were stripped of its name once. -/
theorem nodeWithin_stripped (hlink : (start.label o).kind.link? = some link) (fuel n : Nat) (p : Progress)
    (hp : Sound env p) (h : Unentered o start p.draft) (hout : Outside o start p.draft.arena n)
    (hn : n < p.draft.arena.size) :
    Files (Report.StrippedOnce o start link.name) start (nodeWithin env fuel n) p := by
  induction fuel generalizing n p with
  | zero => exact .throw h.rewrites _
  | succ fuel ih =>
    refine nodeWithin_succ_files hp h.rewrites hn (fun hkind s hs hdraft before c after hchildren fragments q
      hq => ?_) fun link' generated stack hk => ?_
    · rw [← hdraft] at h hout hn hkind hchildren
      have hmem : ∀ x ∈ before ++ c :: after, (x : Nat) < s.draft.arena.size ∧
          Outside o start s.draft.arena x := fun x hx => by
        rw [← hchildren] at hx
        exact ⟨hs.ascending.child_lt n x hx, ho.outside_child h.rewrites hout hkind hx⟩
      have hbefore := fun x (hx : x ∈ before) => hmem x (List.mem_append_left _ hx)
      obtain ⟨hclt, hcout⟩ := hmem c (by simp)
      have hsq := ((wp_of_ok hq).mp (leads_compiledAll fuel (nodeWithin_steps fuel) hs before)).1
      have hrewrites := compiledAll_rewrites before hs (fun x hx => (hbefore x hx).1) hq
      exact ih c q hsq.sound
        (compiledAll_unentered (nodeWithin_unentered ho fuel) before hs h hbefore hq)
        (hcout.rewrites hs.ascending hclt hrewrites) (Nat.lt_of_lt_of_le hclt hsq.size_le)
    · exact expand_stripped ho ih (p := { p with generated := stack }) hlink ⟨hp.ascending, hp.faithful⟩ h hout
        (by rw [hk]; rfl)

end Compile

/-! ## Calls on a compiler -/

namespace Compile

variable {env : Environment} {p : Progress} {o : Nat} {start : Arena} {name : Option String}

/-- **Between two calls**, all of which were successful so far. -/
structure KeepsOut (env : Environment) (o : Nat) (start : Arena) (name : Option String) (p : Progress) :
    Prop where
  rooted : Rooted env p
  unentered : Unentered o start p.draft
  reported : ∀ r ∈ p.reports, r.StrippedOnce o start name

/-- **After any call**, maybe a failed one. -/
structure Stripped (o : Nat) (start : Arena) (name : Option String) (q : Progress) : Prop where
  rewrites : start.Rewrites q.draft.arena
  reported : ∀ r ∈ q.reports, r.StrippedOnce o start name

theorem KeepsOut.stripped (h : KeepsOut env o start name p) :
    Stripped o start name p := ⟨h.unentered.rewrites, h.reported⟩

/-- Filters of aggregates are compiled in the same draft. -/
theorem KeepsOut.aggregate (h : KeepsOut env o start name p) (b : Bool) :
    KeepsOut env o start name { p with aggregating := b } :=
  ⟨⟨⟨h.rooted.1.ascending, h.rooted.1.faithful⟩, h.rooted.2⟩, h.unentered, h.reported⟩

/-- The calls on a compiler are disciplined. -/
theorem keepsOut_discipline : Discipline env (KeepsOut env o start name)
    (fun _ q => KeepsOut env o start name q) (fun _ q => Stripped o start name q) where
  sound := fun _ h => h.rooted.1
  keep := fun _ _ _ h => h
  looked := fun p q hp h => by
    have hq := (h.evolves hp.rooted.1).sound
    have hkeeps : KeepsOut env o start name q :=
      ⟨⟨hq, h.draft_eq ▸ hp.rooted.2⟩, h.draft_eq ▸ hp.unentered, h.reports_eq ▸ hp.reported⟩
    exact ⟨hkeeps, hkeeps.stripped⟩
  trans := fun _ _ _ _ h => h
  fail := fun _ _ _ _ h => h

/-- **The query of the draft** obeys this discipline. -/
theorem rootQuery_obeys_keepsOut {link : Link} (ho : start.Outermost o)
    (hlink : (start.label o).kind.link? = some link) :
    Obeys (KeepsOut env o start link.name) (fun _ q => KeepsOut env o start link.name q)
      (fun _ q => Stripped o start link.name q) (rootQuery env) := by
  intro p hp
  unfold wp
  cases hroot : p.draft.root with
  | none =>
    rw [exec_rootQuery_none hroot]
    exact hp
  | some root =>
    rw [exec_rootQuery hroot]
    have hlt := hp.rooted.2 root hroot
    have hzero := hp.unentered.root_eq root hroot
    -- the root comes before everything else, so that it is not below the expansion unless it is the
    -- expansion
    have hout : Arena.Outside o start p.draft.arena root := by
      by_cases hin : start.Below o root
      · have hle := ho.ascending.le_of_below hin
        exact .inr (.inl (Nat.le_antisymm (hzero ▸ Nat.zero_le o) hle))
      · exact .inl hin
    have hfiles := nodeWithin_stripped ho hlink (depthBound p.draft.arena.size) root p hp.rooted.1
      hp.unentered hout hlt
    have hreported : ∀ q, Filed (Report.StrippedOnce o start link.name) p q →
        ∀ r ∈ q.reports, r.StrippedOnce o start link.name := fun q hq r hr =>
      (hq r hr).elim (hp.reported r) id
    rcases hexec : exec (nodeWithin env (depthBound p.draft.arena.size) root) p with ⟨error | fragment, q⟩
    · obtain ⟨hrewrites, hq⟩ := (wp_of_error hexec).mp hfiles
      exact ⟨hrewrites, hreported q hq⟩
    · obtain ⟨hpq, -⟩ := compiled_of_ok hp.rooted.1 hexec
      refine ⟨⟨hpq.sound, fun root' hroot' => ?_⟩,
        nodeWithin_unentered ho _ root p q fragment hp.rooted.1 hp.unentered hout hlt hexec,
        hreported q ((wp_of_ok hexec).mp hfiles)⟩
      exact Nat.lt_of_lt_of_le (hp.rooted.2 root' (hpq.root_eq ▸ hroot')) hpq.size_le

end Compile

namespace Compiler

open Compile

variable {setup : Setup} {compiler : Compiler}

section Calls

variable {start : Arena} {o : Nat} {link : Link} (ho : start.Outermost o)
  (hlink : (start.label o).kind.link? = some link)

include ho hlink

/-- **One call** strips the name at most once, and not in vain if it succeeds. -/
theorem perform_stripped
    (h : KeepsOut compiler.environment o start link.name compiler.progress) (call : Call) :
    Stripped o start link.name (compiler.perform call).2.progress ∧
      ((compiler.perform call).1 = true →
        KeepsOut compiler.environment o start link.name (compiler.perform call).2.progress) := by
  have hroot : Obeys (KeepsOut compiler.environment o start link.name)
      (fun _ q => KeepsOut compiler.environment o start link.name q)
      (fun _ q => Stripped o start link.name q) (rootQuery compiler.environment) :=
    rootQuery_obeys_keepsOut ho hlink
  rcases perform_obeys keepsOut_discipline hroot h (h.aggregate true) call with
    ⟨-, hdone⟩ | ⟨hfails, hdone⟩
  · have hkeeps : KeepsOut compiler.environment o start link.name (compiler.perform call).2.progress :=
      hdone.keeps h (fun _ b hs => hs.aggregate b) fun _ _ _ hq => hq
    exact ⟨hkeeps.stripped, fun _ => hkeeps⟩
  · refine ⟨hdone.keeps h.stripped (fun _ _ hs => ⟨hs.rewrites, hs.reported⟩) fun _ _ _ hq => hq,
      fun hok => ?_⟩
    exact absurd (hfails.symm.trans hok) Bool.false_ne_true

/-- **Successful calls**, and one more. -/
theorem after_stripped (h : KeepsOut compiler.environment o start link.name compiler.progress)
    (calls : List Call) (hcalls : compiler.succeeds calls = true) (call : Call) :
    Stripped o start link.name (compiler.after (calls ++ [call])).progress := by
  induction calls generalizing compiler with
  | nil => exact (perform_stripped ho hlink h call).1
  | cons first rest ih =>
    rw [succeeds, Bool.and_eq_true] at hcalls
    have hnext := (perform_stripped ho hlink h first).2 hcalls.1
    rw [← perform_environment compiler first] at hnext
    exact ih hnext hcalls.2

end Calls

/-- **The name of the outermost link is stripped, once, and no other one.** After some successful calls and
one more, whatever its outcome, every explicit expansion at or below an outermost one was reported with what
its query settles to without the name of the outermost link; a scan for it asks for what that is compiled
to. Nodes outside of all expansions are what they were.

So no field is stripped of the name of a link that is nested in other expansions. -/
theorem outermost_name_stripped (hstart : setup.start = .ok compiler) {o : NodeId} {link : Link}
    (ho : compiler.progress.draft.arena.Outermost o)
    (hlink : (compiler.progress.draft.arena.label o).kind.link? = some link) (calls : List Call)
    (hcalls : compiler.succeeds calls = true) (call : Call) :
    (∀ r ∈ (compiler.after (calls ++ [call])).reports, compiler.progress.draft.arena.Below o r.id →
      (compiler.progress.draft.arena.label r.id).kind.isGenerated = false →
      ∀ c, compiler.progress.draft.arena.child? r.id 0 = some c →
        ((compiler.progress.draft.arena.treeAt c).stripped link.name).Settles r.query ∧
        ∀ request, r.resolution = .scan request →
          ∃ (s t : Progress) (fuel n : Nat) (filter : Fragment), Sound compiler.environment s ∧
            s.draft.arena.treeAt n = r.query ∧
            exec (nodeWithin compiler.environment fuel n) s = (.ok filter, t) ∧
            request.query = .constantScore filter none) ∧
    ∀ x : Nat, x < compiler.progress.draft.arena.size → compiler.progress.draft.arena.Exposed x →
      (compiler.progress.draft.arena.label x).kind.isExpansion = false →
        (compiler.after (calls ++ [call])).progress.draft.arena.slot? x =
          compiler.progress.draft.arena.slot? x := by
  have hstarted := Setup.started_of_ok hstart
  have hidle := idle_of_started hstarted
  have hkeeps : KeepsOut compiler.environment o compiler.progress.draft.arena link.name compiler.progress := by
    refine ⟨⟨hidle.sound, hidle.rooted⟩, ⟨.refl _, fun _ _ _ => rfl, fun root => hstarted.root_eq_zero⟩, ?_⟩
    intro r hr
    obtain ⟨md, hprogress⟩ := hstarted.progress_eq
    rw [hprogress] at hr
    exact absurd hr (by simp)
  have hstripped := after_stripped ho hlink hkeeps calls hcalls call
  refine ⟨fun r hr hin hexplicit c hc => ⟨hstripped.reported r hr hin hexplicit c hc, fun request hscan => ?_⟩,
    fun x hx hexposed hkind => (hstripped.rewrites.pruned ho.ascending).slot_eq x hx hexposed hkind⟩
  have hgenuine := genuine_of_mem_reports hstarted _ hr
  rw [Report.Genuine, hscan] at hgenuine
  obtain ⟨-, -, s, t, fuel, n, filter, hs, -, -, -, -, -, -, -, htree, hexec, hquery⟩ := hgenuine
  exact ⟨s, t, fuel, n, filter, hs, htree, hexec, hquery⟩

/-- Books by the town of their author, where both links have a name. -/
def namedSearch (field : String) : Setup :=
  let author : Link := ⟨some "a", "author", "authors", "id"⟩
  let town : Link := ⟨some "b", "town", "towns", "id"⟩
  { townSearch with
    request := {
      links := [author, town]
      query := some (.expansion author (.expansion town (.word field (.str "Bath")))) } }

/-- The towns are scanned for what is left of a field without the name of the link to the authors. -/
theorem outermost_name_stripped_namedSearch : ∃ compiler r request filter,
    (namedSearch "a.name").start = .ok compiler ∧ r ∈ (compiler.after [.query]).reports ∧
      r.link.name = some "b" ∧ (Query.Tree.word "name" (.str "Bath")).Settles r.query ∧
      r.resolution = .scan request ∧ request.query = .constantScore filter none := by
  have hrun : ((namedSearch "a.name").start.toOption.any fun compiler =>
      decide ((compiler.progress.draft.arena.label 0).kind =
        .expansion ⟨some "a", "author", "authors", "id"⟩ false) &&
      decide (compiler.progress.draft.arena.children 0 = [1]) &&
      decide ((compiler.progress.draft.arena.label 1).kind =
        .expansion ⟨some "b", "town", "towns", "id"⟩ false) &&
      decide (compiler.progress.draft.arena.children 1 = [2]) &&
      decide (compiler.progress.draft.arena.slot? 2 =
        some { label := { kind := .word (.str "Bath"), field := some "a.name" }, parent := some 1 }) &&
      compiler.progress.draft.arena.labels.all (fun label => !label.kind.isParent) &&
      (compiler.after [.query]).reports.any fun r =>
        decide (r.id = 1) && decide (r.link.name = some "b") && r.resolution.request?.isSome) = true := by
    decide +kernel
  simp only [Option.any_eq_true, toOption_eq_some, List.any_eq_true, Bool.and_eq_true, decide_eq_true_eq,
    List.all_eq_true, Bool.not_eq_true', Option.isSome_iff_exists] at hrun
  obtain ⟨compiler, hstart, ⟨⟨⟨⟨⟨h₀, hc₀⟩, h₁⟩, hc₁⟩, h₂⟩, hlabels⟩, r, hr, ⟨hid, hname⟩, request, hrequest⟩ :=
    hrun
  have hasc := (Setup.started_of_ok hstart).sound.ascending
  have houter : compiler.progress.draft.arena.Outermost 0 := by
    refine ⟨hasc, by rw [h₀]; rfl, hasc.exposed_zero, fun x _ => ?_⟩
    by_cases hx : x < compiler.progress.draft.arena.size
    · exact hlabels _ (Arena.label_mem_labels hx)
    · rw [Arena.label_of_size_le (Nat.le_of_not_lt hx)]
      rfl
  have hscan := Resolution.request?_eq_some.mp hrequest
  obtain ⟨hsettles, hfilter⟩ := (outermost_name_stripped hstart houter (by rw [h₀]; rfl) [] rfl .query).1 r hr
    (.of_mem (by rw [hc₀, hid]; simp)) (by rw [hid, h₁]; rfl) 2 (by rw [hid, Arena.child?, hc₁]; rfl)
  have hword : compiler.progress.draft.arena.treeAt 2 = Query.Tree.word "a.name" (.str "Bath") :=
    (hasc.holds_treeAt 2).unique (Arena.holds_node.mpr ⟨Arena.label_of_slot? h₂,
      Arena.holdsAll_nil.mpr (Arena.children_of_slot? h₂)⟩)
  have hstripped : (Query.Tree.word "a.name" (.str "Bath")).stripped (some "a") =
      Query.Tree.word "name" (.str "Bath") := by
    rw [Tree.word, Tree.leaf, Tree.stripped, Tree.relabel_node]
    rfl
  rw [hword, hstripped] at hsettles
  obtain ⟨_, _, _, _, filter, -, -, -, hquery⟩ := hfilter request hscan
  exact ⟨compiler, r, request, filter, hstart, hr, hname, hsettles, hscan, hquery⟩

/-- **The name of a nested link is kept**: the towns are scanned for a field that is addressed by the name of
their own link. -/
theorem name_kept_namedSearch : ∃ compiler r request value boost,
    (namedSearch "b.name").start = .ok compiler ∧ compiler.query.1.isOk = true ∧
      r ∈ compiler.query.2.reports ∧ r.generated = false ∧ r.link.name = some "b" ∧
      r.resolution = .scan request ∧
      request.query = .constantScore (.term "b.name" value boost) none := by
  have hrun : ((namedSearch "b.name").start.toOption.any fun compiler =>
      compiler.query.1.isOk && compiler.query.2.reports.any fun r =>
        !r.generated && decide (r.link.name = some "b") && r.resolution.request?.any fun request =>
          match request.query with
          | .constantScore (.term field _ _) none => decide (field = "b.name")
          | _ => false) = true := by
    decide +kernel
  simp only [Option.any_eq_true, toOption_eq_some, List.any_eq_true, Bool.and_eq_true, decide_eq_true_eq,
    Bool.not_eq_true'] at hrun
  obtain ⟨compiler, hstart, hok, r, hr, ⟨hgenerated, hname⟩, request, hrequest, hquery⟩ := hrun
  split at hquery
  · next field value boost heq =>
    obtain rfl := of_decide_eq_true hquery
    exact ⟨compiler, r, request, value, boost, hstart, hok, hr, hgenerated, hname,
      Resolution.request?_eq_some.mp hrequest, heq⟩
  · exact absurd hquery (by simp)

end Compiler

end LinkedSearch
