import LinkedSearch.Proofs.Taking

/-! # Compilations take the course of their query

Every compilation of a query without parent scopes takes the course that is told by the query alone:

* `Within`: courses change what is theirs only.
* `stack_takes`: resolving the expansions below a node.
* `expansion_ends`: compiling an expansion.
* `nodeWithin_takes`: compiling any node. -/

namespace LinkedSearch

open Query (Arena Kind Label NodeId Tree)

namespace Compile

open Query.Tree (ExpansionIn subtreeIn?)

variable {α β : Type} {env : Environment} {answers : Answers} {P : Error → Prop} {g p q s : Progress}
  {n m c fuel : Nat} {tree : Tree} {target : Link} {log : List ScanRequest}

/-! ## Courses within a query -/

/-- **Courses one after the other** within a query. -/
theorem Within.seq {course : Course Tree β} {next : Tree → β → List Event → Course Tree α}
    (h : Within course tree) (hnext : ∀ b, course.outcome = .ok b →
      Within (next course.state b course.events) course.state) :
    Within (course.seq id next) tree := by
  refine ⟨fun path hpath => ?_, fun e he => ?_⟩
  · cases houtcome : course.outcome with
    | error stop =>
      rw [Course.seq_of_error houtcome] at hpath
      exact h.remaining path hpath
    | ok b =>
      rw [Course.seq_of_ok houtcome] at hpath
      exact h.remaining path ((hnext b houtcome).remaining path hpath)
  · rcases Course.mem_seq_events he with he | ⟨b, houtcome, he⟩
    · exact h.placed e he
    · exact h.remaining e.path ((hnext b houtcome).placed e he)

/-- A course within a child is one within its parent. -/
theorem Within.under {course : Course Tree α} (h : Within course tree) {label : Label}
    {children : List Tree} {i : Nat} (hchild : children[i]? = some tree) (f : α → β) :
    Within (course.map (fun tree => .node label (children.set i tree)) (Event.under i) f)
      (.node label children) where
  remaining := by
    intro path hpath
    obtain ⟨sub, hsub, hkind⟩ := hpath
    cases path with
    | nil =>
      rw [Tree.subtree?_nil] at hsub
      obtain rfl := Option.some.inj hsub
      exact ⟨_, rfl, hkind⟩
    | cons j path =>
      rw [Course.map, Tree.subtree?_cons, List.getElem?_set] at hsub
      -- only the subtree on the path has changed
      split at hsub
      · next heq =>
        subst heq
        have hlt := (List.getElem?_eq_some_iff.mp hchild).1
        rw [if_pos hlt] at hsub
        obtain ⟨own, hown, hkind'⟩ := h.remaining path ⟨sub, hsub, hkind⟩
        refine ⟨own, ?_, hkind'⟩
        rw [Tree.subtree?_cons, hchild]
        exact hown
      · exact ⟨sub, by rwa [Tree.subtree?_cons], hkind⟩
  placed := by
    intro e he
    obtain ⟨e', he', rfl⟩ := List.mem_map.mp he
    obtain ⟨sub, hsub, hkind⟩ := h.placed e' he'
    refine ⟨sub, ?_, hkind⟩
    show (Query.Tree.node label children).subtree? (i :: e'.path) = _
    rw [Tree.subtree?_cons, hchild]
    exact hsub

/-- A forest after other queries. -/
theorem expansionIn_append {front trees : List Tree} {i : Nat} {path : List Nat} :
    ExpansionIn (front ++ trees) (i :: path) ↔
      i < front.length ∧ ExpansionIn front (i :: path) ∨
        front.length ≤ i ∧ ExpansionIn trees ((i - front.length) :: path) := by
  unfold ExpansionIn subtreeIn?
  by_cases hlt : i < front.length
  · simp [List.getElem?_append_left hlt, hlt, Nat.not_le_of_lt hlt]
  · have hle := Nat.le_of_not_lt hlt
    simp [List.getElem?_append_right hle, hle, hlt]

/-- A course within a forest is one within a query with the forest below its root. -/
theorem Within.forest {course : Course (List Tree) α} {trees : List Tree}
    (hremaining : ∀ path, ExpansionIn course.state path → ExpansionIn trees path)
    (hplaced : ∀ e ∈ course.events, ExpansionIn trees e.path) (label : Label) (front : List Tree)
    (f : α → β) :
    Within (course.map (fun trees => .node label (front ++ trees)) (Event.shift front.length) f)
      (.node label (front ++ trees)) where
  remaining := by
    intro path hpath
    rw [Tree.expansionAt_node]
    refine (Tree.expansionAt_node.mp hpath).imp id fun hin => ?_
    cases path with
    | nil => exact absurd rfl hin.ne_nil
    | cons i path =>
      rw [expansionIn_append] at hin ⊢
      exact hin.imp id fun ⟨hle, hin⟩ => ⟨hle, hremaining _ hin⟩
  placed := by
    intro e he
    obtain ⟨e', he', rfl⟩ := List.mem_map.mp he
    have hin := hplaced e' he'
    rw [Tree.expansionAt_node]
    refine .inr ?_
    unfold Event.shift
    cases hpath : e'.path with
    | nil => exact absurd hpath hin.ne_nil
    | cons i path =>
      rw [hpath] at hin
      rw [List.modifyHead_cons, expansionIn_append]
      exact .inr ⟨Nat.le_add_left .., by rwa [Nat.add_sub_cancel]⟩

/-- **Settling** a query is within it. -/
theorem settle_within (tree : Tree) : Within (settle env answers g target log tree) tree where
  remaining := fun _ => settle_remaining
  placed := fun _ he =>
    let ⟨sub, hsub, hconcludes⟩ := settle_event he
    ⟨sub, hsub, hconcludes.1⟩

/-- **Replacing** an expansion is within it. -/
theorem replacement_within {label : Label} {link : Link} {generated : Bool} {children : List Tree}
    (hkind : label.kind = .expansion link generated)
    (hchildren : ∀ tree ∈ children.take 1, tree.IsBare) :
    Within (replacement env answers g target log label link generated children)
      (.node label children) where
  remaining := by
    intro path hpath
    rcases replacement_remains hchildren hpath with rfl | h
    · exact ⟨_, rfl, by show label.kind.isExpansion = true; rw [hkind]; rfl⟩
    · exact h
  placed := by
    intro e he
    obtain ⟨resolution, rfl⟩ := (replacement_events label link generated children).1 e he
    exact ⟨_, rfl, by show label.kind.isExpansion = true; rw [hkind]; rfl⟩

/-- Compiling a query without expansions is within it. -/
theorem compiledTree_within (tree : Tree) : Within (compiledTree env g tree) tree where
  remaining := fun path h => by rwa [(compiledTree_spec env g tree).1] at h
  placed := fun e he => by
    rw [(compiledTree_spec env g tree).2] at he
    exact absurd he (by simp)

/-- **Compiling** a query is within it. -/
theorem visit_within (tree : Tree) : Within (visit env answers g log tree) tree where
  remaining := fun _ => visit_remaining
  placed := fun _ he => (visit_event he).expansionAt

/-- **Compiling** some queries is within them. -/
theorem visitAll_within (label : Label) (front trees : List Tree) (f : List Fragment → α) :
    Within ((visitAll env answers g log trees).map (fun trees => .node label (front ++ trees))
      (Event.shift front.length) f) (.node label (front ++ trees)) := by
  refine .forest (fun _ => visitAll_remaining) (fun e he => ?_) label front f
  obtain ⟨i, child, e', hchild, rfl, harises⟩ := visitAll_event he
  obtain ⟨sub, hsub, hkind⟩ := harises.expansionAt
  refine ⟨sub, ?_, hkind⟩
  show trees[i]?.bind (·.subtree? e'.path) = some sub
  rw [hchild]
  exact hsub

/-! ## Stacks -/

theorem shift_zero : Event.shift 0 = id := by
  funext e
  unfold Event.shift
  cases hpath : e.path with
  | nil => rw [List.modifyHead_nil, ← hpath]; rfl
  | cons i path => rw [List.modifyHead_cons, Nat.add_zero, ← hpath]; rfl

/-- The queries in a forest and what is done to them, as seen from another place. -/
theorem map_shift_succ (k : Nat) (events : List Event) :
    (events.map (Event.shift 1)).map (Event.shift k) = events.map (Event.shift (k + 1)) := by
  rw [List.map_map]
  refine List.map_congr_left fun e _ => ?_
  show Event.shift k (Event.shift 1 e) = _
  unfold Event.shift
  cases e.path with
  | nil => rfl
  | cons i path =>
    simp only [List.modifyHead_cons]
    rw [Nat.add_assoc, Nat.add_comm 1 k]

theorem map_shift_under (k : Nat) (events : List Event) :
    (events.map (Event.under 0)).map (Event.shift k) = events.map (Event.under k) := by
  rw [List.map_map]
  refine List.map_congr_left fun e _ => ?_
  show Event.shift k (Event.under 0 e) = _
  unfold Event.shift Event.under
  rw [List.modifyHead_cons, Nat.zero_add]

/-- The nodes of a forest, from some place on. -/
theorem drop_children {arena : Arena} {label : Label} (front : List Tree) {rest : List Tree}
    (h : arena.Holds n (.node label (front ++ tree :: rest))) :
    ∃ c, arena.child? n front.length = some c ∧ arena.Holds c tree ∧
      (arena.children n).drop front.length = c :: (arena.children n).drop (front.length + 1) := by
  obtain ⟨-, hall⟩ := Arena.holds_node.mp h
  obtain ⟨c, hc, hheld⟩ := (hall.getElem? front.length).2 tree (by simp)
  obtain ⟨hlt, heq⟩ := List.getElem?_eq_some_iff.mp hc
  exact ⟨c, hc, hheld, by rw [List.drop_eq_getElem_cons hlt, heq]⟩

/-- There are no more nodes than queries. -/
theorem drop_children_nil {arena : Arena} {label : Label} {trees : List Tree}
    (h : arena.Holds n (.node label trees)) : (arena.children n).drop trees.length = [] := by
  obtain ⟨-, hall⟩ := Arena.holds_node.mp h
  cases hc : (arena.children n)[trees.length]? with
  | none => exact List.drop_eq_nil_of_le (List.getElem?_eq_none_iff.mp hc)
  | some c =>
    obtain ⟨tree, htree, -⟩ := (hall.getElem? trees.length).1 c hc
    rw [List.getElem?_eq_none (Nat.le_refl _)] at htree
    exact absurd htree (by simp)

/-- What the resolution of a stack of some depth does. -/
def StackTakes (env : Environment) (P : Error → Prop) (g : Progress) (target : Link)
    (fuel depth : Nat) : Prop :=
  ∀ (n : Nat) (p : Progress) (tree : Tree), Stands env g p → ApartFrom env target p →
    n < p.draft.arena.size → p.draft.arena.Holds n tree → tree.size ≤ depth + 1 →
    tree.size ≤ fuel + 1 →
    Takes env P ((p.draft.arena.expansionsWithin depth n).reverse.forM
      (resolve env (nodeWithin env fuel) g.metadata.primary target)) n
      (settle env env.executor.answers g target p.scans tree) p

/-- Nothing is done where there is nothing to do. -/
theorem Takes.pure {a : α} (hp : Sound env p) (hheld : p.draft.arena.Holds n tree) :
    Takes env P (Pure.pure a) n (.done tree a) p :=
  (wp_pure a).mpr ⟨rfl, .refl hp, .rested (.refl hp) hheld⟩

/-- What a computation does is all that counts. -/
theorem Takes.congr {x y : Compile α} {course : Course Tree α} (h : Takes env P x m course p)
    (hexec : exec y p = exec x p) : Takes env P y m course p := by
  unfold Takes wp
  rw [hexec]
  exact h

/-- Taking a course is ending as it does. -/
theorem Takes.ends {x : Compile α} {course : Course Tree α} (h : Takes env P x m course p) :
    Ends P x m course p :=
  wp_mono h (fun _ _ ⟨hok, _, hafter⟩ => ⟨hok, hafter⟩)
    fun _ _ ⟨stop, hstop, hexplains, _, hafter⟩ => ⟨stop, hstop, hexplains, hafter⟩

/-- A course leads from drafts and logs to others. -/
theorem After.congr {events : List Event} {p' q' : Progress} (h : After m tree events p' q')
    (hdraft : p.draft = p'.draft) (hreports : p.reports = p'.reports) (hscans : p.scans = p'.scans)
    (hdraft' : q.draft = q'.draft) (hreports' : q.reports = q'.reports) (hscans' : q.scans = q'.scans) :
    After m tree events p q := by
  obtain ⟨hframed, hheld, hkept, ⟨hreported, hrequested⟩⟩ := h
  rw [← hdraft, ← hdraft'] at hframed
  rw [← hdraft'] at hheld
  rw [← hdraft, ← hdraft'] at hkept
  rw [← hdraft, ← hreports, ← hreports'] at hreported
  rw [← hscans, ← hscans'] at hrequested
  exact ⟨hframed, hheld, hkept, hreported, hrequested⟩

/-- A course from another state with the same draft and the same log. -/
theorem Ends.start {x y : Compile α} {course : Course Tree α} (h : Ends P x m course s)
    (hexec : exec y p = exec x s) (hdraft : p.draft = s.draft) (hreports : p.reports = s.reports)
    (hscans : p.scans = s.scans) : Ends P y m course p := by
  unfold Ends wp at h ⊢
  rw [hexec]
  exact wp_mono h
    (fun _ _ ⟨hok, hafter⟩ => ⟨hok, hafter.congr hdraft hreports hscans rfl rfl rfl⟩)
    fun _ _ ⟨stop, hstop, hexplains, hafter⟩ =>
      ⟨stop, hstop, hexplains, hafter.congr hdraft hreports hscans rfl rfl rfl⟩

/-- What was done before a course, and is no part of it. -/
theorem Ends.after {x y : Compile α} {course : Course Tree α} (h : Ends P x m course s)
    (hexec : exec y p = exec x s) (hafter : After m tree [] p s) (hwithin : Within course tree) :
    Ends P y m course p := by
  unfold Ends wp at h ⊢
  rw [hexec]
  exact wp_mono h
    (fun _ _ ⟨hok, hafter'⟩ => ⟨hok, hafter.trans hafter' hwithin.remaining hwithin.placed⟩)
    fun _ _ ⟨stop, hstop, hexplains, hafter'⟩ =>
      ⟨stop, hstop, hexplains, hafter.trans hafter' hwithin.remaining hwithin.placed⟩

/-- **Stacks** below some children, the last one first. -/
theorem stacks_takes {depth : Nat} (ih : StackTakes env P g target fuel depth) (h : Stands env g p)
    (hapart : ApartFrom env target p) {label : Label} (front : List Tree) {trees : List Tree}
    (hheld : p.draft.arena.Holds n (.node label (front ++ trees)))
    (hdepth : Tree.sizes trees ≤ depth + 1) (hfuel : Tree.sizes trees ≤ fuel + 1) :
    Takes env P ((((p.draft.arena.children n).drop front.length).flatMap
      (p.draft.arena.expansionsWithin depth)).reverse.forM
        (resolve env (nodeWithin env fuel) g.metadata.primary target)) n
      ((settleAll env env.executor.answers g target p.scans trees).map
        (fun trees => .node label (front ++ trees)) (Event.shift front.length) id) p := by
  induction trees generalizing front with
  | nil =>
    rw [List.append_nil] at hheld
    rw [drop_children_nil hheld, settleAll]
    refine Takes.pure h.sound ?_
    simpa [Course.done] using hheld
  | cons tree rest ihr =>
    obtain ⟨c, hc, htree, hdrop⟩ := drop_children front hheld
    rw [Tree.sizes_cons] at hdepth hfuel
    have hmem := List.mem_of_getElem? hc
    have hlater : ∀ d ∈ (p.draft.arena.children n).drop (front.length + 1),
        d ∈ p.draft.arena.children n := fun d hd => List.mem_of_mem_drop hd
    have hnodup := (h.sound.ascending.nodup_children n).sublist
      (List.drop_sublist front.length (p.draft.arena.children n))
    rw [hdrop] at hnodup ⊢
    obtain ⟨hnot, hnodup⟩ := List.nodup_cons.mp hnodup
    have hrest := ihr (front ++ [tree]) (by simpa using hheld) (by omega) (by omega)
    rw [List.flatMap_cons, List.reverse_append, settleAll]
    simp only [List.length_append, List.length_singleton, List.append_assoc,
      List.singleton_append] at hrest
    rw [show ∀ l l' : List NodeId, (l ++ l').forM (resolve env (nodeWithin env fuel)
      g.metadata.primary target) = l.forM (resolve env (nodeWithin env fuel) g.metadata.primary target)
        >>= fun _ => l'.forM (resolve env (nodeWithin env fuel) g.metadata.primary target) from
      fun _ _ => List.forM_append]
    generalize hcourse : settleAll env env.executor.answers g target p.scans rest = course at hrest
    refine hrest.bind ?_ ?_
    · intro stop hstop
      have hstop := Course.map_outcome_eq_error.mp hstop
      rw [Course.seq_of_error (Course.map_outcome_eq_error.mpr hstop)]
      simp only [Course.map, Except.map, map_shift_succ, id_eq]
    · intro _ q hexec hok hpq hafter
      obtain ⟨_, hok, -⟩ := Course.map_outcome_eq_ok.mp hok
      have hscans : q.scans = p.scans ++ requests course.events := by
        rw [hafter.noted.scans_eq, Course.map, requests_map_shift]
      have hq := h.evolve hpq
      have hcalm : Calm p.draft n := .inl h.parentless
      obtain ⟨-, hframed⟩ := stacks_framed (stack_framed (nodeWithin_framed fuel) depth) h.sound
        h.repeats.primary_eq.symm hcalm _ hlater hnodup hexec
      -- the stack below the child is still the one that was read before
      have hsame := hframed.expansionsWithin_eq hmem hnot depth
      have hchild : q.draft.arena.child? n front.length = some c := by
        rw [Arena.child?, hframed.children_eq]
        exact hc
      have hqheld := hafter.held
      obtain ⟨c', hc', hqtree, -⟩ := drop_children front hqheld
      obtain rfl := Option.some.inj (hchild.symm.trans hc')
      have hclt := hq.sound.ascending.child_lt n c (List.mem_of_getElem? hchild)
      have htakes := (ih c q tree hq (hapart.evolve hpq) hclt hqtree (by omega) (by omega)).under hq.sound.ascending
        hqheld hchild
      rw [hsame, hscans] at htakes
      refine ⟨_, ?_, (settle_within tree).under (by simp) id, htakes⟩
      rw [Course.seq_of_ok (by rw [Course.map, hok]; rfl)]
      simp only [Course.map, requests_map_shift, List.map_append, map_shift_succ, map_shift_under,
        id_eq, List.set_append_right _ _ (Nat.le_refl _), Nat.sub_self, List.set_cons_zero]
      congr 1
      cases (settle env env.executor.answers g target (p.scans ++ requests course.events) tree).outcome
        <;> rfl

/-- The expansions below an expansion are found before they are stripped, which makes no difference. -/
theorem exec_expand {recur : NodeId → Compile Fragment} {link : Link}
    (hlink : (p.draft.arena.label n).kind.link? = some link) :
    exec (expand env recur n) p =
      exec (((stripped p n link).draft.arena.expansions n).reverse.forM (resolve env recur
        p.metadata.primary (if p.generated.isEmpty then p.metadata.primary else link)) >>= fun _ =>
          recur n) (stripped p n link) := by
  have hfound : ∀ f : Link → Compile Fragment, exec (linkOf n >>= f) p = exec (f link) p := fun f => by
    rw [exec_bind, exec_linkOf hlink]
  have harena : ∀ f : Arena → Compile Fragment, exec (arena >>= f) p = exec (f p.draft.arena) p :=
    fun _ => rfl
  have hget : ∀ f : Progress → Compile Fragment, exec (get >>= f) p = exec (f p) p := fun _ => rfl
  have hmodify : ∀ (change : Arena → Arena) (f : Unit → Compile Fragment),
      exec (modifyArena change >>= f) p = exec (f ()) (p.withArena (change p.draft.arena)) :=
    fun _ _ => rfl
  rw [(stripped_framed p n link).2]
  unfold expand stripped
  rw [hfound, harena, hget, hget]
  cases link.name with
  | none => rfl
  | some name => exact hmodify _ _

/-- **Stripping** a held query. -/
theorem stripped_after (hp : Sound env p) (hn : n < p.draft.arena.size)
    (hheld : p.draft.arena.Holds n tree) (link : Link) :
    After n (tree.stripped link.name) [] p (stripped p n link) := by
  have hnoted : Noted n [] p (stripped p n link) := by
    unfold stripped
    split <;> exact .nil rfl rfl
  refine ⟨(stripped_framed p n link).1, ?_, fun path _ => ?_, hnoted⟩
  · unfold stripped
    cases link.name with
    | none => exact hheld
    | some name => exact hheld.stripName hp.ascending name (.refl n) hn
  · unfold stripped
    cases link.name with
    | none => rfl
    | some name =>
      exact Arena.descend_congr path fun x _ => (Arena.stripName_spec p.draft.arena n name).2.2.1 x

/-- Expansions over synthesized links are on record while they are resolved. -/
theorem Stands.generating (h : Stands env g p) (n : Nat) :
    Stands env (generating g true) { p with generated := n :: p.generated } where
  repeats := {
    sound := ⟨h.sound.ascending, h.sound.faithful⟩
    peers := ⟨h.faithful, h.sound.faithful, h.repeats.peers.aggregating_eq,
      h.repeats.peers.scopeDepth_eq, h.repeats.peers.scopePath_eq, h.repeats.peers.arrayData_eq⟩
    origin_eq := h.repeats.origin_eq
    primary_eq := h.repeats.primary_eq
    links_eq := h.repeats.links_eq }
  parentless := h.parentless
  generated_eq := rfl

section Compilations

variable (hP : env.Reports P) (hexpansion : ∀ kind, P (.notAnExpansion kind))

include hP hexpansion

/-- The stack of an expansion is that of its query, and then the expansion itself. -/
theorem takes_snoc {label : Label} {link : Link} {generated : Bool} {children : List Tree}
    {inner : List NodeId} (h : Stands env g p) (hapart : Apart env target link)
    (hkind : label.kind = .expansion link generated) (hfuel : Tree.sizes children ≤ fuel)
    (hinner : Takes env P (inner.forM (resolve env (nodeWithin env fuel) g.metadata.primary target)) n
      ((settleFirst env env.executor.answers g target p.scans children).map (.node label) id id) p) :
    Takes env P ((inner ++ [n]).forM (resolve env (nodeWithin env fuel) g.metadata.primary target)) n
      (settle env env.executor.answers g target p.scans (.node label children)) p := by
  rw [show (inner ++ [n]).forM (resolve env (nodeWithin env fuel) g.metadata.primary target) =
    inner.forM (resolve env (nodeWithin env fuel) g.metadata.primary target) >>= fun _ =>
      [n].forM (resolve env (nodeWithin env fuel) g.metadata.primary target) from List.forM_append,
    settle_expansion hkind]
  have hsizes : Tree.sizes (settleFirst env env.executor.answers g target p.scans children).state ≤ _ :=
    sizes_settleFirst children
  have hbare : (settleFirst env env.executor.answers g target p.scans children).outcome = .ok () → _ :=
    settleFirst_isBare
  generalize settleFirst env env.executor.answers g target p.scans children = course at *
  refine hinner.bind ?_ ?_
  · intro stop hstop
    have hstop := Course.map_outcome_eq_error.mp hstop
    rw [Course.seq_of_error hstop]
    simp [Course.map, hstop, Except.map]
  · intro _ q _ hok hpq hafter
    obtain ⟨_, hok, -⟩ := Course.map_outcome_eq_ok.mp hok
    have hchildren : ∀ tree ∈ course.state.take 1, tree.IsBare ∧ tree.size ≤ fuel := by
      intro tree htree
      refine ⟨hbare hok tree htree, ?_⟩
      cases hstate : course.state with
      | nil =>
        rw [hstate] at htree
        exact absurd htree (by simp)
      | cons query rest =>
        rw [hstate] at htree hsizes
        obtain rfl : tree = query := by simpa using htree
        rw [Tree.sizes_cons] at hsizes
        omega
    have htakes := resolve_takes hP hexpansion (h.evolve hpq) hapart hafter.held hkind hchildren
    have hscans : q.scans = p.scans ++ requests course.events := by
      rw [hafter.noted.scans_eq, Course.map, List.map_id]
    have hself : Takes env P ([n].forM (resolve env (nodeWithin env fuel) g.metadata.primary target)) n
        _ q := htakes.congr (exec_forM_singleton ..)
    rw [hscans] at hself
    refine ⟨_, ?_, replacement_within hkind fun tree htree => (hchildren tree htree).1, hself⟩
    rw [Course.seq_of_ok hok]
    simp [Course.map]

/-- **A stack** takes the course of settling its query. -/
theorem stack_takes (depth : Nat) : StackTakes env P g target fuel depth := by
  induction depth with
  | zero =>
    rintro n p ⟨label, children⟩ h hapart hn hheld hdepth hfuel
    rw [Tree.size_node] at hdepth
    obtain rfl : children = [] := Tree.eq_nil_of_sizes (by omega)
    have hnone : ∀ f : NodeId → Compile Unit, Takes env P (([] : List NodeId).forM f) n
        (.done (.node label []) ()) p := fun f => .pure h.sound hheld
    have hlabel := (Arena.holds_node.mp hheld).1
    rw [Arena.expansionsWithin, hlabel]
    cases hkind : label.kind.isExpansion with
    | false =>
      rw [settle_node hkind, settleAll]
      exact hnone _
    | true =>
      obtain ⟨link, generated, hkind'⟩ := Kind.exists_of_isExpansion hkind
      have hself : Apart env target link := hapart n link (by rw [hlabel, hkind']; rfl)
      have hinner : Takes env P (([] : List NodeId).forM (resolve env (nodeWithin env fuel)
          g.metadata.primary target)) n
          ((settleFirst env env.executor.answers g target p.scans []).map (.node label) id id) p := by
        rw [settleFirst]
        exact hnone _
      exact takes_snoc hP hexpansion h hself hkind' (Nat.zero_le _) hinner
  | succ depth ih =>
    rintro n p ⟨label, children⟩ h hapart hn hheld hdepth hfuel
    rw [Tree.size_node] at hdepth hfuel
    have hlabel := (Arena.holds_node.mp hheld).1
    rw [Arena.expansionsWithin, hlabel]
    cases hkind : label.kind.isExpansion with
    | false =>
      rw [settle_node hkind]
      have hall := stacks_takes ih h hapart [] hheld (by omega) (by omega)
      rwa [List.length_nil, shift_zero] at hall
    | true =>
      obtain ⟨link, generated, hkind'⟩ := Kind.exists_of_isExpansion hkind
      rw [if_pos rfl, List.reverse_cons]
      have hself : Apart env target link := hapart n link (by rw [hlabel, hkind']; rfl)
      refine takes_snoc hP hexpansion h hself hkind' (by omega) ?_
      cases children with
      | nil =>
        have hnone : p.draft.arena.child? n 0 = none := by
          rw [Arena.child?, Arena.holdsAll_nil.mp (Arena.holds_node.mp hheld).2]
          rfl
        rw [hnone, settleFirst]
        exact .pure h.sound hheld
      | cons query rest =>
        obtain ⟨c, hc, hquery, -⟩ := drop_children [] hheld
        rw [List.length_nil] at hc
        rw [Tree.sizes_cons] at hdepth hfuel
        rw [hc, settleFirst]
        have hclt := h.sound.ascending.child_lt n c (List.mem_of_getElem? hc)
        rw [Course.map_map]
        exact (ih c p query h hapart hclt hquery (by omega) (by omega)).under h.sound.ascending hheld hc

/-- **A query without expansions** is compiled as the query tells. -/
theorem compiled_takes (h : Stands env g p) (hn : n < p.draft.arena.size)
    (hheld : p.draft.arena.Holds n tree) (hbound : tree.size ≤ fuel)
    (hknown : tree.IsBare ∨ tree.IsTerminal) :
    Takes env P (nodeWithin env fuel n) n (compiledTree env g tree) p := by
  refine wp_mono (nodeWithin_compiled hn hheld hbound h hP hexpansion hknown) ?_ ?_
  · rintro F q ⟨hF, hpq, hrested⟩
    rw [compiledTree, hF]
    exact ⟨rfl, hpq, .rested hrested hheld⟩
  · rintro error q ⟨hF, herror, hpq, hrested⟩
    rw [compiledTree, hF]
    exact ⟨.refused, rfl, herror, hpq, .rested hrested hheld⟩

/-- **The stack of an expansion and then the expansion itself**, which has become a query without expansions
and is smaller than before. -/
theorem settled_takes {target : Link} (h : Stands env g p) (hapart : ApartFrom env target p)
    (hn : n < p.draft.arena.size) (hheld : p.draft.arena.Holds n tree)
    (hkind : tree.label.kind.isExpansion = true) (hbound : tree.size ≤ fuel + 1) :
    Takes env P ((p.draft.arena.expansions n).reverse.forM
      (resolve env (nodeWithin env fuel) g.metadata.primary target) >>= fun _ => nodeWithin env fuel n) n
      ((settle env env.executor.answers g target p.scans tree).seq id
        fun tree _ _ => compiledTree env g tree) p := by
  have hle := h.sound.ascending.size_le_of_holds hn hheld
  -- as many levels are searched as there are nodes, which is more than there can be below the expansion
  have hstack := stack_takes hP hexpansion p.draft.arena.size n p tree h hapart hn hheld
    (Nat.le_succ_of_le hle) hbound
  refine hstack.bind (fun stop hstop => Course.seq_of_error hstop) fun _ q _ hok hpq hafter => ?_
  have hlt := size_settle_lt hkind hok
  refine ⟨_, Course.seq_of_ok hok, compiledTree_within _, ?_⟩
  exact compiled_takes hP hexpansion (h.evolve hpq) (Nat.lt_of_lt_of_le hn hpq.size_le)
    hafter.held (by omega) (.inl (settle_isBare hok))

/-- **Compiling an expansion** takes the course of settling it, and then that of what it has become. -/
theorem expand_ends {link : Link} {generated : Bool} (h : Stands env g p)
    (hapart : ApartFrom env (targetOf g link) p) (hheld : p.draft.arena.Holds n tree)
    (hkind : tree.label.kind = .expansion link generated)
    (hbound : tree.size ≤ fuel + 1) :
    Ends P (expand env (nodeWithin env fuel) n) n
      ((settle env env.executor.answers g (targetOf g link) p.scans (tree.stripped link.name)).seq id
        fun tree _ _ => compiledTree env g tree) p := by
  have hlink : (p.draft.arena.label n).kind.link? = some link := by
    rw [hheld.label_eq, hkind]
    rfl
  have hn : n < p.draft.arena.size := Arena.lt_size_of_isExpansion (by rw [hheld.label_eq, hkind]; rfl)
  have hstrip := evolves_stripped h.sound n link
  have hafter := stripped_after h.sound hn hheld link
  have hscans : (stripped p n link).scans = p.scans := by
    unfold stripped
    split <;> rfl
  have hsize := Tree.size_stripped link.name tree
  have hsettled := settled_takes hP hexpansion (h.evolve hstrip) (hapart.evolve hstrip)
    (Nat.lt_of_lt_of_le hn hstrip.size_le) hafter.held (by rw [Tree.kind_stripped, hkind]; rfl)
    (Nat.le_trans (Nat.le_of_eq hsize) hbound)
  rw [hscans] at hsettled
  -- stripping is no part of the course, and all that follows is within the stripped query
  have hwithin : Within ((settle env env.executor.answers g (targetOf g link) p.scans
      (tree.stripped link.name)).seq id fun tree _ _ => compiledTree env g tree)
      (tree.stripped link.name) := (settle_within _).seq fun _ _ => compiledTree_within _
  refine hsettled.ends.after ?_ hafter hwithin
  have htarget : targetOf g link =
      if p.generated.isEmpty then p.metadata.primary else link := by
    rw [targetOf, h.generated_eq, h.repeats.primary_eq]
  rw [exec_expand hlink, h.repeats.primary_eq, htarget, h.repeats.primary_eq]

/-- **Expansions**, which are on record while they are resolved if their link is synthesized. -/
theorem expansion_ends {link : Link} {generated : Bool} (h : Stands env g p)
    (hapart : AllApart env g p) (hheld : p.draft.arena.Holds n tree)
    (hkind : tree.label.kind = .expansion link generated) (hbound : tree.size ≤ fuel + 1) :
    Ends P (expansion env (nodeWithin env fuel) n generated) n
      (expandTree env env.executor.answers g p.scans tree link generated) p := by
  have hself := hapart n link generated (by rw [hheld.label_eq, hkind])
  cases generated with
  | false =>
    rw [Bool.not_false, Bool.and_true] at hself
    exact expand_ends hP hexpansion h hself hheld hkind hbound
  | true =>
    rw [Bool.not_true, Bool.and_false] at hself
    have hentered : Stands env (generating g true) { p with generated := n :: p.generated } :=
      h.generating n
    unfold expansion Ends
    rw [if_pos rfl, wp_within]
    refine wp_mono (expand_ends hP hexpansion hentered hself hheld hkind hbound) ?_ ?_
    · rintro F q ⟨hok, hafter⟩
      exact ⟨hok, hafter.congr rfl rfl rfl rfl rfl rfl⟩
    · rintro error q ⟨stop, hstop, hexplains, hafter⟩
      exact ⟨stop, hstop, hexplains, hafter.congr rfl rfl rfl rfl rfl rfl⟩

end Compilations

/-! ## Nodes -/

/-- What compiling nodes within a bound does. -/
def NodeTakes (env : Environment) (P : Error → Prop) (fuel : Nat) : Prop :=
  ∀ (g p : Progress) (n : Nat) (tree : Tree), Stands env g p → AllApart env g p →
    n < p.draft.arena.size → p.draft.arena.Holds n tree → tree.size ≤ fuel →
    Takes env P (nodeWithin env fuel n) n (visit env env.executor.answers g p.scans tree) p

/-- **Several nodes** one after the other. -/
theorem visits_takes (ih : NodeTakes env P fuel) {label : Label} (front : List Tree) {trees : List Tree}
    (h : Stands env g p) (hapart : AllApart env g p) (hheld : p.draft.arena.Holds n (.node label (front ++ trees)))
    (hbound : Tree.sizes trees ≤ fuel) :
    Takes env P (((p.draft.arena.children n).drop front.length).mapM (nodeWithin env fuel)) n
      ((visitAll env env.executor.answers g p.scans trees).map
        (fun trees => .node label (front ++ trees)) (Event.shift front.length) id) p := by
  induction trees generalizing front p with
  | nil =>
    rw [List.append_nil] at hheld
    rw [drop_children_nil hheld, visitAll]
    refine Takes.pure h.sound ?_
    simpa [Course.done] using hheld
  | cons tree rest ihr =>
    obtain ⟨c, hc, htree, hdrop⟩ := drop_children front hheld
    rw [Tree.sizes_cons] at hbound
    have hmem := List.mem_of_getElem? hc
    have hclt := h.sound.ascending.child_lt n c hmem
    rw [hdrop, List.mapM_cons, visitAll]
    have hfirst := (ih g p c tree h hapart hclt htree (by omega)).under h.sound.ascending hheld hc
    generalize visit env env.executor.answers g p.scans tree = course at hfirst
    simp only [List.set_append_right _ _ (Nat.le_refl _), Nat.sub_self, List.set_cons_zero] at hfirst
    refine hfirst.bind ?_ ?_
    · intro stop hstop
      have hstop := Course.map_outcome_eq_error.mp hstop
      rw [Course.seq_of_error (Course.map_outcome_eq_error.mpr hstop)]
      simp only [Course.map, Except.map, map_shift_under, id_eq]
    · intro _ q hexec hok hpq hafter
      obtain ⟨fragment, hfragment, rfl⟩ := Course.map_outcome_eq_ok.mp hok
      have hown : (course.map id (Event.under 0) id).outcome = .ok fragment :=
        Course.map_outcome_eq_ok.mpr ⟨fragment, hfragment, rfl⟩
      have hqheld : q.draft.arena.Holds n (.node label (front ++ course.state :: rest)) := hafter.held
      have hscans : q.scans = p.scans ++ requests course.events := by
        rw [hafter.noted.scans_eq, Course.map, requests_map_under]
      -- compiling the first child leaves the edges of the node alone
      have hframed := Arena.FramedAll.single h.sound.ascending hmem
        (nodeWithin_framed fuel c p q _ h.sound (.inl h.parentless) hclt hexec).1
      have hrest := (ihr (front ++ [course.state]) (h.evolve hpq) (hapart.evolve hpq)
        (by simpa using hqheld) (by omega)).map (fragment :: ·)
      simp only [List.length_append, List.length_singleton, List.append_assoc,
        List.singleton_append, hframed.children_eq, hscans] at hrest
      have hwithin : Within ((visitAll env env.executor.answers g (p.scans ++ requests course.events)
          rest).map _ _ _) _ := visitAll_within label (front ++ [course.state]) rest (fragment :: ·)
      simp only [List.length_append, List.length_singleton, List.append_assoc,
        List.singleton_append] at hwithin
      refine ⟨_, ?_, ?_, hrest⟩
      · rw [Course.seq_of_ok hown, Course.map_map]
        simp only [Course.map, requests_map_under, List.map_append, map_shift_succ, map_shift_under,
          id_eq]
        cases (visitAll env env.executor.answers g (p.scans ++ requests course.events) rest).outcome
          <;> rfl
      · rwa [Course.map_map]

/-- States inside of the same scopes. -/
theorem Stands.inScope (h : Stands env g p) (depth : Nat) (path : Option String) :
    Stands env { g with scopeDepth := depth, scopePath := path }
      { p with scopeDepth := depth, scopePath := path } where
  repeats := {
    sound := ⟨h.sound.ascending, h.sound.faithful⟩
    peers := ⟨h.faithful, h.sound.faithful, h.repeats.peers.aggregating_eq, rfl, .inr rfl,
      h.repeats.peers.arrayData_eq⟩
    origin_eq := h.repeats.origin_eq
    primary_eq := h.repeats.primary_eq
    links_eq := h.repeats.links_eq }
  parentless := h.parentless
  generated_eq := h.generated_eq

section Nodes

variable (ih : NodeTakes env P fuel) {label : Label} {children : List Tree}

include ih

/-- **A scope** whose path is known takes the course of its children. -/
theorem scopeClauses_ends {inner : Progress}
    (h : Stands env inner { s with scopeDepth := s.scopeDepth + 1 }) (hapart : AllApart env inner s)
    (hheld : s.draft.arena.Holds n (.node label children)) (hbound : Tree.sizes children ≤ fuel) :
    Ends P (scopeClauses (nodeWithin env fuel) (s.draft.arena.children n)) n
      ((visitAll env env.executor.answers inner s.scans children).map (.node label) id (leave inner))
      s := by
  have hall := visits_takes ih [] h hapart hheld hbound
  rw [List.length_nil, shift_zero] at hall
  unfold scopeClauses Ends
  rw [wp_bind, wp_within]
  refine wp_mono hall ?_ ?_
  · rintro _ u ⟨hall, hsu, hafter⟩
    obtain ⟨clauses, hok, rfl⟩ := Course.map_outcome_eq_ok.mp hall
    rw [wp_of_ok (exec_closing ..)]
    refine ⟨Course.map_outcome_eq_ok.mpr ⟨clauses, hok, ?_⟩, hafter.congr rfl rfl rfl ?_ ?_ ?_⟩
    · -- inside of the scope its path is not forgotten
      have hdepth : inner.scopeDepth = s.scopeDepth + 1 := h.repeats.peers.scopeDepth_eq.symm
      have hpath := h.repeats.peers.scopePath_eq.resolve_left (by omega)
      refine closeScope_congr clauses ?_ ?_
      · show inner.scopeDepth - 1 = u.scopeDepth - 1
        rw [hsu.scopeDepth_eq, hdepth]
      · exact ((hsu.scopePath_eq.resolve_left (Nat.succ_ne_zero _)).trans hpath).symm
    all_goals
      unfold closeScope
      split <;> rfl
  · rintro error u ⟨stop, hstop, hexplains, hsu, hafter⟩
    have hstop := Course.map_outcome_eq_error.mp hstop
    exact ⟨stop, Course.map_outcome_eq_error.mpr hstop, hexplains, hafter.congr rfl rfl rfl rfl rfl rfl⟩

/-- **Scopes**, of which the outermost one finds its path first. -/
theorem scope_ends (hP : env.Reports P) (h : Stands env g p) (hapart : AllApart env g p)
    (hheld : p.draft.arena.Holds n (.node label children)) (hbound : Tree.sizes children ≤ fuel) :
    Ends P (scope env (nodeWithin env fuel) n) n
      (match enter? env g (.node label children) with
        | none => .halt (.node label children) .refused
        | some inner => (visitAll env env.executor.answers inner p.scans children).map (.node label) id
            (leave inner)) p := by
  have hdepth := h.repeats.peers.scopeDepth_eq
  unfold enter?
  by_cases hzero : g.scopeDepth = 0
  · have hscope := @exec_scope env (nodeWithin env fuel) p n
    rw [if_pos (hdepth.trans hzero)] at hscope
    rw [if_pos hzero]
    have hfound := sharedPath_found h hheld hP
    rcases hexec : exec (sharedPath env n) p with ⟨error | path, q⟩
    · obtain ⟨hnone, herror, hlooked⟩ := (wp_of_error hexec).mp hfound
      rw [hexec] at hscope
      rw [hnone]
      exact (wp_of_error hscope).mpr
        ⟨.refused, rfl, herror, .of_draft hlooked.draft_eq hheld hlooked.noted⟩
    · obtain ⟨hsome, hlooked⟩ := (wp_of_ok hexec).mp hfound
      rw [hexec] at hscope
      rw [hsome]
      have hinside := (h.evolve (hlooked.evolves h.sound)).inScope 1 path
      have hone : 1 = q.scopeDepth + 1 := by rw [(hlooked.evolves h.sound).scopeDepth_eq, hdepth, hzero]
      rw [hone] at hinside
      obtain ⟨md, -, rfl⟩ := hlooked
      have hclauses := scopeClauses_ends (s := { p with metadata := md, scopePath := path }) ih hinside
        hapart hheld hbound
      rw [← hone] at hclauses
      exact hclauses.start hscope rfl rfl rfl
  · have hscope := @exec_scope env (nodeWithin env fuel) p n
    rw [if_neg (by omega)] at hscope
    rw [if_neg hzero]
    have hpath := h.repeats.peers.scopePath_eq.resolve_left hzero
    have hinside := h.inScope (p.scopeDepth + 1) p.scopePath
    have hclauses := scopeClauses_ends (s := p) ih hinside hapart hheld hbound
    rw [hdepth, hpath] at hclauses
    exact hclauses.start hscope rfl rfl rfl

/-- **Connectives** take the course of their clauses. -/
theorem connective_ends {wrap : List Fragment → Fragment} (h : Stands env g p)
    (hapart : AllApart env g p) (hheld : p.draft.arena.Holds n (.node label children))
    (hbound : Tree.sizes children ≤ fuel) (hwrap : label.kind.connective? = some wrap)
    (hopen : (g.aggregating && label.kind.isAdmitted) = false) :
    Ends P (node env (nodeWithin env fuel) n) n
      (visit env env.executor.answers g p.scans (.node label children)) p := by
  have hlabel := (Arena.holds_node.mp hheld).1
  rw [← hlabel] at hwrap
  rw [← h.repeats.peers.aggregating_eq, ← hlabel] at hopen
  have hexec : exec (node env (nodeWithin env fuel) n) p = _ := exec_node_connective hwrap hopen
  have hall := (visits_takes ih [] h hapart hheld hbound).map wrap
  rw [List.length_nil, shift_zero, Course.map_map] at hall
  rw [h.repeats.peers.aggregating_eq, hlabel] at hopen
  rw [hlabel] at hwrap
  rw [visit_connective hopen hwrap]
  exact hall.ends.start hexec rfl rfl rfl

/-- **Parent and child scopes** take the course of their first child. -/
theorem joined_ends {join : Fragment → Fragment} (h : Stands env g p)
    (hapart : AllApart env g p) (hheld : p.draft.arena.Holds n (.node label children))
    (hbound : Tree.sizes children ≤ fuel) (hjoin : label.kind.join? = some join)
    (hopen : (g.aggregating && label.kind.isAdmitted) = false) :
    Ends P (node env (nodeWithin env fuel) n) n
      (visit env env.executor.answers g p.scans (.node label children)) p := by
  obtain ⟨hlabel, hall⟩ := Arena.holds_node.mp hheld
  have hexec : exec (node env (nodeWithin env fuel) n) p = _ :=
    exec_node_joined (by rwa [hlabel]) (by rwa [h.repeats.peers.aggregating_eq, hlabel])
  rw [joined, exec_childrenOf_bind] at hexec
  rw [visit_joined hopen hjoin]
  cases children with
  | nil =>
    rw [Arena.holdsAll_nil.mp hall] at hexec
    rw [visitFirst]
    exact (Takes.pure h.sound hheld).ends.start hexec rfl rfl rfl
  | cons tree rest =>
    obtain ⟨c, later, hchildren, htree, -⟩ := Arena.holdsAll_cons.mp hall
    rw [Tree.sizes_cons] at hbound
    rw [hchildren] at hexec
    have hc : p.draft.arena.child? n 0 = some c := by
      rw [Arena.child?, hchildren]
      rfl
    have hclt := h.sound.ascending.child_lt n c (List.mem_of_getElem? hc)
    have hfirst := ((ih g p c tree h hapart hclt htree (by omega)).under h.sound.ascending hheld hc).map
      fun fragment => if env.settings.useParentChild then join fragment else fragment
    rw [visitFirst, Course.map_map]
    rw [Course.map_map] at hfirst
    exact hfirst.ends.start hexec rfl rfl rfl

end Nodes

/-- **Compilations take the course of their query**: every node, within every bound that is large
enough for what is below it. -/
theorem nodeWithin_takes (hP : env.Reports P) (hexpansion : ∀ kind, P (.notAnExpansion kind))
    (fuel : Nat) : NodeTakes env P fuel := by
  induction fuel with
  | zero =>
    intro g p n tree _ _ _ _ hbound
    have hpos := tree.size_pos
    omega
  | succ fuel ih =>
    rintro g p n ⟨label, children⟩ h hapart hn hheld hbound
    by_cases hterminal : (Query.Tree.node label children).IsTerminal
    · rw [visit_terminal hterminal]
      exact compiled_takes hP hexpansion h hn hheld hbound (.inr hterminal)
    refine Ends.takes ?_ (nodeWithin_steps (fuel + 1) n p h.sound)
    have hlabel := (Arena.holds_node.mp hheld).1
    rw [Tree.size_node] at hbound
    have hsizes := Nat.le_of_succ_le_succ hbound
    rw [nodeWithin]
    cases hopen : g.aggregating && label.kind.isAdmitted with
    | true =>
      rw [visit_admitted hopen]
      rw [← h.repeats.peers.aggregating_eq, ← hlabel] at hopen
      exact (Takes.pure h.sound hheld).ends.start (exec_node_admitted hopen) rfl rfl rfl
    | false =>
      rcases label.kind.sorts with ⟨wrap, hwrap⟩ | ⟨join, hjoin⟩ | hkind | ⟨link, generated, hkind⟩ | hleaf
      · exact connective_ends ih h hapart hheld hsizes hwrap hopen
      · exact joined_ends ih h hapart hheld hsizes hjoin hopen
      · rw [visit_scope hkind]
        exact (scope_ends ih hP h hapart hheld hsizes).start (by rw [exec_node, hlabel, hkind]) rfl rfl rfl
      · rw [visit_expansion hkind]
        have hends : Ends P (expansion env (nodeWithin env fuel) n generated) n _ p :=
          expansion_ends hP hexpansion h hapart hheld hkind (by rwa [Tree.size_node])
        exact hends.start (by rw [exec_node, hlabel, hkind]) rfl rfl rfl
      · exact absurd hleaf hterminal

end Compile

end LinkedSearch
