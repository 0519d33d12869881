import LinkedSearch.Proofs.Simulation

/-! # Interrupted courses

A course that came to a halt because a scan was not answered can be taken up again, after more scans
were answered:

* `settle_bare`, `visit_bare`: there is nothing to be done to a query without expansions.
* `Answers.Agree`: answers that do not contradict others.
* `settle_agrees`, `visit_agrees`: a course that is not interrupted is the same for all such answers.
* `settle_scansLast`, `visit_scansLast`: an interrupted course ends with a scan. -/

namespace LinkedSearch

open Query (Arena Kind Label NodeId Tree)

/-- A query **without parent scopes**. -/
def Query.Tree.IsParentless (tree : Tree) : Prop := ∀ label ∈ tree.preorder, label.kind.isParent = false

/-- The parts of a query without parent scopes have none. -/
theorem Query.Tree.IsParentless.children {label : Label} {children : List Tree}
    (h : (Query.Tree.node label children).IsParentless) : ∀ tree ∈ children, tree.IsParentless := by
  intro tree htree l hl
  refine h l ?_
  rw [Tree.preorder_node]
  exact List.mem_cons_of_mem _ (Tree.mem_preorders.mpr ⟨tree, htree, hl⟩)

/-! ## Interruptions -/

namespace Course

variable {σ τ α β : Type} {course : Course σ α} {keep : σ → τ}
  {next next' : σ → α → List Event → Course τ β}

/-- **Uninterrupted**: no scan was left without an answer. -/
def Answered (course : Course σ α) : Prop := ∀ error, course.outcome ≠ .error (.unanswered error)

theorem answered_of_ok {a : α} (h : course.outcome = .ok a) : course.Answered := by
  intro error herror
  rw [h] at herror
  exact absurd herror (by simp)

/-- The same course of a larger query is interrupted just then. -/
theorem map_answered {f : σ → τ} {place : Event → Event} {g : α → β} :
    (course.map f place g).Answered ↔ course.Answered :=
  forall_congr' fun _ => not_congr map_outcome_eq_error

/-- Both parts of an uninterrupted course are uninterrupted. -/
theorem Answered.of_seq (h : (course.seq keep next).Answered) : course.Answered ∧
    ∀ a, course.outcome = .ok a → (next course.state a course.events).Answered := by
  constructor
  · intro error herror
    exact h error (by rw [seq_of_error herror])
  · intro a ha error herror
    exact h error (by rw [seq_of_ok ha]; exact herror)

/-- Sequences with the same first part. -/
theorem seq_congr (h : ∀ a, course.outcome = .ok a →
    next' course.state a course.events = next course.state a course.events) :
    course.seq keep next' = course.seq keep next := by
  cases houtcome : course.outcome with
  | error stop => rw [seq_of_error houtcome, seq_of_error houtcome]
  | ok a => rw [seq_of_ok houtcome, seq_of_ok houtcome, h a houtcome]

end Course

/-- **Agreement**: a scan that was answered once is always answered so by others. -/
def Answers.Agree (answers others : Answers) : Prop :=
  ∀ log log' request found, answers log request = .ok found → others log' request = .ok found

namespace Compile

variable {env : Environment} {answers others : Answers} {g : Progress} {target : Link}
  {log : List ScanRequest}

/-! ## Without expansions -/

mutual

/-- **A bare query is settled.** -/
theorem settle_bare : ∀ {tree : Tree} {log : List ScanRequest}, tree.IsBare →
    settle env answers g target log tree = .done tree ()
  | .node label children, _, h => by
    obtain ⟨hkind, hchildren⟩ := Tree.isBare_node.mp h
    rw [settle_node hkind, settleAll_bare hchildren]
    rfl

theorem settleAll_bare : ∀ {trees : List Tree} {log : List ScanRequest},
    (∀ tree ∈ trees, tree.IsBare) → settleAll env answers g target log trees = .done trees ()
  | [], _, _ => by rw [settleAll]
  | tree :: rest, _, h => by
    obtain ⟨htree, hrest⟩ := List.forall_mem_cons.mp h
    rw [settleAll, settleAll_bare hrest, Course.seq_of_ok rfl, settle_bare htree]
    rfl

end

theorem settleFirst_bare {trees : List Tree} (h : ∀ tree ∈ trees.take 1, tree.IsBare) :
    settleFirst env answers g target log trees = .done trees () := by
  cases trees with
  | nil => rw [settleFirst]
  | cons tree rest =>
    rw [settleFirst, settle_bare (h tree (by simp))]
    rfl

/-! ## Answers that agree -/

section Agreeing

variable (executor : Executor) {log' : List ScanRequest}

/-- What a demand is met with does not depend on more than the answer. -/
theorem join_agrees (hagree : answers.Agree others) {link : Link} {left right : String} {query : Tree}
    (h : (join env answers g log link left right query).Answered) :
    join (env.answeredBy executor) others g log' link left right query =
      join env answers g log link left right query := by
  show supply others g log' left (demand? env g link left right query) = _
  unfold join at h ⊢
  cases hdemand : demand? env g link left right query with
  | none => rfl
  | some demand =>
    rw [hdemand] at h
    cases demand with
    | keys => rfl
    | scan request =>
      cases hanswer : answers log request with
      | error error => exact absurd (by simp only [supply, hanswer]) (h error)
      | ok found => simp only [supply, hanswer, hagree log log' request found hanswer]

theorem replacement_agrees (hagree : answers.Agree others) {label : Label} {link : Link}
    {generated : Bool} {children : List Tree}
    (h : (replacement env answers g target log label link generated children).Answered) :
    replacement (env.answeredBy executor) others g target log' label link generated children =
      replacement env answers g target log label link generated children := by
  have hresolver : (env.answeredBy executor).resolver = env.resolver := rfl
  have hends : joinEnds? (env.answeredBy executor) target link = joinEnds? env target link := rfl
  unfold replacement at h ⊢
  cases children with
  | nil => rfl
  | cons query rest =>
    simp only at h ⊢
    split
    · rfl
    · next hown =>
      rw [if_neg hown] at h
      split
      · next hgenerated =>
        rw [if_pos hgenerated] at h
        unfold replacementGenerated at h ⊢
        -- the first scan was answered, and so was whatever followed it
        obtain ⟨hvalues, hnext⟩ := h.of_seq
        rw [join_agrees executor hagree hvalues]
        refine Course.seq_congr fun values houtcome => ?_
        have h := hnext values houtcome
        simp only [hresolver]
        cases howner : g.metadata.owner env.resolver (label.field.getD link.rightField) with
        | error error => rfl
        | ok owner =>
          simp only [howner] at h ⊢
          split
          · rfl
          · next hprimary =>
            simp only [if_neg hprimary] at h
            cases hmapping : env.resolver.mapping link.index with
            | error error => rfl
            | ok mapping =>
              simp only [hmapping] at h ⊢
              rw [join_agrees executor hagree h.of_seq.1]
      · next hgenerated =>
        rw [if_neg hgenerated] at h
        rw [hends]
        split
        · rfl
        · next left right heq =>
          rw [heq] at h
          rw [join_agrees executor hagree h.of_seq.1]

mutual

/-- **Settling with other answers** goes as it went, if it was not interrupted. -/
theorem settle_agrees (hagree : answers.Agree others) : ∀ {tree : Tree} {log log' : List ScanRequest},
    (settle env answers g target log tree).Answered →
      settle (env.answeredBy executor) others g target log' tree =
        settle env answers g target log tree
  | .node label children, log, log', h => by
    cases hkind : label.kind.isExpansion with
    | false =>
      rw [settle_node hkind] at h
      rw [settle_node hkind, settle_node hkind, settleAll_agrees hagree (Course.map_answered.mp h)]
    | true =>
      obtain ⟨link, generated, hkind⟩ := Kind.exists_of_isExpansion hkind
      rw [settle_expansion hkind] at h
      obtain ⟨hinner, hlast⟩ := h.of_seq
      rw [settle_expansion hkind, settle_expansion hkind, settleFirst_agrees hagree hinner]
      exact Course.seq_congr fun _ houtcome => replacement_agrees executor hagree (hlast _ houtcome)

theorem settleFirst_agrees (hagree : answers.Agree others) :
    ∀ {trees : List Tree} {log log' : List ScanRequest},
    (settleFirst env answers g target log trees).Answered →
      settleFirst (env.answeredBy executor) others g target log' trees =
        settleFirst env answers g target log trees
  | [], _, _, _ => by rw [settleFirst, settleFirst]
  | tree :: rest, _, _, h => by
    rw [settleFirst] at h
    rw [settleFirst, settleFirst, settle_agrees hagree (Course.map_answered.mp h)]

theorem settleAll_agrees (hagree : answers.Agree others) :
    ∀ {trees : List Tree} {log log' : List ScanRequest},
    (settleAll env answers g target log trees).Answered →
      settleAll (env.answeredBy executor) others g target log' trees =
        settleAll env answers g target log trees
  | [], _, _, _ => by rw [settleAll, settleAll]
  | tree :: rest, _, _, h => by
    rw [settleAll] at h
    obtain ⟨hrest, hfirst⟩ := h.of_seq
    rw [settleAll, settleAll, settleAll_agrees hagree (Course.map_answered.mp hrest)]
    exact Course.seq_congr fun _ houtcome => by
      rw [settle_agrees hagree (Course.map_answered.mp (hfirst _ houtcome))]

end

theorem expandTree_agrees (hagree : answers.Agree others) {tree : Tree} {link : Link}
    {generated : Bool}
    (h : (expandTree env answers g log tree link generated).Answered) :
    expandTree (env.answeredBy executor) others g log' tree link generated =
      expandTree env answers g log tree link generated := by
  have hresolving : settle (env.answeredBy executor) others _ _ log' _ = _ :=
    settle_agrees executor hagree h.of_seq.1
  show (settle (env.answeredBy executor) others _ _ log' _).seq _ _ = _
  rw [hresolving]
  rfl

mutual

/-- **Compiling with other answers** goes as it went, if it was not interrupted. -/
theorem visit_agrees (hagree : answers.Agree others) :
    ∀ {g : Progress} {tree : Tree} {log log' : List ScanRequest},
    (visit env answers g log tree).Answered →
      visit (env.answeredBy executor) others g log' tree = visit env answers g log tree
  | g, .node label children, log, log', h => by
    cases hopen : g.aggregating && label.kind.isAdmitted with
    | true => rw [visit_admitted hopen, visit_admitted hopen]
    | false =>
      rcases label.kind.sorts with ⟨wrap, hwrap⟩ | ⟨join, hjoin⟩ | hkind | ⟨link, generated, hkind⟩ |
        hterminal
      · rw [visit_connective hopen hwrap] at h
        rw [visit_connective hopen hwrap, visit_connective hopen hwrap,
          visitAll_agrees hagree (Course.map_answered.mp h)]
      · rw [visit_joined hopen hjoin] at h
        rw [visit_joined hopen hjoin, visit_joined hopen hjoin,
          visitFirst_agrees hagree (Course.map_answered.mp h)]
      · rw [visit_scope hkind] at h
        rw [visit_scope hkind, visit_scope hkind]
        rw [show enter? (env.answeredBy executor) g = enter? env g from rfl]
        cases hinner : enter? env g (.node label children) with
        | none => rfl
        | some inner =>
          simp only [hinner] at h ⊢
          rw [visitAll_agrees hagree (Course.map_answered.mp h)]
      · rw [visit_expansion hkind] at h
        rw [visit_expansion hkind, visit_expansion hkind, expandTree_agrees executor hagree h]
      · rw [visit_terminal hterminal, visit_terminal hterminal]
        rfl

theorem visitAll_agrees (hagree : answers.Agree others) :
    ∀ {g : Progress} {trees : List Tree} {log log' : List ScanRequest},
    (visitAll env answers g log trees).Answered →
      visitAll (env.answeredBy executor) others g log' trees = visitAll env answers g log trees
  | _, [], _, _, _ => by rw [visitAll, visitAll]
  | _, tree :: rest, _, _, h => by
    rw [visitAll] at h
    obtain ⟨hfirst, hrest⟩ := h.of_seq
    rw [visitAll, visitAll, visit_agrees hagree (Course.map_answered.mp hfirst)]
    exact Course.seq_congr fun _ houtcome => by
      rw [visitAll_agrees hagree (Course.map_answered.mp (hrest _ houtcome))]

theorem visitFirst_agrees (hagree : answers.Agree others) {join : Fragment → Fragment} :
    ∀ {g : Progress} {trees : List Tree} {log log' : List ScanRequest},
    (visitFirst env answers g log join trees).Answered →
      visitFirst (env.answeredBy executor) others g log' join trees =
        visitFirst env answers g log join trees
  | _, [], _, _, _ => by rw [visitFirst, visitFirst]
  | _, tree :: rest, _, _, h => by
    rw [visitFirst] at h
    rw [visitFirst, visitFirst, visit_agrees hagree (Course.map_answered.mp h)]
    rfl

end

end Agreeing

/-! ## The last event of an interrupted course -/

/-- Events of which the last one is a scan. -/
def EndsWithScan (events : List Event) : Prop :=
  ∃ e request, events.getLast? = some e ∧ e.resolution = .scan request

/-- An interrupted course **ends with a scan**. -/
def ScansLast {σ α : Type} (course : Course σ α) : Prop :=
  ∀ error, course.outcome = .error (.unanswered error) → EndsWithScan course.events

namespace ScansLast

variable {σ τ α β : Type} {course : Course σ α}

theorem refused (state : σ) (events : List Event) :
    ScansLast (⟨state, events, .error .refused⟩ : Course σ α) := fun _ h => absurd h (by simp)

theorem ok (state : σ) (events : List Event) (a : α) : ScansLast ⟨state, events, .ok a⟩ :=
  fun _ h => absurd h (by simp)

theorem map (h : ScansLast course) {f : σ → τ} {g : α → β} (place : Event → Event)
    (hplace : ∀ e, (place e).resolution = e.resolution) : ScansLast (course.map f place g) := by
  intro error herror
  obtain ⟨e, request, he, hrequest⟩ := h error (Course.map_outcome_eq_error.mp herror)
  refine ⟨place e, request, ?_, (hplace e).trans hrequest⟩
  show (course.events.map place).getLast? = _
  rw [List.getLast?_map, he]
  rfl

theorem seq {keep : σ → τ} {next : σ → α → List Event → Course τ β} (h : ScansLast course)
    (hnext : ∀ a, course.outcome = .ok a → ScansLast (next course.state a course.events)) :
    ScansLast (course.seq keep next) := by
  cases houtcome : course.outcome with
  | error stop =>
    rw [Course.seq_of_error houtcome]
    intro error herror
    obtain rfl := Except.error.inj herror
    exact h error houtcome
  | ok a =>
    rw [Course.seq_of_ok houtcome]
    intro error herror
    obtain ⟨e, request, he, hrequest⟩ := hnext a houtcome error herror
    exact ⟨e, request, by rw [List.getLast?_append, he]; rfl, hrequest⟩

end ScansLast

theorem join_scansLast (link : Link) (left right : String) (query : Tree) :
    ScansLast (join env answers g log link left right query) := by
  unfold join supply
  split
  · exact .refused _ _
  · exact .ok _ _ _
  · next request _ => exact fun _ _ => ⟨_, request, rfl, rfl⟩

theorem FollowUp.scansLast {label values : Label} {link : Link} {query : Tree} {rest : List Tree}
    {course : Course Tree Unit} (h : FollowUp env answers g label link query rest values course) :
    ScansLast course := by
  cases h with
  | unowned => exact .refused _ _
  | primary => exact .ok _ _ _
  | unmapped => exact .refused _ _
  | scanned => exact (join_scansLast _ _ _ _).seq fun _ _ => .ok _ _ _

theorem replacement_scansLast (label : Label) (link : Link) (generated : Bool)
    (children : List Tree) :
    ScansLast (replacement env answers g target log label link generated children) := by
  have hreplaced : Replaced env answers g label link generated children
      (replacement env answers g target log label link generated children) := replacement_replaced ..
  generalize replacement env answers g target log label link generated children = course at hreplaced ⊢
  cases hreplaced with
  | childless => exact .refused _ _
  | inPlace => exact .ok _ _ _
  | unjoined => exact .refused _ _
  | joined => exact (join_scansLast _ _ _ _).seq fun _ _ => .ok _ _ _
  | generated query rest log next hnext =>
    refine (join_scansLast _ _ _ _).seq fun values houtcome => ?_
    exact (hnext values _).scansLast

mutual

/-- **Settling** is interrupted by a scan only. -/
theorem settle_scansLast : ∀ {tree : Tree} {log : List ScanRequest},
    ScansLast (settle env answers g target log tree)
  | .node label children, _ => by
    cases hkind : label.kind.isExpansion with
    | false =>
      rw [settle_node hkind]
      exact settleAll_scansLast.map id fun _ => rfl
    | true =>
      obtain ⟨link, generated, hkind⟩ := Kind.exists_of_isExpansion hkind
      rw [settle_expansion hkind]
      exact settleFirst_scansLast.seq fun _ _ => replacement_scansLast _ _ _ _

theorem settleFirst_scansLast : ∀ {trees : List Tree} {log : List ScanRequest},
    ScansLast (settleFirst env answers g target log trees)
  | [], _ => by rw [settleFirst]; exact .ok _ _ _
  | tree :: rest, _ => by
    rw [settleFirst]
    exact settle_scansLast.map (Event.under 0) fun _ => rfl

theorem settleAll_scansLast : ∀ {trees : List Tree} {log : List ScanRequest},
    ScansLast (settleAll env answers g target log trees)
  | [], _ => by rw [settleAll]; exact .ok _ _ _
  | tree :: rest, _ => by
    rw [settleAll]
    refine ScansLast.seq (settleAll_scansLast.map (Event.shift 1) fun _ => rfl) fun _ _ => ?_
    exact settle_scansLast.map (Event.under 0) fun _ => rfl

end

theorem compiledTree_scansLast (g : Progress) (tree : Tree) :
    ScansLast (compiledTree env g tree) := by
  unfold compiledTree
  split
  · exact .ok _ _ _
  · exact .refused _ _

mutual

/-- **Compiling** is interrupted by a scan only. -/
theorem visit_scansLast : ∀ {g : Progress} {tree : Tree} {log : List ScanRequest},
    ScansLast (visit env answers g log tree)
  | g, .node label children, _ => by
    cases hopen : g.aggregating && label.kind.isAdmitted with
    | true => rw [visit_admitted hopen]; exact .ok _ _ _
    | false =>
      rcases label.kind.sorts with ⟨wrap, hwrap⟩ | ⟨join, hjoin⟩ | hkind | ⟨link, generated, hkind⟩ |
        hterminal
      · rw [visit_connective hopen hwrap]
        exact visitAll_scansLast.map id fun _ => rfl
      · rw [visit_joined hopen hjoin]
        exact visitFirst_scansLast.map id fun _ => rfl
      · rw [visit_scope hkind]
        split
        · exact .refused _ _
        · exact visitAll_scansLast.map id fun _ => rfl
      · rw [visit_expansion hkind]
        exact settle_scansLast.seq fun _ _ => compiledTree_scansLast _ _
      · rw [visit_terminal hterminal]
        exact compiledTree_scansLast _ _

theorem visitAll_scansLast : ∀ {g : Progress} {trees : List Tree} {log : List ScanRequest},
    ScansLast (visitAll env answers g log trees)
  | _, [], _ => by rw [visitAll]; exact .ok _ _ _
  | _, tree :: rest, _ => by
    rw [visitAll]
    refine ScansLast.seq (visit_scansLast.map (Event.under 0) fun _ => rfl) fun _ _ => ?_
    exact visitAll_scansLast.map (Event.shift 1) fun _ => rfl

theorem visitFirst_scansLast {join : Fragment → Fragment} :
    ∀ {g : Progress} {trees : List Tree} {log : List ScanRequest},
    ScansLast (visitFirst env answers g log join trees)
  | _, [], _ => by rw [visitFirst]; exact .ok _ _ _
  | _, tree :: rest, _ => by
    rw [visitFirst]
    exact visit_scansLast.map (Event.under 0) fun _ => rfl

end

/-! ## Scopes -/

/-- One enters one scope at a time. -/
theorem scopeDepth_of_enter {tree : Tree} {inner : Progress} (h : enter? env g tree = some inner) :
    inner.scopeDepth = g.scopeDepth + 1 := by
  unfold enter? at h
  split at h
  · next hzero =>
    obtain ⟨path, -, rfl⟩ := Option.map_eq_some_iff.mp h
    rw [hzero]
  · obtain rfl := Option.some.inj h
    rfl

/-- What is known about fields is the same in a scope. -/
theorem metadata_of_enter {tree : Tree} {inner : Progress} (h : enter? env g tree = some inner) :
    g.metadata = inner.metadata := by
  unfold enter? at h
  split at h
  · obtain ⟨path, -, rfl⟩ := Option.map_eq_some_iff.mp h
    rfl
  · obtain rfl := Option.some.inj h
    rfl

mutual

/-- **What is done in a scope** is done in at least as many scopes. -/
theorem visit_deep : ∀ {g : Progress} {tree : Tree} {log : List ScanRequest} {e : Event},
    e ∈ (visit env answers g log tree).events → g.scopeDepth ≤ e.scopeDepth
  | g, .node label children, log, e, he => by
    cases hopen : g.aggregating && label.kind.isAdmitted with
    | true => exact absurd he (by rw [visit_admitted hopen]; simp [Course.done])
    | false =>
      rcases label.kind.sorts with ⟨wrap, hwrap⟩ | ⟨join, hjoin⟩ | hkind | ⟨link, generated, hkind⟩ |
        hterminal
      · rw [visit_connective hopen hwrap] at he
        exact visitAll_deep (by simpa [Course.map] using he)
      · rw [visit_joined hopen hjoin] at he
        exact visitFirst_deep (by simpa [Course.map] using he)
      · rw [visit_scope hkind] at he
        split at he
        · exact absurd he (by simp [Course.halt])
        · next inner hinner =>
          -- a scope is one deeper than what is around it
          have hdeep : inner.scopeDepth ≤ e.scopeDepth :=
            visitAll_deep (by simpa [Course.map] using he)
          rw [scopeDepth_of_enter hinner] at hdeep
          exact Nat.le_of_succ_le hdeep
      · rw [visit_expansion hkind, (expandTree_spec _ link generated).2.1] at he
        obtain ⟨sub, -, hconcludes⟩ := settle_event he
        rw [hconcludes.2.1]
        cases generated <;> exact Nat.le_refl _
      · rw [visit_terminal hterminal, (compiledTree_spec env g _).2] at he
        exact absurd he (by simp)

theorem visitAll_deep : ∀ {g : Progress} {trees : List Tree} {log : List ScanRequest} {e : Event},
    e ∈ (visitAll env answers g log trees).events → g.scopeDepth ≤ e.scopeDepth
  | _, [], _, _, he => absurd he (by simp [visitAll, Course.done])
  | g, tree :: rest, log, e, he => by
    rw [visitAll] at he
    rcases Course.mem_seq_events he with he | ⟨_, -, he⟩
    · obtain ⟨e', he', rfl⟩ := List.mem_map.mp he
      have hdeep := visit_deep he'
      exact hdeep
    · obtain ⟨e', he', rfl⟩ := List.mem_map.mp he
      have hdeep := visitAll_deep he'
      exact hdeep

theorem visitFirst_deep {join : Fragment → Fragment} :
    ∀ {g : Progress} {trees : List Tree} {log : List ScanRequest} {e : Event},
    e ∈ (visitFirst env answers g log join trees).events → g.scopeDepth ≤ e.scopeDepth
  | _, [], _, _, he => absurd he (by simp [visitFirst, Course.done])
  | _, tree :: rest, _, _, he => by
    rw [visitFirst] at he
    obtain ⟨e', he', rfl⟩ := List.mem_map.mp he
    have hdeep := visit_deep he'
    exact hdeep

end

/-- What is done below a scope is done in more scopes than the scope is in. -/
theorem visit_scope_deep {label : Label} {children : List Tree} (hkind : label.kind = .scope)
    {e : Event} (he : e ∈ (visit env answers g log (.node label children)).events) :
    g.scopeDepth < e.scopeDepth := by
  rw [visit_scope hkind] at he
  split at he
  · exact absurd he (by simp [Course.halt])
  · next inner hinner =>
    have hdeep : inner.scopeDepth ≤ e.scopeDepth := visitAll_deep (by simpa [Course.map] using he)
    rw [scopeDepth_of_enter hinner] at hdeep
    exact hdeep

/-! ## Compiling again -/

/-- The only course of a query without expansions. -/
theorem compiledTree_of_ok {tree : Tree} {F : Fragment} (h : (compiledTree env g tree).outcome = .ok F) :
    compiledTree env g tree = .done tree F := by
  unfold compiledTree at h ⊢
  split at h
  · obtain rfl := Except.ok.inj h
    rfl
  · exact absurd h (by simp [Course.halt])

/-- Expansions that are being resolved do not matter for a query without any. -/
theorem compiledTree_generating (hg : g.metadata.Faithful env.resolver) {tree : Tree}
    (hbare : tree.IsBare) (generated : Bool) :
    compiledTree env (generating g generated) tree = compiledTree env g tree := by
  cases generated with
  | false => rfl
  | true =>
    obtain ⟨hsound, hroot, hpos⟩ := holding_spec hg tree
    have hrepeats : Repeats env (generating g true) (g.holding tree) :=
      ⟨hsound, ⟨hg, hg, rfl, rfl, .inr rfl, rfl⟩, rfl, rfl, rfl⟩
    have hrepeats' : Repeats env g (g.holding tree) :=
      ⟨hsound, ⟨hg, hg, rfl, rfl, .inr rfl, rfl⟩, rfl, rfl, rfl⟩
    unfold compiledTree
    rw [compiled?_eq_of_isBare hpos hroot (Nat.le_refl _) hrepeats hbare,
      compiled?_eq_of_isBare hpos hroot (Nat.le_refl _) hrepeats' hbare]

/-- **Visiting a bare query** is compiling it. -/
theorem visit_bare (hg : g.metadata.Faithful env.resolver) {tree : Tree} (hbare : tree.IsBare)
    (hparentless : tree.IsParentless) :
    visit env answers g log tree = compiledTree env g tree := by
  obtain ⟨hsound, hroot, hpos⟩ := holding_spec hg tree
  have hlabels : (g.holding tree).draft.arena.labels = tree.preorder := Arena.labels_insert tree .empty
  have hlabel : ∀ i, ((g.holding tree).draft.arena.label i).kind.isParent = false ∧
      ((g.holding tree).draft.arena.label i).kind.isExpansion = false := by
    intro i
    rcases (g.holding tree).draft.arena.label_mem_labels_or i with hmem | hdefault
    · rw [hlabels] at hmem
      exact ⟨hparentless _ hmem, hbare _ hmem⟩
    · rw [hdefault]
      exact ⟨rfl, rfl⟩
  have hstands : Stands env.silent g (g.holding tree) :=
    ⟨⟨sound_silent hsound, ⟨hg, hg, rfl, rfl, .inr rfl, rfl⟩, rfl, rfl, rfl⟩, fun i => (hlabel i).1, rfl⟩
  have hapart : AllApart env.silent g (g.holding tree) := by
    intro i around generated hkind
    have hnot := (hlabel i).2
    rw [hkind] at hnot
    exact absurd hnot (by simp [Kind.isExpansion])
  have hP := env.silent.reports_any
  have htakes := nodeWithin_takes hP (fun _ => trivial) _ _ _ _ _ hstands hapart hpos hroot
    (Nat.le_refl _)
  have hcompiled := nodeWithin_compiled hpos hroot (Nat.le_refl _) hstands hP (fun _ => trivial)
    (.inl hbare)
  have hscans : ScansLast (visit env.silent env.silent.executor.answers g (g.holding tree).scans tree) :=
    visit_scansLast
  have hwithin : Within (visit env.silent env.silent.executor.answers g (g.holding tree).scans tree) tree :=
    visit_within tree
  -- nothing is done, so that the query stays as it is
  have hsilent : visit env.silent env.silent.executor.answers g (g.holding tree).scans tree =
      compiledTree env g tree := by
    generalize visit env.silent env.silent.executor.answers g (g.holding tree).scans tree = course at *
    obtain ⟨state, events, outcome⟩ := course
    obtain rfl : events = [] := List.eq_nil_iff_forall_not_mem.mpr fun e he =>
      hbare.not_expansionAt _ (hwithin.placed e he)
    have hstate : ∀ q : Progress, q.draft.arena.Holds 0 state → q.draft = (g.holding tree).draft →
        state = tree := fun q hheld hdraft => (hdraft ▸ hheld).unique hroot
    unfold compiledTree
    rcases hexec : exec (nodeWithin env.silent tree.size 0) (g.holding tree) with ⟨error | F, q⟩
    · obtain ⟨stop, hstop, -, -, hafter⟩ := (wp_of_error hexec).mp htakes
      obtain ⟨hnone, -, -, hrested⟩ := (wp_of_error hexec).mp hcompiled
      obtain rfl : outcome = .error stop := hstop
      obtain rfl := hstate q hafter.held hrested.draft_eq
      rw [show compiled? env g state = none from hnone]
      cases stop with
      | refused => rfl
      | unanswered error =>
        obtain ⟨e, request, he, -⟩ := hscans error rfl
        exact absurd he (by simp)
    · obtain ⟨hok, -, hafter⟩ := (wp_of_ok hexec).mp htakes
      obtain ⟨hsome, -, hrested⟩ := (wp_of_ok hexec).mp hcompiled
      obtain rfl : outcome = .ok F := hok
      obtain rfl := hstate q hafter.held hrested.draft_eq
      rw [show compiled? env g state = some F from hsome]
      rfl
  have hagree : env.silent.executor.answers.Agree answers :=
    fun _ _ _ _ h => absurd h (by simp [Executor.answers, Environment.silent, Environment.answeredBy,
      Executor.run])
  have hanswered : (compiledTree env g tree).Answered := by
    intro error herror
    unfold compiledTree at herror
    split at herror
    · exact absurd herror (by simp [Course.done])
    · exact absurd herror (by simp [Course.halt])
  have hagrees : visit (env.silent.answeredBy env.executor) answers g log tree = _ :=
    visit_agrees env.executor hagree (hsilent ▸ hanswered)
  exact hagrees.trans hsilent

/-- Join values are not found without a trace. -/
theorem join_traced {link : Link} {left right : String} {query : Tree} {values : Label}
    (h : (join env answers g log link left right query).outcome = .ok values) :
    (join env answers g log link left right query).events ≠ [] := by
  unfold join supply at h ⊢
  split at h
  · exact absurd h (by simp [Course.halt])
  · exact List.cons_ne_nil _ _
  · exact List.cons_ne_nil _ _

/-- **An expansion is not replaced without a trace.** -/
theorem replacement_traced {label : Label} {link : Link} {generated : Bool} {children : List Tree}
    (h : (replacement env answers g target log label link generated children).outcome = .ok ()) :
    (replacement env answers g target log label link generated children).events ≠ [] := by
  have hseq : ∀ {course : Course Unit Label} {keep : Unit → Tree}
      {next : Unit → Label → List Event → Course Tree Unit},
      (∀ values, course.outcome = .ok values → course.events ≠ []) →
      (course.seq keep next).outcome = .ok () → (course.seq keep next).events ≠ [] := by
    intro course keep next htraced hok
    obtain ⟨values, hvalues, -⟩ := Course.seq_outcome_eq_ok.mp hok
    rw [Course.seq_of_ok hvalues]
    exact List.append_ne_nil_of_left_ne_nil (htraced values hvalues) _
  have hreplaced : Replaced env answers g label link generated children
      (replacement env answers g target log label link generated children) := replacement_replaced ..
  generalize replacement env answers g target log label link generated children = course at h hreplaced ⊢
  cases hreplaced with
  | childless => exact absurd h (by simp [Course.halt])
  | inPlace => exact List.cons_ne_nil _ _
  | unjoined => exact absurd h (by simp [Course.halt])
  | joined => exact hseq (fun _ => join_traced) h
  | generated => exact hseq (fun _ => join_traced) h

/-- **Final**: what a successful course has left is left alone, and gives the same again. -/
structure Final {σ α : Type} (run : Answers → List ScanRequest → σ → Course σ α) (course : Course σ α)
    (start : σ) (a : α) : Prop where
  again : ∀ others log, run others log course.state = .done course.state a
  still : course.events = [] → course.state = start

/-- A course of a larger query is final. -/
theorem Final.map {σ τ α β : Type} {run : Answers → List ScanRequest → σ → Course σ α}
    {run' : Answers → List ScanRequest → τ → Course τ β} {course : Course σ α} {start : σ} {a : α}
    (h : Final run course start a) {f : σ → τ} {place : Event → Event} {wrap : α → β}
    (hrun : ∀ others log s, run' others log (f s) = (run others log s).map f place wrap) :
    Final run' (course.map f place wrap) (f start) (wrap a) where
  again := fun others log => by
    show run' others log (f course.state) = _
    rw [hrun, h.again]
    rfl
  still := fun hnone => congrArg f (h.still (List.map_eq_nil_iff.mp hnone))

/-- **Expansions are final**, because they are bare in the end. -/
theorem expandTree_final (hg : g.metadata.Faithful env.resolver) {label : Label} {children : List Tree}
    {link : Link} {generated : Bool} {F : Fragment} (hkind : label.kind = .expansion link generated)
    (hok : (expandTree env answers g log (.node label children) link generated).outcome = .ok F)
    (hparentless : (expandTree env answers g log (.node label children) link generated).state.IsParentless) :
    Final (fun others log tree => visit env others g log tree)
      (expandTree env answers g log (.node label children) link generated) (.node label children) F := by
  obtain ⟨_, hresolved, hcompiled⟩ := Course.seq_outcome_eq_ok.mp hok
  have hbare : (resolving env answers g log (.node label children) link generated).state.IsBare :=
    settle_isBare hresolved
  obtain ⟨hstate, hevents, -⟩ : (expandTree env answers g log (.node label children) link generated).state =
      _ ∧ _ ∧ _ := expandTree_spec (.node label children) link generated
  rw [hstate] at hparentless
  constructor
  · intro others log'
    rw [hstate, visit_bare hg hbare hparentless]
    rw [compiledTree_generating hg hbare] at hcompiled
    exact compiledTree_of_ok hcompiled
  · intro hnone
    -- an expansion is never resolved without an event
    refine absurd hnone ?_
    obtain ⟨field, hstripped⟩ := Tree.stripped_node link.name label children
    rw [hevents]
    unfold resolving at hresolved ⊢
    have hkind' : ({ label with field } : Label).kind = .expansion link generated := hkind
    rw [hstripped, settle_expansion hkind'] at hresolved ⊢
    obtain ⟨_, hinner, hlast⟩ := Course.seq_outcome_eq_ok.mp hresolved
    rw [Course.seq_of_ok hinner]
    exact List.append_ne_nil_of_right_ne_nil _ (replacement_traced hlast)

/-- Several queries of which nothing has to be done to the first one. -/
theorem visitAll_cons_done {tree : Tree} {rest : List Tree} {F : Fragment}
    (h : visit env answers g log tree = .done tree F) : visitAll env answers g log (tree :: rest) =
      (visitAll env answers g log rest).map (tree :: ·) (Event.shift 1) (F :: ·) := by
  rw [visitAll, h, Course.seq_of_ok rfl]
  simp [Course.map, Course.done]

mutual

/-- **Compilations are final** if they have succeeded and all expansions stood outside of scopes. -/
theorem visit_final : ∀ {g : Progress} {tree : Tree} {log : List ScanRequest} {F : Fragment},
    g.metadata.Faithful env.resolver → (visit env answers g log tree).outcome = .ok F →
      (∀ e ∈ (visit env answers g log tree).events, e.scopeDepth = 0) →
      (visit env answers g log tree).state.IsParentless →
      Final (fun others log tree => visit env others g log tree) (visit env answers g log tree) tree F
  | g, .node label children, log, F, hg, hok, hfree, hparentless => by
    cases hopen : g.aggregating && label.kind.isAdmitted with
    | true =>
      rw [visit_admitted hopen] at hok ⊢
      obtain rfl := Except.ok.inj hok
      exact ⟨fun _ _ => visit_admitted hopen, fun _ => rfl⟩
    | false =>
      rcases label.kind.sorts with ⟨wrap, hwrap⟩ | ⟨join, hjoin⟩ | hkind | ⟨link, generated, hkind⟩ |
        hterminal
      · rw [visit_connective hopen hwrap] at hok hfree hparentless ⊢
        obtain ⟨clauses, hclauses, rfl⟩ := Course.map_outcome_eq_ok.mp hok
        exact (visitAll_final hg hclauses (by simpa [Course.map] using hfree) hparentless.children).map
          fun _ _ _ => visit_connective hopen hwrap
      · rw [visit_joined hopen hjoin] at hok hfree hparentless ⊢
        obtain ⟨fragment, hfragment, rfl⟩ := Course.map_outcome_eq_ok.mp hok
        exact (visitFirst_final hg hfragment (by simpa [Course.map] using hfree)
          hparentless.children).map fun _ _ _ => visit_joined hopen hjoin
      · -- nothing is done in a scope, whose path is therefore the same
        have hnone : (visit env answers g log (.node label children)).events = [] :=
          List.eq_nil_iff_forall_not_mem.mpr fun e he => by
            have hdeep := visit_scope_deep hkind he
            rw [hfree e he] at hdeep
            exact absurd hdeep (Nat.not_lt_zero _)
        rw [visit_scope hkind] at hok hnone hparentless ⊢
        cases hinner : enter? env g (.node label children) with
        | none =>
          rw [hinner] at hok
          exact absurd hok (by simp [Course.halt])
        | some inner =>
          simp only [hinner] at hok hnone hparentless ⊢
          obtain ⟨clauses, hclauses, rfl⟩ := Course.map_outcome_eq_ok.mp hok
          have hnone := List.map_eq_nil_iff.mp hnone
          have hfinal := visitAll_final (metadata_of_enter hinner ▸ hg) hclauses (by simp [hnone])
            hparentless.children
          have hstill := hfinal.still hnone
          refine ⟨fun others log' => ?_, fun _ => congrArg (Query.Tree.node label) hstill⟩
          have hagain := hfinal.again others log'
          show visit env others g log' (.node label _) = .done (.node label _) _
          rw [hstill] at hagain ⊢
          rw [visit_scope hkind, hinner]
          exact congrArg (Course.map (Query.Tree.node label) id (leave inner)) hagain
      · rw [visit_expansion hkind] at hok hparentless ⊢
        exact expandTree_final hg hkind hok hparentless
      · rw [visit_terminal hterminal] at hok ⊢
        rw [compiledTree_of_ok hok]
        exact ⟨fun _ _ => (visit_terminal hterminal).trans (compiledTree_of_ok hok), fun _ => rfl⟩

theorem visitAll_final : ∀ {g : Progress} {trees : List Tree} {log : List ScanRequest}
    {clauses : List Fragment}, g.metadata.Faithful env.resolver →
      (visitAll env answers g log trees).outcome = .ok clauses →
      (∀ e ∈ (visitAll env answers g log trees).events, e.scopeDepth = 0) →
      (∀ tree ∈ (visitAll env answers g log trees).state, tree.IsParentless) →
      Final (fun others log trees => visitAll env others g log trees) (visitAll env answers g log trees)
        trees clauses
  | _, [], _, _, _, hok, _, _ => by
    rw [visitAll] at hok ⊢
    obtain rfl := Except.ok.inj hok
    exact ⟨fun _ _ => by rw [Course.done, visitAll], fun _ => rfl⟩
  | g, tree :: rest, log, clauses, hg, hok, hfree, hparentless => by
    rw [visitAll] at hok hfree hparentless ⊢
    obtain ⟨_, hmapped, hrest⟩ := Course.seq_outcome_eq_ok.mp hok
    rw [Course.seq_of_ok hmapped] at hfree hparentless ⊢
    obtain ⟨fragment, hfirst, rfl⟩ := Course.map_outcome_eq_ok.mp hmapped
    obtain ⟨later, hlater, rfl⟩ := Course.map_outcome_eq_ok.mp hrest
    obtain ⟨hfreefirst, hfreerest⟩ := List.forall_mem_append.mp hfree
    obtain ⟨hparentfirst, hparentrest⟩ := List.forall_mem_cons.mp hparentless
    have hfinal := visit_final hg hfirst
      (fun e he => hfreefirst (Event.under 0 e) (List.mem_map_of_mem he)) hparentfirst
    have hfinals := visitAll_final hg hlater
      (fun e he => hfreerest (Event.shift 1 e) (List.mem_map_of_mem he)) hparentrest
    constructor
    · intro others log'
      exact (visitAll_cons_done (hfinal.again others log')).trans
        (congrArg (Course.map _ _ _) (hfinals.again others log'))
    · intro hnone
      obtain ⟨hnonefirst, hnonerest⟩ := List.append_eq_nil_iff.mp hnone
      exact congrArg₂ List.cons (hfinal.still (List.map_eq_nil_iff.mp hnonefirst))
        (hfinals.still (List.map_eq_nil_iff.mp hnonerest))

theorem visitFirst_final {join : Fragment → Fragment} : ∀ {g : Progress} {trees : List Tree}
    {log : List ScanRequest} {F : Fragment}, g.metadata.Faithful env.resolver →
      (visitFirst env answers g log join trees).outcome = .ok F →
      (∀ e ∈ (visitFirst env answers g log join trees).events, e.scopeDepth = 0) →
      (∀ tree ∈ (visitFirst env answers g log join trees).state, tree.IsParentless) →
      Final (fun others log trees => visitFirst env others g log join trees)
        (visitFirst env answers g log join trees) trees F
  | _, [], _, _, _, hok, _, _ => by
    rw [visitFirst] at hok ⊢
    obtain rfl := Except.ok.inj hok
    exact ⟨fun _ _ => by rw [Course.done, visitFirst], fun _ => rfl⟩
  | g, tree :: rest, log, F, hg, hok, hfree, hparentless => by
    rw [visitFirst] at hok hfree hparentless ⊢
    obtain ⟨fragment, hfirst, rfl⟩ := Course.map_outcome_eq_ok.mp hok
    exact (visit_final hg hfirst (fun e he => hfree (Event.under 0 e) (List.mem_map_of_mem he))
      (hparentless _ List.mem_cons_self)).map fun _ _ _ => by rw [visitFirst]

end

end Compile

end LinkedSearch
