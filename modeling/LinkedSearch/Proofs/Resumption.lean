import LinkedSearch.Proofs.Interruption

/-! # Resuming an interrupted course

A compilation that was interrupted because a scan was not answered leaves a query behind in which some
expansions are resolved and others are not. Compiling it again takes the course up where it was
interrupted:

* `Resumes`: the scan that was not answered comes first, and the rest follows.
* `settle_resumes`: settling a query.
* `visit_resumes`: compiling a query, if nothing was done in a scope, the expansion in question was not
  scanned for the second time, and there is no more name to be stripped. -/

namespace LinkedSearch

open Query (Arena Kind Label NodeId Tree)

namespace Compile

variable {σ τ α β : Type} {env : Environment} {answers others : Answers} {g : Progress} {target : Link}
  {log : List ScanRequest}

/-! ## Resumption -/

/-- **Resumption** of an interrupted course. When what is left is run again, the first thing that is done
is the last one that was done; and with other answers, whatever was answered before and the rest make up
the whole course. -/
structure Resumes (run : Answers → List ScanRequest → σ → Course σ α) (others : Answers)
    (course : Course σ α) (start : σ) : Prop where
  again : ∀ answers log, (run answers log course.state).events.head? = course.events.getLast?
  whole : ∀ log log', run others log start = ⟨(run others log' course.state).state,
    course.events.dropLast ++ (run others log' course.state).events,
    (run others log' course.state).outcome⟩

namespace Resumes

variable {run : Answers → List ScanRequest → σ → Course σ α}
  {run' : Answers → List ScanRequest → τ → Course τ β}

/-- What runs the same way is resumed the same way. -/
theorem congr {run' : Answers → List ScanRequest → σ → Course σ α} {course : Course σ α} {start start' : σ}
    (h : Resumes run others course start)
    (hagain : ∀ answers log, run' answers log course.state = run answers log course.state)
    (hwhole : ∀ log, run' others log start' = run others log start) :
    Resumes run' others course start' where
  again := fun answers log => by rw [hagain, h.again]
  whole := fun log log' => by rw [hwhole, hagain, h.whole log log']

/-- A course of a larger query is resumed if the course of the query is. -/
theorem map {course : Course σ α} {start : σ} (h : Resumes run others course start) {f : σ → τ}
    {place : Event → Event} {wrap : α → β}
    (hrun : ∀ answers log s, run' answers log (f s) = (run answers log s).map f place wrap) :
    Resumes run' others (course.map f place wrap) (f start) where
  again := fun answers log => by
    show (run' answers log (f course.state)).events.head? = (course.events.map place).getLast?
    rw [hrun, List.getLast?_map, ← h.again answers log]
    exact List.head?_map
  whole := fun log log' => by
    show run' others log (f start) = ⟨(run' others log' (f course.state)).state,
      (course.events.map place).dropLast ++ (run' others log' (f course.state)).events,
      (run' others log' (f course.state)).outcome⟩
    rw [hrun, hrun, h.whole log log']
    simp only [Course.map, List.map_append, List.map_dropLast]

/-- **Interrupted first part** of a sequence: the second part was not reached. -/
theorem first {course : Course σ α} {start : σ} (h : Resumes run others course start)
    (hevents : course.events ≠ []) {keep : σ → τ}
    {next : Answers → List ScanRequest → σ → α → List Event → Course τ β}
    (hrun : ∀ answers log s, run' answers log (keep s) =
      (run answers log s).seq keep (next answers log))
    (hsteady : ∀ log log' s a events events',
      next others log s a events = next others log' s a events') (stop : Stop) :
    Resumes run' others ⟨keep course.state, course.events, .error stop⟩ (keep start) where
  again := fun answers log => by
    have hagain := h.again answers log
    obtain ⟨e, he⟩ : ∃ e, course.events.getLast? = some e :=
      Option.isSome_iff_exists.mp (List.getLast?_isSome.mpr hevents)
    rw [he] at hagain
    show (run' answers log (keep course.state)).events.head? = course.events.getLast?
    rw [hrun, he]
    cases houtcome : (run answers log course.state).outcome with
    | error stop => rwa [Course.seq_of_error houtcome]
    | ok a =>
      rw [Course.seq_of_ok houtcome]
      show (_ ++ _ : List Event).head? = _
      rw [List.head?_append, hagain]
      rfl
  whole := fun log log' => by
    show run' others log (keep start) = ⟨(run' others log' (keep course.state)).state,
      course.events.dropLast ++ (run' others log' (keep course.state)).events,
      (run' others log' (keep course.state)).outcome⟩
    rw [hrun, hrun, h.whole log log']
    cases houtcome : (run others log' course.state).outcome with
    | error stop => simp only [Course.seq, houtcome]
    | ok a =>
      simp only [Course.seq, houtcome, List.append_assoc]
      rw [hsteady log log' _ _ _ (run others log' course.state).events]

/-- **Interrupted second part** of a sequence: the first part is not run again. -/
theorem second {run : Answers → List ScanRequest → τ → Course τ β} {later : Course τ β} {mid start : τ}
    (h : Resumes run others later mid) (hevents : later.events ≠ []) (events : List Event)
    (hstart : ∀ log log', run others log start = ⟨(run others log' mid).state,
      events ++ (run others log' mid).events, (run others log' mid).outcome⟩) :
    Resumes run others ⟨later.state, events ++ later.events, later.outcome⟩ start where
  again := fun answers log => by
    show (run answers log later.state).events.head? = (events ++ later.events).getLast?
    obtain ⟨e, he⟩ : ∃ e, later.events.getLast? = some e :=
      Option.isSome_iff_exists.mp (List.getLast?_isSome.mpr hevents)
    rw [h.again, List.getLast?_append, he]
    rfl
  whole := fun log log' => by
    show run others log start = ⟨(run others log' later.state).state,
      (events ++ later.events).dropLast ++ (run others log' later.state).events,
      (run others log' later.state).outcome⟩
    rw [hstart log log', h.whole log' log', List.dropLast_append_of_ne_nil hevents, List.append_assoc]

end Resumes

/-- An interrupted course has events. -/
theorem ScansLast.events_ne_nil {course : Course σ α} (h : ScansLast course) {error : Error}
    (herror : course.outcome = .error (.unanswered error)) : course.events ≠ [] := by
  obtain ⟨e, -, he, -⟩ := h error herror
  rintro hnil
  rw [hnil] at he
  exact absurd he (by simp)

/-! ## Expansions that are scanned once -/

/-- **The last event** of some is the only one about its expansion: it is not about an expansion that
something was done to before. -/
def LastOnce (events : List Event) : Prop :=
  ∀ earlier e, events = earlier ++ [e] → ∀ e' ∈ earlier, e'.path ≠ e.path

theorem LastOnce.of_map {events : List Event} {place : Event → Event}
    (hplace : ∀ e e', e'.path = e.path → (place e').path = (place e).path)
    (h : LastOnce (events.map place)) : LastOnce events := by
  rintro earlier e rfl e' he' hpath
  exact h (earlier.map place) (place e) (by simp) (place e') (List.mem_map_of_mem he')
    (hplace e e' hpath)

theorem LastOnce.of_append {events later : List Event} (h : LastOnce (events ++ later)) : LastOnce later := by
  rintro earlier e rfl e' he'
  exact h (events ++ earlier) e (by simp) e' (List.mem_append_right _ he')

/-- Events about one expansion are fresh only if there is just one. -/
theorem LastOnce.dropLast_eq_nil {events : List Event} (h : LastOnce events)
    (hown : OwnEvents g events) : events.dropLast = [] := by
  rcases List.eq_nil_or_concat events with rfl | ⟨earlier, e, rfl⟩
  · rfl
  · rw [List.concat_eq_append] at *
    rw [List.dropLast_concat]
    refine List.eq_nil_iff_forall_not_mem.mpr fun e' he' => h earlier e rfl e' he' ?_
    obtain ⟨_, rfl⟩ := hown e (by simp)
    obtain ⟨_, rfl⟩ := hown e' (by simp [he'])
    rfl

/-! ## Settling -/

/-- What is asked for join values does not depend on the answer. -/
theorem join_events_eq (log log' : List ScanRequest) (link : Link) (left right : String) (query : Tree) :
    (join env others g log' link left right query).events =
      (join env answers g log link left right query).events := by
  unfold join supply
  cases demand? env g link left right query with
  | none => rfl
  | some demand => cases demand <;> rfl

/-- Join values that were asked for once and not found are asked for again. -/
theorem join_interrupted {link : Link} {left right : String} {query state : Tree} {error : Error}
    {next : Unit → Label → List Event → Course Tree Unit}
    (herror : ((join env answers g log link left right query).seq (fun _ => state) next).outcome =
      .error (.unanswered error))
    (hnext : ∀ values events, ScansLast (next () values events))
    (hdropped : ((join env answers g log link left right query).seq (fun _ => state) next).events.dropLast =
      []) :
    ((join env answers g log link left right query).seq (fun _ => state) next).state = state ∧
      ∀ (others : Answers) (log' : List ScanRequest) (next' : Unit → Label → List Event → Course Tree Unit),
        ((join env others g log' link left right query).seq (fun _ => state) next').events.head? =
          ((join env answers g log link left right query).seq (fun _ => state) next).events.getLast? := by
  have hsame : ∀ others log', (join env others g log' link left right query).events =
      (join env answers g log link left right query).events := fun _ _ => join_events_eq ..
  have htraced : ∀ values, (join env answers g log link left right query).outcome = .ok values →
      (join env answers g log link left right query).events ≠ [] := fun _ => join_traced
  have hlast : ScansLast (join env answers g log link left right query)  :=
    join_scansLast _ _ _ _
  generalize join env answers g log link left right query = course at *
  cases houtcome : course.outcome with
  | ok values =>
    rw [Course.seq_of_ok houtcome] at herror hdropped
    have hlater := (hnext values course.events).events_ne_nil herror
    rw [List.dropLast_append_of_ne_nil hlater] at hdropped
    exact absurd (List.append_eq_nil_iff.mp hdropped).1 (htraced values houtcome)
  | error stop =>
    rw [Course.seq_of_error houtcome] at herror hdropped ⊢
    refine ⟨rfl, fun others log' next' => ?_⟩
    obtain rfl := Except.error.inj herror
    have hevents : course.events ≠ [] := hlast.events_ne_nil houtcome
    -- there is nothing before the event of the scan that was not answered
    obtain ⟨e, he⟩ : ∃ e, course.events = [e] := by
      rcases List.eq_nil_or_concat course.events with hnil | ⟨earlier, e, hconcat⟩
      · exact absurd hnil hevents
      · rw [hconcat, List.concat_eq_append, List.dropLast_concat] at hdropped
        exact ⟨e, by rw [hconcat, hdropped]; rfl⟩
    have hsame := hsame others log'
    rw [he] at hsame ⊢
    generalize join env others g log' link left right query = course' at hsame ⊢
    cases houtcome' : course'.outcome with
    | error stop => rw [Course.seq_of_error houtcome', hsame]; rfl
    | ok values => rw [Course.seq_of_ok houtcome', hsame]; rfl

/-- **An expansion whose scan was not answered** is left as it is, and the same scan is asked for again. -/
theorem replacement_interrupted {label : Label} {link : Link} {generated : Bool} {children : List Tree}
    {error : Error}
    (herror : (replacement env answers g target log label link generated children).outcome =
      .error (.unanswered error))
    (honce : LastOnce (replacement env answers g target log label link generated children).events) :
    (replacement env answers g target log label link generated children).state = .node label children ∧
      ∀ others log', (replacement env others g target log' label link generated children).events.head? =
        (replacement env answers g target log label link generated children).events.getLast? := by
  have hdropped := honce.dropLast_eq_nil (replacement_events label link generated children).1
  unfold replacement at herror hdropped ⊢
  cases children with
  | nil => exact absurd herror (by simp [Course.halt])
  | cons query rest =>
    simp only at herror hdropped ⊢
    -- only scans go without an answer, so that two cases are left, and the first scan decides in both
    by_cases hown : (g.generated.isEmpty && link == g.metadata.primary) = true
    · rw [if_pos hown] at herror
      exact absurd herror (by simp)
    · simp only [if_neg hown] at herror hdropped ⊢
      by_cases hgenerated : generated = true
      · simp only [if_pos hgenerated] at herror hdropped ⊢
        obtain ⟨next, hnext, hgenerated⟩ :=
          replacementGenerated_followUp env g answers log label link query rest
        rw [hgenerated] at herror hdropped ⊢
        have hinterrupted :=
          join_interrupted herror (fun values events => (hnext values events).scansLast) hdropped
        refine ⟨hinterrupted.1, fun others log' => ?_⟩
        obtain ⟨next', -, hgenerated'⟩ :=
          replacementGenerated_followUp env g others log' label link query rest
        rw [hgenerated']
        exact hinterrupted.2 others log' fun _ => next'
      · simp only [if_neg hgenerated] at herror hdropped ⊢
        cases hends : joinEnds? env target link with
        | none =>
          rw [hends] at herror
          exact absurd herror (by simp [Course.halt])
        | some ends =>
          simp only [hends] at herror hdropped ⊢
          have hinterrupted := join_interrupted herror (fun _ _ => .ok _ _ _) hdropped
          exact ⟨hinterrupted.1, fun others log' => hinterrupted.2 others log' _⟩

/-- A query whose root is an expansion with a bare query is settled by replacing the expansion. -/
theorem settle_expansion_bare {label : Label} {link : Link} {generated : Bool} {children : List Tree}
    (hkind : label.kind = .expansion link generated)
    (hbare : ∀ tree ∈ children.take 1, tree.IsBare) :
    settle env answers g target log (.node label children) =
      replacement env answers g target log label link generated children := by
  rw [settle_expansion hkind, settleFirst_bare hbare, Course.seq_of_ok rfl]
  simp [Course.done]

/-- **An interrupted replacement is resumed** by settling the expansion, which is still what it was. -/
theorem replacement_resumes (hsteady : others.Steady) {label : Label} {link : Link} {generated : Bool}
    {children : List Tree} {error : Error} (hkind : label.kind = .expansion link generated)
    (hbare : ∀ tree ∈ children.take 1, tree.IsBare)
    (herror : (replacement env answers g target log label link generated children).outcome =
      .error (.unanswered error))
    (honce : LastOnce (replacement env answers g target log label link generated children).events) :
    Resumes (fun answers log tree => settle env answers g target log tree) others
      (replacement env answers g target log label link generated children) (.node label children) := by
  obtain ⟨hstate, hagain⟩ := replacement_interrupted herror honce
  constructor
  · intro answers' log'
    rw [hstate, settle_expansion_bare hkind hbare]
    exact hagain answers' log'
  · intro log' log''
    rw [hstate, honce.dropLast_eq_nil (replacement_events label link generated _).1,
      settle_steady hsteady log', settle_steady hsteady log'']
    rfl

/-- Of several queries of which all but the first are bare, the first one is settled. -/
theorem settleAll_cons_bare {tree : Tree} {rest : List Tree} (hbare : ∀ tree ∈ rest, tree.IsBare) :
    settleAll env answers g target log (tree :: rest) =
      (settle env answers g target log tree).map (· :: rest) (Event.under 0) id := by
  rw [settleAll, settleAll_bare hbare, Course.seq_of_ok rfl]
  simp [Course.map, Course.done]

mutual

/-- **Settling is resumed** where it was interrupted. -/
theorem settle_resumes (hagree : answers.Agree others) (hsteady : others.Steady) :
    ∀ {tree : Tree} {log : List ScanRequest} {error : Error},
    (settle env answers g target log tree).outcome = .error (.unanswered error) →
      LastOnce (settle env answers g target log tree).events →
      Resumes (fun answers log tree => settle env answers g target log tree) others
        (settle env answers g target log tree) tree
  | .node label children, log, error, herror, honce => by
    cases hkind : label.kind.isExpansion with
    | false =>
      rw [settle_node hkind] at herror honce ⊢
      exact (settleAll_resumes hagree hsteady (Course.map_outcome_eq_error.mp herror)
        (honce.of_map fun _ _ => id)).map fun _ _ _ => settle_node hkind
    | true =>
      obtain ⟨link, generated, hkind⟩ := Kind.exists_of_isExpansion hkind
      rw [settle_expansion hkind] at herror honce ⊢
      -- either the query was interrupted, or the replacement of the expansion was
      cases hinner : (settleFirst env answers g target log children).outcome with
      | error stop =>
        rw [Course.seq_of_error hinner] at herror honce ⊢
        obtain rfl := Except.error.inj herror
        refine (settleFirst_resumes hagree hsteady hinner honce).first (settleFirst_scansLast.events_ne_nil hinner)
          (fun _ _ _ => settle_expansion hkind) (fun _ _ _ _ _ _ => ?_) _
        rw [replacement_steady hsteady, replacement_steady hsteady (_ ++ _)]
      | ok _ =>
        rw [Course.seq_of_ok hinner] at herror honce ⊢
        have hbare := settleFirst_isBare hinner
        have hfirst : ∀ log', settleFirst env others g target log' children =
            settleFirst env answers g target log children := fun _ =>
          settleFirst_agrees env.executor hagree (Course.answered_of_ok hinner)
        have hlater := replacement_resumes hsteady hkind hbare herror honce.of_append
        -- the query was settled by what was answered, and so it is settled in the same way again
        refine hlater.second ((replacement_scansLast _ _ _ _).events_ne_nil herror) _ fun log' log'' => ?_
        rw [settle_expansion hkind, hfirst log', Course.seq_of_ok hinner,
          settle_expansion_bare hkind hbare, replacement_steady hsteady (log' ++ _),
          replacement_steady hsteady log'']

theorem settleFirst_resumes (hagree : answers.Agree others) (hsteady : others.Steady) :
    ∀ {trees : List Tree} {log : List ScanRequest} {error : Error},
    (settleFirst env answers g target log trees).outcome = .error (.unanswered error) →
      LastOnce (settleFirst env answers g target log trees).events →
      Resumes (fun answers log trees => settleFirst env answers g target log trees) others
        (settleFirst env answers g target log trees) trees
  | [], _, _, herror, _ => absurd herror (by rw [settleFirst]; simp [Course.done])
  | tree :: rest, _, _, herror, honce => by
    rw [settleFirst] at herror honce ⊢
    exact (settle_resumes hagree hsteady (Course.map_outcome_eq_error.mp herror)
      (honce.of_map fun _ _ hpath => congrArg (0 :: ·) hpath)).map fun _ _ _ => by rw [settleFirst]

theorem settleAll_resumes (hagree : answers.Agree others) (hsteady : others.Steady) :
    ∀ {trees : List Tree} {log : List ScanRequest} {error : Error},
    (settleAll env answers g target log trees).outcome = .error (.unanswered error) →
      LastOnce (settleAll env answers g target log trees).events →
      Resumes (fun answers log trees => settleAll env answers g target log trees) others
        (settleAll env answers g target log trees) trees
  | [], _, _, herror, _ => absurd herror (by rw [settleAll]; simp [Course.done])
  | tree :: rest, log, error, herror, honce => by
    rw [settleAll] at herror honce ⊢
    -- the later queries are settled first: either one of them was interrupted, or all are bare by now
    cases hrest : (settleAll env answers g target log rest).outcome with
    | error stop =>
      have hmapped : ((settleAll env answers g target log rest).map id (Event.shift 1) id :
          Course (List Tree) Unit).outcome = .error stop := Course.map_outcome_eq_error.mpr hrest
      rw [Course.seq_of_error hmapped] at herror honce ⊢
      obtain rfl := Except.error.inj herror
      have hresumes : Resumes (fun answers log rest =>
          ((settleAll env answers g target log rest).map id (Event.shift 1) id : Course (List Tree) Unit))
          others ((settleAll env answers g target log rest).map id (Event.shift 1) id) rest :=
        (settleAll_resumes hagree hsteady hrest (honce.of_map fun _ _ => congrArg (List.modifyHead (· + 1)))).map
          fun _ _ _ => rfl
      refine hresumes.first (fun hnil => settleAll_scansLast.events_ne_nil hrest
        (List.map_eq_nil_iff.mp hnil)) (fun _ _ _ => by rw [settleAll]) (fun _ _ _ _ _ _ => ?_) _
      rw [settle_steady hsteady, settle_steady hsteady (_ ++ _)]
    | ok _ =>
      have hmapped : ((settleAll env answers g target log rest).map id (Event.shift 1) id :
          Course (List Tree) Unit).outcome = .ok () := Course.map_outcome_eq_ok.mpr ⟨_, hrest, rfl⟩
      rw [Course.seq_of_ok hmapped] at herror honce ⊢
      have hbare := settleAll_isBare hrest
      have hfirst : ∀ log', settleAll env others g target log' rest =
          settleAll env answers g target log rest := fun _ =>
        settleAll_agrees env.executor hagree (Course.answered_of_ok hrest)
      have hinner : (settle env answers g target (log ++ requests ((settleAll env answers g target log
          rest).events.map (Event.shift 1))) tree).outcome = .error (.unanswered error) := by
        simp only [Course.map_outcome_eq_error] at herror
        exact herror
      have hresumes := settle_resumes hagree hsteady hinner (honce.of_append.of_map fun _ _ => congrArg (0 :: ·))
      have hlater : Resumes (fun answers log trees => settleAll env answers g target log trees) others
          ((settle env answers g target (log ++ requests ((settleAll env answers g target log
            rest).events.map (Event.shift 1))) tree).map (· :: (settleAll env answers g target log rest).state)
            (Event.under 0) id) (tree :: (settleAll env answers g target log rest).state) :=
        hresumes.map fun _ _ _ => settleAll_cons_bare hbare
      refine hlater.second (fun hnil => settle_scansLast.events_ne_nil hinner (List.map_eq_nil_iff.mp hnil))
        _ fun log' log'' => ?_
      rw [settleAll, hfirst, Course.seq_of_ok hmapped, settleAll_cons_bare hbare,
        settle_steady hsteady, settle_steady hsteady log'']
      rfl

end

/-! ## Compiling -/

mutual

/-- **Steady answers** compile a query the same way after any scans. -/
theorem visit_steady (hsteady : answers.Steady) : ∀ (g : Progress) (log : List ScanRequest) (tree : Tree),
    visit env answers g log tree = visit env answers g [] tree
  | g, log, .node label children => by
    cases hopen : g.aggregating && label.kind.isAdmitted with
    | true => rw [visit_admitted hopen, visit_admitted hopen]
    | false =>
      rcases label.kind.sorts with ⟨wrap, hwrap⟩ | ⟨join, hjoin⟩ | hkind | ⟨link, generated, hkind⟩ |
        hterminal
      · rw [visit_connective hopen hwrap, visit_connective hopen hwrap,
          visitAll_steady hsteady g log children]
      · rw [visit_joined hopen hjoin, visit_joined hopen hjoin,
          visitFirst_steady hsteady g log join children]
      · rw [visit_scope hkind, visit_scope hkind]
        cases enter? env g (.node label children) with
        | none => rfl
        | some inner =>
          simp only
          rw [visitAll_steady hsteady inner log children]
      · rw [visit_expansion hkind, visit_expansion hkind, expandTree, expandTree, resolving, resolving,
          settle_steady hsteady]
      · rw [visit_terminal hterminal, visit_terminal hterminal]

theorem visitAll_steady (hsteady : answers.Steady) : ∀ (g : Progress) (log : List ScanRequest)
    (trees : List Tree), visitAll env answers g log trees = visitAll env answers g [] trees
  | _, _, [] => by rw [visitAll, visitAll]
  | g, log, tree :: rest => by
    rw [visitAll, visitAll, visit_steady hsteady g log tree]
    congr 1
    funext tree fragment events
    rw [visitAll_steady hsteady g (log ++ _) rest, visitAll_steady hsteady g ([] ++ _) rest]

theorem visitFirst_steady (hsteady : answers.Steady) : ∀ (g : Progress) (log : List ScanRequest)
    (join : Fragment → Fragment) (trees : List Tree),
    visitFirst env answers g log join trees = visitFirst env answers g [] join trees
  | _, _, _, [] => by rw [visitFirst, visitFirst]
  | g, log, _, tree :: rest => by rw [visitFirst, visitFirst, visit_steady hsteady g log tree]

end

/-- **Stripped along a path**: no expansion on the way can take another name off the fields in it. -/
def StrippedAlong (subtree? : List Nat → Option Tree) (path : List Nat) : Prop :=
  ∀ outer sub link generated, outer <+: path → subtree? outer = some sub →
    sub.label.kind = .expansion link generated → sub.stripped link.name = sub

theorem StrippedAlong.children {label : Label} {children : List Tree} {path : List Nat}
    (h : StrippedAlong (Query.Tree.node label children).subtree? path) :
    StrippedAlong (Tree.subtreeIn? children) path := by
  intro outer sub link generated hprefix hsub
  refine h outer sub link generated hprefix ?_
  rwa [Tree.subtree?_node]
  rintro rfl
  exact absurd hsub (by simp)

theorem StrippedAlong.first {tree : Tree} {rest : List Tree} {path : List Nat}
    (h : StrippedAlong (Tree.subtreeIn? (tree :: rest)) (0 :: path)) :
    StrippedAlong tree.subtree? path := by
  intro outer sub link generated hprefix hsub
  exact h (0 :: outer) sub link generated (List.cons_prefix_cons.mpr ⟨rfl, hprefix⟩) (by simpa using hsub)

theorem StrippedAlong.later {tree : Tree} {rest : List Tree} {path : List Nat}
    (h : StrippedAlong (Tree.subtreeIn? (tree :: rest)) (path.modifyHead (· + 1))) :
    StrippedAlong (Tree.subtreeIn? rest) path := by
  intro outer sub link generated hprefix hsub
  cases outer with
  | nil => exact absurd hsub (by simp)
  | cons i outer =>
    cases path with
    | nil => exact absurd hprefix (by simp)
    | cons j path =>
      obtain ⟨rfl, htail⟩ := List.cons_prefix_cons.mp hprefix
      refine h ((i + 1) :: outer) sub link generated ?_ (by simpa using hsub)
      exact List.cons_prefix_cons.mpr ⟨rfl, htail⟩

/-- **Resumable** events of a query that has become what is given: nothing was done in a scope, something
was done to the last expansion for the first time, and there is no other name to be stripped there. -/
structure Resumable (events : List Event) (subtree? : List Nat → Option Tree) : Prop where
  free : ∀ e ∈ events, e.scopeDepth = 0
  once : LastOnce events
  stripped : ∀ e, events.getLast? = some e → StrippedAlong subtree? e.path

namespace Resumable

variable {events events' : List Event} {tree : Tree} {rest : List Tree}

theorem children {label : Label} {children : List Tree}
    (h : Resumable (events.map id) (Query.Tree.node label children).subtree?) :
    Resumable events (Tree.subtreeIn? children) := by
  rw [List.map_id] at h
  exact ⟨h.free, h.once, fun e he => (h.stripped e he).children⟩

theorem first (h : Resumable (events.map (Event.under 0)) (Tree.subtreeIn? (tree :: rest))) :
    Resumable events tree.subtree? where
  free := fun e he => h.free (Event.under 0 e) (List.mem_map_of_mem he)
  once := h.once.of_map fun _ _ => congrArg (0 :: ·)
  stripped := fun e he => (h.stripped (Event.under 0 e) (by rw [List.getLast?_map, he]; rfl)).first

theorem later (h : Resumable (events ++ events'.map (Event.shift 1)) (Tree.subtreeIn? (tree :: rest))) :
    Resumable events' (Tree.subtreeIn? rest) where
  free := fun e he => h.free (Event.shift 1 e) (List.mem_append_right _ (List.mem_map_of_mem he))
  once := h.once.of_append.of_map fun _ _ => congrArg (List.modifyHead (· + 1))
  stripped := fun e he => StrippedAlong.later (h.stripped (Event.shift 1 e) (by
    rw [List.getLast?_append, List.getLast?_map, he]; rfl))

end Resumable

/-- An expansion that could not be settled is still one. -/
theorem settle_interrupted {tree : Tree} {link : Link} {generated : Bool} {stop : Stop}
    (hkind : tree.label.kind = .expansion link generated)
    (herror : (settle env answers g target log tree).outcome = .error stop) :
    (settle env answers g target log tree).state.label.kind = .expansion link generated := by
  obtain ⟨label, children⟩ := tree
  replace hkind : label.kind = .expansion link generated := hkind
  rw [settle_expansion hkind] at herror ⊢
  cases hinner : (settleFirst env answers g target log children).outcome with
  | error stop => rw [Course.seq_of_error hinner]; exact hkind
  | ok _ =>
    rw [Course.seq_of_ok hinner] at herror ⊢
    rcases replacement_error herror with heq | ⟨_, _, _, _, _, _, heq⟩
    · rw [heq]; exact hkind
    · rw [heq]; exact hkind

/-- Nothing is interrupted that needs no scan. -/
theorem compiledTree_answered (g : Progress) (tree : Tree) : (compiledTree env g tree).Answered := by
  intro error herror
  unfold compiledTree at herror
  split at herror
  · exact absurd herror (by simp [Course.done])
  · exact absurd herror (by simp [Course.halt])

/-- Compiling an expansion whose name has been stripped. -/
theorem visit_stripped {tree : Tree} {link : Link} {generated : Bool}
    (hkind : tree.label.kind = .expansion link generated) (hstripped : tree.stripped link.name = tree) :
    visit env answers g log tree = (settle env answers (generating g generated)
      (targetOf (generating g generated) link) log tree).seq id fun tree _ _ =>
        compiledTree env (generating g generated) tree := by
  obtain ⟨label, children⟩ := tree
  replace hkind : label.kind = .expansion link generated := hkind
  rw [visit_expansion hkind, expandTree, resolving, hstripped]

/-- **Compiling an expansion is resumed** where it was interrupted, if its name has been stripped. -/
theorem expandTree_resumes (hagree : answers.Agree others) (hsteady : others.Steady) {label : Label}
    {children : List Tree} {link : Link} {generated : Bool} {error : Error}
    (hkind : label.kind = .expansion link generated)
    (herror : (visit env answers g log (.node label children)).outcome = .error (.unanswered error))
    (honce : LastOnce (visit env answers g log (.node label children)).events)
    (hstripped : ∀ e, (visit env answers g log (.node label children)).events.getLast? = some e →
      StrippedAlong (visit env answers g log (.node label children)).state.subtree? e.path) :
    Resumes (fun answers log tree => visit env answers g log tree) others
      (visit env answers g log (.node label children)) (.node label children) := by
  have hevents := visit_scansLast.events_ne_nil herror
  obtain ⟨e, he⟩ : ∃ e, (visit env answers g log (.node label children)).events.getLast? = some e :=
    Option.isSome_iff_exists.mp (List.getLast?_isSome.mpr hevents)
  have hstrip := fun sub heq hkind =>
    hstripped e he [] sub link generated List.nil_prefix heq hkind
  clear hstripped he
  rw [visit_expansion hkind, expandTree] at herror honce hevents hstrip ⊢
  -- compiling what is settled asks for nothing, so that it was interrupted before
  cases hinner : (resolving env answers g log (.node label children) link generated).outcome with
  | ok _ =>
    exact absurd herror (by rw [Course.seq_of_ok hinner]; exact compiledTree_answered _ _ error)
  | error stop =>
    rw [Course.seq_of_error hinner] at herror honce hevents hstrip ⊢
    obtain rfl := Except.error.inj herror
    have hroot : _ = Kind.expansion link generated := settle_interrupted
      ((Tree.kind_stripped link.name (.node label children)).trans hkind) hinner
    have hstable := hstrip _ (Tree.subtree?_nil _) hroot
    have hresumes : Resumes (fun answers log tree => (settle env answers (generating g generated)
        (targetOf (generating g generated) link) log tree).seq id fun tree _ _ =>
          compiledTree env (generating g generated) tree) others _ _ :=
      (settle_resumes hagree hsteady hinner honce).first hevents (fun _ _ _ => rfl)
        (fun _ _ _ _ _ _ => rfl) (.unanswered error)
    exact hresumes.congr (fun _ _ => visit_stripped hroot hstable) fun _ => visit_expansion hkind

mutual

/-- **Compiling is resumed** where it was interrupted. -/
theorem visit_resumes (hagree : answers.Agree others) (hsteady : others.Steady) :
    ∀ {g : Progress} {tree : Tree} {log : List ScanRequest} {error : Error},
      g.metadata.Faithful env.resolver →
      (visit env answers g log tree).outcome = .error (.unanswered error) →
      Resumable (visit env answers g log tree).events (visit env answers g log tree).state.subtree? →
      (visit env answers g log tree).state.IsParentless →
      Resumes (fun answers log tree => visit env answers g log tree) others
        (visit env answers g log tree) tree
  | g, .node label children, log, error, hg, herror, hresumable, hparentless => by
    cases hopen : g.aggregating && label.kind.isAdmitted with
    | true =>
      rw [visit_admitted hopen] at herror
      exact absurd herror (by simp [Course.done])
    | false =>
      rcases label.kind.sorts with ⟨wrap, hwrap⟩ | ⟨join, hjoin⟩ | hkind | ⟨link, generated, hkind⟩ |
        hterminal
      · rw [visit_connective hopen hwrap] at herror hresumable hparentless ⊢
        exact (visitAll_resumes hagree hsteady hg (Course.map_outcome_eq_error.mp herror)
          hresumable.children hparentless.children).map fun _ _ _ => visit_connective hopen hwrap
      · rw [visit_joined hopen hjoin] at herror hresumable hparentless ⊢
        exact (visitFirst_resumes hagree hsteady hg (Course.map_outcome_eq_error.mp herror)
          hresumable.children hparentless.children).map fun _ _ _ => visit_joined hopen hjoin
      · -- it was interrupted by a scan, which would have been one in the scope
        obtain ⟨e, he⟩ := List.exists_mem_of_ne_nil _ (visit_scansLast.events_ne_nil herror)
        have hdeep := visit_scope_deep hkind he
        rw [hresumable.free e he] at hdeep
        exact absurd hdeep (Nat.not_lt_zero _)
      · exact expandTree_resumes hagree hsteady hkind herror hresumable.once hresumable.stripped
      · rw [visit_terminal hterminal] at herror
        exact absurd herror (compiledTree_answered g _ error)

theorem visitAll_resumes (hagree : answers.Agree others) (hsteady : others.Steady) :
    ∀ {g : Progress} {trees : List Tree} {log : List ScanRequest} {error : Error},
      g.metadata.Faithful env.resolver →
      (visitAll env answers g log trees).outcome = .error (.unanswered error) →
      Resumable (visitAll env answers g log trees).events
        (Tree.subtreeIn? (visitAll env answers g log trees).state) →
      (∀ tree ∈ (visitAll env answers g log trees).state, tree.IsParentless) →
      Resumes (fun answers log trees => visitAll env answers g log trees) others
        (visitAll env answers g log trees) trees
  | _, [], _, _, _, herror, _, _ => absurd herror (by rw [visitAll]; simp [Course.done])
  | g, tree :: rest, log, error, hg, herror, hresumable, hparentless => by
    rw [visitAll] at herror hresumable hparentless ⊢
    cases hfirst : (visit env answers g log tree).outcome with
    | error stop =>
      have hmapped : ((visit env answers g log tree).map id (Event.under 0) id :
          Course Tree Fragment).outcome = .error stop := Course.map_outcome_eq_error.mpr hfirst
      rw [Course.seq_of_error hmapped] at herror hresumable hparentless ⊢
      obtain rfl := Except.error.inj herror
      have hresumes : Resumes (fun answers log tree =>
          ((visit env answers g log tree).map id (Event.under 0) id : Course Tree Fragment)) others
          ((visit env answers g log tree).map id (Event.under 0) id) tree :=
        (visit_resumes hagree hsteady hg hfirst hresumable.first (hparentless _ List.mem_cons_self)).map
          fun _ _ _ => rfl
      have hcons : ∀ answers log tree, visitAll env answers g log (tree :: rest) = _ :=
        fun _ _ _ => by rw [visitAll]
      refine hresumes.first (fun hnil => visit_scansLast.events_ne_nil hfirst
        (List.map_eq_nil_iff.mp hnil)) hcons (fun _ _ _ _ _ _ => ?_) _
      rw [visitAll_steady hsteady, visitAll_steady hsteady g (_ ++ _)]
    | ok fragment =>
      have hmapped : ((visit env answers g log tree).map id (Event.under 0) id :
          Course Tree Fragment).outcome = .ok fragment := Course.map_outcome_eq_ok.mpr ⟨_, hfirst, rfl⟩
      rw [Course.seq_of_ok hmapped] at herror hresumable hparentless ⊢
      have hrest : (visitAll env answers g (log ++ requests ((visit env answers g log
          tree).events.map (Event.under 0))) rest).outcome = .error (.unanswered error) := by
        simp only [Course.map_outcome_eq_error] at herror
        exact herror
      obtain ⟨hparentfirst, hparentrest⟩ := List.forall_mem_cons.mp hparentless
      -- the first query is final, whatever is answered from now on
      have hfinal := visit_final hg hfirst (fun e he => hresumable.free (Event.under 0 e)
        (List.mem_append_left _ (List.mem_map_of_mem he))) hparentfirst
      have hagrees : ∀ log', visit env others g log' tree = visit env answers g log tree := fun _ =>
        visit_agrees env.executor hagree (Course.answered_of_ok hfirst)
      have hresumes := visitAll_resumes hagree hsteady hg hrest hresumable.later hparentrest
      have hlater : Resumes (fun answers log trees => visitAll env answers g log trees) others
          ((visitAll env answers g (log ++ requests ((visit env answers g log
            tree).events.map (Event.under 0))) rest).map ((visit env answers g log tree).state :: ·)
              (Event.shift 1) (fragment :: ·)) ((visit env answers g log tree).state :: rest) :=
        hresumes.map fun answers' log' _ => visitAll_cons_done (hfinal.again answers' log')
      refine hlater.second (fun hnil => visitAll_scansLast.events_ne_nil hrest
        (List.map_eq_nil_iff.mp hnil)) _ fun log' log'' => ?_
      rw [visitAll, hagrees, Course.seq_of_ok hmapped, visitAll_cons_done (hfinal.again others log''),
        visitAll_steady hsteady, visitAll_steady hsteady g log'']
      rfl

theorem visitFirst_resumes (hagree : answers.Agree others) (hsteady : others.Steady)
    {join : Fragment → Fragment} :
    ∀ {g : Progress} {trees : List Tree} {log : List ScanRequest} {error : Error},
      g.metadata.Faithful env.resolver →
      (visitFirst env answers g log join trees).outcome = .error (.unanswered error) →
      Resumable (visitFirst env answers g log join trees).events
        (Tree.subtreeIn? (visitFirst env answers g log join trees).state) →
      (∀ tree ∈ (visitFirst env answers g log join trees).state, tree.IsParentless) →
      Resumes (fun answers log trees => visitFirst env answers g log join trees) others
        (visitFirst env answers g log join trees) trees
  | _, [], _, _, _, herror, _, _ => absurd herror (by rw [visitFirst]; simp [Course.done])
  | g, tree :: rest, log, error, hg, herror, hresumable, hparentless => by
    rw [visitFirst] at herror hresumable hparentless ⊢
    exact (visit_resumes hagree hsteady hg (Course.map_outcome_eq_error.mp herror) hresumable.first
      (hparentless _ List.mem_cons_self)).map fun _ _ _ => by rw [visitFirst]

end

end Compile

end LinkedSearch
