import LinkedSearch.Proofs.Standing

/-! # The course of a compilation

What a compilation does to a query without parent scopes, as a function of the query and of the answers
to its scans. There are no arenas and no states here: a course tells what the query has become, what was
done to its expansions, and how it ended.

* `Event`, `Course`: what is done to an expansion, and how a computation goes.
* `demand?`, `join`, `replacement`: the resolution of one expansion.
* `settle`: the resolution of all expansions of a query, from the inside out.
* `visit`: a compilation.
* `settle_isBare`, `size_settle`: what all courses have in common. -/

namespace LinkedSearch

open Query (Arena Kind Label NodeId Tree)

/-! ## Courses -/

/-- Why a course comes to a halt: something was refused before a scan, or a scan was not answered. -/
inductive Stop where
  | refused
  | unanswered (error : Error)
  deriving DecidableEq

/-- What is done to an expansion, where in the query, and inside of how many scopes and on which path. -/
structure Event where
  path : List Nat
  scopeDepth : Nat
  scopePath : Option String
  resolution : Resolution

namespace Event

/-- The event as seen from a parent of the query. -/
def under (i : Nat) (event : Event) : Event := { event with path := i :: event.path }

/-- The event as seen from a forest with more queries in front. -/
def shift (k : Nat) (event : Event) : Event :=
  { event with path := event.path.modifyHead (· + k) }

end Event

/-- The scans among some events. -/
def requests (events : List Event) : List ScanRequest :=
  events.filterMap (·.resolution.request?)

@[simp] theorem requests_nil : requests [] = [] := rfl

@[simp] theorem requests_append (events events' : List Event) :
    requests (events ++ events') = requests events ++ requests events' := List.filterMap_append

@[simp] theorem requests_map_under (i : Nat) (events : List Event) :
    requests (events.map (Event.under i)) = requests events := by
  simp [requests, List.filterMap_map, Function.comp_def, Event.under]

@[simp] theorem requests_map_shift (k : Nat) (events : List Event) :
    requests (events.map (Event.shift k)) = requests events := by
  simp [requests, List.filterMap_map, Function.comp_def, Event.shift]

/-- **A course**: what the query has become, what was done, oldest first, and how it ended. -/
structure Course (σ α : Type) where
  state : σ
  events : List Event
  outcome : Except Stop α

namespace Course

variable {σ τ α β : Type}

/-- A course that ends at once. -/
def done (state : σ) (a : α) : Course σ α := ⟨state, [], .ok a⟩

/-- A course that comes to a halt at once. -/
def halt (state : σ) (stop : Stop) : Course σ α := ⟨state, [], .error stop⟩

/-- The same course of a larger query. -/
def map (f : σ → τ) (place : Event → Event) (g : α → β) (course : Course σ α) : Course τ β :=
  ⟨f course.state, course.events.map place, course.outcome.map g⟩

/-- **Courses one after the other.** Where the first one comes to a halt, `keep` tells what the whole
query has become. -/
def seq (course : Course σ α) (keep : σ → τ) (next : σ → α → List Event → Course τ β) : Course τ β :=
  match course.outcome with
  | .error stop => ⟨keep course.state, course.events, .error stop⟩
  | .ok a =>
    let last := next course.state a course.events
    ⟨last.state, course.events ++ last.events, last.outcome⟩

variable {course : Course σ α} {keep : σ → τ} {next : σ → α → List Event → Course τ β}

/-- A course that goes on. -/
theorem seq_of_ok {a : α} (h : course.outcome = .ok a) : course.seq keep next =
    ⟨(next course.state a course.events).state,
      course.events ++ (next course.state a course.events).events,
      (next course.state a course.events).outcome⟩ := by
  simp only [seq, h]

/-- A course that does not go on. -/
theorem seq_of_error {stop : Stop} (h : course.outcome = .error stop) :
    course.seq keep next = ⟨keep course.state, course.events, .error stop⟩ := by
  simp only [seq, h]

/-- What is done in a course is done at first, or in what follows if that succeeds. -/
theorem mem_seq_events {e : Event} (h : e ∈ (course.seq keep next).events) :
    e ∈ course.events ∨
      ∃ a, course.outcome = .ok a ∧ e ∈ (next course.state a course.events).events := by
  cases houtcome : course.outcome with
  | error stop =>
    rw [seq_of_error houtcome] at h
    exact .inl h
  | ok a =>
    rw [seq_of_ok houtcome] at h
    exact (List.mem_append.mp h).imp_right fun h => ⟨a, rfl, h⟩

/-- The same course of an even larger query. -/
theorem map_map {ρ γ : Type} {f : σ → τ} {f' : τ → ρ} {place place' : Event → Event} {g : α → β}
    {g' : β → γ} : (course.map f place g).map f' place' g' =
      course.map (f' ∘ f) (place' ∘ place) (g' ∘ g) := by
  unfold map
  simp only [List.map_map]
  cases course.outcome <;> rfl

/-- The same course of a larger query succeeds, too. -/
theorem map_outcome_eq_ok {f : σ → τ} {place : Event → Event} {g : α → β} {b : β} :
    (course.map f place g).outcome = .ok b ↔ ∃ a, course.outcome = .ok a ∧ g a = b := by
  unfold map
  cases course.outcome with
  | error stop => simp [Except.map]
  | ok a => simp [Except.map]

/-- The same course of a larger query comes to the same halt. -/
theorem map_outcome_eq_error {f : σ → τ} {place : Event → Event} {g : α → β} {stop : Stop} :
    (course.map f place g).outcome = .error stop ↔ course.outcome = .error stop := by
  unfold map
  cases course.outcome with
  | error stop => simp [Except.map]
  | ok a => simp [Except.map]

/-- A course succeeds if both of its parts do. -/
theorem seq_outcome_eq_ok {b : β} : (course.seq keep next).outcome = .ok b ↔
    ∃ a, course.outcome = .ok a ∧ (next course.state a course.events).outcome = .ok b := by
  cases h : course.outcome with
  | error stop => simp [seq_of_error h]
  | ok a => simp [seq_of_ok h]

end Course

/-! ## Answers -/

/-- The answers to scans, which may depend on the scans before, oldest first. -/
abbrev Answers := List ScanRequest → ScanRequest → Except Error (List Json × Nat)

/-- The answers of an executor. -/
def Executor.answers (executor : Executor) : Answers :=
  fun earlier request => (executor.run earlier request).outcome

namespace Answers

/-- **Steady answers** do not depend on the scans before. -/
def Steady (answers : Answers) : Prop := ∀ earlier request, answers earlier request = answers [] request

end Answers

namespace Compile

variable (env : Environment) (answers : Answers) (g : Progress)

/-! ## One expansion -/

/-- What has to be known about the values of a join. -/
inductive Demand where
  | keys
  | scan (request : ScanRequest)

/-- **The demand** of an expansion: nothing if every key qualifies, and a scan for its query if not. -/
def demand? (link : Link) (left right : String) (query : Tree) : Option Demand := do
  let linked ← (env.resolver.mapping link.index).toOption
  let leftOwner ← (g.metadata.ownerMapping env.resolver left).toOption
  let rightOwner ← (g.metadata.ownerMapping env.resolver right).toOption
  if isKeyQuery query.label linked leftOwner rightOwner left right then return .keys
  else (compiled? env { g with aggregating := false } query).map fun filter =>
    .scan (scanRequest env link.index right filter none)

/-- What happens to the expansion at the root. -/
def event (resolution : Resolution) : Event where
  path := []
  scopeDepth := g.scopeDepth
  scopePath := g.scopePath
  resolution

/-- What a demand is met with, as the label of a node. -/
def supply (log : List ScanRequest) (left : String) : Option Demand → Course Unit Label
  | none => .halt () .refused
  | some .keys => ⟨(), [event g .keys], .ok { kind := .notNull, field := some left }⟩
  | some (.scan request) =>
    ⟨(), [event g (.scan request)],
      match answers log request with
      | .ok (values, hits) => .ok (valuesLabel left values hits)
      | .error error => .error (.unanswered error)⟩

/-- **Join values** of an expansion. -/
def join (log : List ScanRequest) (link : Link) (left right : String) (query : Tree) :
    Course Unit Label :=
  supply answers g log left (demand? env g link left right query)

/-- The fields at both ends of the join path of a link. -/
def joinEnds? (target link : Link) : Option (String × String) := do
  let path ← (env.resolver.joinPath target link).toOption
  let fields ← (env.resolver.joinFields path).toOption
  return (fields.1, fields.2.1)

/-- A node for join values in the place of an expansion. -/
def leafOf (label values : Label) : Tree := (Query.Tree.node values []).boosted label.boost

/-- What an expansion over a synthesized link resolves to. Its query is replaced by the values of the
link before it is scanned for the second time. -/
def replacementGenerated (log : List ScanRequest) (label : Label) (link : Link) (query : Tree)
    (rest : List Tree) : Course Tree Unit :=
  (join env answers g log link link.leftField link.rightField query).seq
    (fun _ => .node label (query :: rest)) fun _ values events =>
      match g.metadata.owner env.resolver (label.field.getD link.rightField) with
      | .error _ => .halt (.node label (query :: rest)) .refused
      | .ok owner =>
        if owner = g.metadata.primary then .done (leafOf label values) ()
        else
          let requeried := Query.Tree.node label (.node values [] :: rest)
          match env.resolver.mapping link.index with
          | .error _ => .halt requeried .refused
          | .ok mapping =>
            (join env answers g (log ++ requests events) link g.metadata.primary.rightField
              mapping.primaryKey (.node values [])).seq (fun _ => requeried)
                fun _ keys _ => .done (leafOf label keys) ()

/-- **Replacement** of an expansion whose query has no expansions any more. -/
def replacement (target : Link) (log : List ScanRequest) (label : Label) (link : Link)
    (generated : Bool) (children : List Tree) : Course Tree Unit :=
  match children with
  | [] => .halt (.node label []) .refused
  | query :: rest =>
    if g.generated.isEmpty && link == g.metadata.primary then
      ⟨query.boosted label.boost, [event g (.inPlace true)], .ok ()⟩
    else if generated then replacementGenerated env answers g log label link query rest
    else
      match joinEnds? env target link with
      | none => .halt (.node label (query :: rest)) .refused
      | some (left, right) =>
        (join env answers g log link left right query).seq
          (fun _ => .node label (query :: rest)) fun _ values _ => .done (leafOf label values) ()

/-! ## All expansions of a query -/

mutual

/-- **Settling** a query: its expansions are resolved from the inside out. -/
def settle (target : Link) (log : List ScanRequest) : Tree → Course Tree Unit
  | .node label children =>
    match label.kind with
    | .expansion link generated =>
      (settleFirst target log children).seq (.node label) fun children _ events =>
        replacement env answers g target (log ++ requests events) label link generated children
    | _ => (settleAll target log children).map (.node label) id id

/-- The query of an expansion is its first child. -/
def settleFirst (target : Link) (log : List ScanRequest) : List Tree → Course (List Tree) Unit
  | [] => .done [] ()
  | tree :: rest => (settle target log tree).map (· :: rest) (Event.under 0) id

/-- Of several queries the last one is settled first. -/
def settleAll (target : Link) (log : List ScanRequest) : List Tree → Course (List Tree) Unit
  | [] => .done [] ()
  | tree :: rest =>
    ((settleAll target log rest).map id (Event.shift 1) id).seq (tree :: ·) fun rest _ events =>
      (settle target (log ++ requests events) tree).map (· :: rest) (Event.under 0) id

end

/-! ## Compilations -/

/-- The state inside a scope. -/
def enter? (tree : Tree) : Option Progress :=
  if g.scopeDepth = 0 then
    (sharedPath? env g tree).map fun path => { g with scopePath := path, scopeDepth := 1 }
  else some { g with scopeDepth := g.scopeDepth + 1 }

/-- The fragment of a scope, from the state inside. -/
def leave (inner : Progress) (clauses : List Fragment) : Fragment :=
  (closeScope clauses { inner with scopeDepth := inner.scopeDepth - 1 }).1

/-- The state in which an expansion is resolved. -/
def generating (generated : Bool) : Progress :=
  if generated then { g with generated := 0 :: g.generated } else g

/-- The link from which the expansions in an expansion are evaluated. -/
def targetOf (link : Link) : Link := if g.generated.isEmpty then g.metadata.primary else link

/-- The resolution of an expansion and of the expansions in it, without the name of its link. -/
def resolving (log : List ScanRequest) (tree : Tree) (link : Link) (generated : Bool) :
    Course Tree Unit :=
  settle env answers (generating g generated) (targetOf (generating g generated) link) log
    (tree.stripped link.name)

/-- The course of a query that needs no scan. -/
def compiledTree (tree : Tree) : Course Tree Fragment :=
  match compiled? env g tree with
  | some fragment => .done tree fragment
  | none => .halt tree .refused

/-- The course of an expansion, which is compiled once it is settled. -/
def expandTree (log : List ScanRequest) (tree : Tree) (link : Link) (generated : Bool) :
    Course Tree Fragment :=
  (resolving env answers g log tree link generated).seq id fun tree _ _ =>
    compiledTree env (generating g generated) tree

mutual

/-- **Visiting** a query: the course of its compilation. -/
def visit (g : Progress) (log : List ScanRequest) : Tree → Course Tree Fragment
  | .node label children =>
    if g.aggregating && label.kind.isAdmitted then .done (.node label children) (.matchAll none)
    else
      match label.kind with
      | .expansion link generated =>
        expandTree env answers g log (.node label children) link generated
      | .scope =>
        match enter? env g (.node label children) with
        | none => .halt (.node label children) .refused
        | some inner => (visitAll inner log children).map (.node label) id (leave inner)
      | .conjunction => (visitAll g log children).map (.node label) id .all
      | .disjunction => (visitAll g log children).map (.node label) id .any
      | .negation => (visitAll g log children).map (.node label) id fun clauses =>
          .bool [] [] clauses none none
      | .child typeName => (visitFirst g log (.hasChild typeName · none) children).map
          (.node label) id id
      | .parent typeName => (visitFirst g log (.hasParent typeName · none) children).map
          (.node label) id id
      | _ => compiledTree env g (.node label children)

/-- Several queries one after the other. -/
def visitAll (g : Progress) (log : List ScanRequest) :
    List Tree → Course (List Tree) (List Fragment)
  | [] => .done [] []
  | tree :: rest =>
    ((visit g log tree).map id (Event.under 0) id).seq (· :: rest) fun tree fragment events =>
      (visitAll g (log ++ requests events) rest).map (tree :: ·) (Event.shift 1) (fragment :: ·)

/-- The first of some queries, which is joined if the settings ask for it. -/
def visitFirst (g : Progress) (log : List ScanRequest) (join : Fragment → Fragment) :
    List Tree → Course (List Tree) Fragment
  | [] => .done [] (.matchAll none)
  | tree :: rest => (visit g log tree).map (· :: rest) (Event.under 0) fun fragment =>
      if env.settings.useParentChild then join fragment else fragment

end

/-! ## What all courses have in common -/

section Settling

variable {env : Environment} {answers : Answers} {g : Progress} {target : Link}
  {log : List ScanRequest}

/-- Settling an expansion. -/
theorem settle_expansion {label : Label} {link : Link} {generated : Bool} {children : List Tree}
    (hkind : label.kind = .expansion link generated) :
    settle env answers g target log (.node label children) =
      (settleFirst env answers g target log children).seq (.node label) fun children _ events =>
        replacement env answers g target (log ++ requests events) label link generated children := by
  rw [settle, hkind]

/-- Settling anything else. -/
theorem settle_node {label : Label} {children : List Tree}
    (hkind : label.kind.isExpansion = false) :
    settle env answers g target log (.node label children) =
      (settleAll env answers g target log children).map (.node label) id id := by
  rw [settle]
  split
  · next link generated heq =>
    rw [heq] at hkind
    exact absurd hkind (by simp [Kind.isExpansion])
  · rfl

/-- The values of a join are no expansion. -/
theorem join_label {log : List ScanRequest} {link : Link} {left right : String} {query : Tree}
    {values : Label} (h : (join env answers g log link left right query).outcome = .ok values) :
    values.kind.isExpansion = false := by
  unfold join supply at h
  split at h
  · exact absurd h (by simp [Course.halt])
  · obtain rfl := Except.ok.inj h
    rfl
  · simp only at h
    split at h
    · obtain rfl := Except.ok.inj h
      rfl
    · exact absurd h (by simp)

/-- A node for join values is bare, and as small as a query can be. -/
theorem leafOf_spec (label : Label) {values : Label} (h : values.kind.isExpansion = false) :
    (leafOf label values).IsBare ∧ (leafOf label values).size = 1 := by
  refine ⟨(Tree.isBare_boosted _).mpr (Tree.isBare_node.mpr ⟨h, by simp⟩), ?_⟩
  rw [leafOf, Tree.size_boosted, Tree.size_node, Tree.sizes_nil]

/-- **What follows the first scan** for a synthesized link: a second one, unless the values found belong to
the primary link or something is not known. -/
inductive FollowUp (env : Environment) (answers : Answers) (g : Progress) (label : Label) (link : Link)
    (query : Tree) (rest : List Tree) (values : Label) : Course Tree Unit → Prop
  | unowned : FollowUp env answers g label link query rest values
      (.halt (.node label (query :: rest)) .refused)
  | primary : FollowUp env answers g label link query rest values (.done (leafOf label values) ())
  | unmapped : FollowUp env answers g label link query rest values
      (.halt (.node label (.node values [] :: rest)) .refused)
  | scanned (log : List ScanRequest) (left right : String) :
      FollowUp env answers g label link query rest values
        ((join env answers g log link left right (.node values [])).seq
          (fun _ => .node label (.node values [] :: rest)) fun _ keys _ => .done (leafOf label keys) ())

/-- **How an expansion is replaced**: by its query, by the values of a scan, or by those of a scan for a
synthesized link and of what follows it. -/
inductive Replaced (env : Environment) (answers : Answers) (g : Progress) (label : Label) (link : Link) :
    Bool → List Tree → Course Tree Unit → Prop
  | childless (generated : Bool) : Replaced env answers g label link generated []
      (.halt (.node label []) .refused)
  | inPlace (generated : Bool) (query : Tree) (rest : List Tree) :
      Replaced env answers g label link generated (query :: rest)
        ⟨query.boosted label.boost, [event g (.inPlace true)], .ok ()⟩
  | unjoined (query : Tree) (rest : List Tree) : Replaced env answers g label link false (query :: rest)
      (.halt (.node label (query :: rest)) .refused)
  | joined (query : Tree) (rest : List Tree) (log : List ScanRequest) (left right : String) :
      Replaced env answers g label link false (query :: rest)
        ((join env answers g log link left right query).seq (fun _ => .node label (query :: rest))
          fun _ values _ => .done (leafOf label values) ())
  | generated (query : Tree) (rest : List Tree) (log : List ScanRequest)
      (next : Label → List Event → Course Tree Unit)
      (hnext : ∀ values events, FollowUp env answers g label link query rest values (next values events)) :
      Replaced env answers g label link true (query :: rest)
        ((join env answers g log link link.leftField link.rightField query).seq
          (fun _ => .node label (query :: rest)) fun _ => next)

variable (env g) in
/-- A synthesized link is scanned for its values first. -/
theorem replacementGenerated_followUp (answers : Answers) (log : List ScanRequest) (label : Label)
    (link : Link) (query : Tree) (rest : List Tree) :
    ∃ next, (∀ values events, FollowUp env answers g label link query rest values (next values events)) ∧
      replacementGenerated env answers g log label link query rest =
        (join env answers g log link link.leftField link.rightField query).seq
          (fun _ => .node label (query :: rest)) fun _ => next := by
  refine ⟨_, fun values events => ?_, rfl⟩
  split
  · exact .unowned
  · split
    · exact .primary
    · simp only
      split
      · exact .unmapped
      · exact .scanned _ _ _

/-- **Replacement** is one of these. -/
theorem replacement_replaced (label : Label) (link : Link) (generated : Bool) (children : List Tree) :
    Replaced env answers g label link generated children
      (replacement env answers g target log label link generated children) := by
  unfold replacement
  split
  · exact .childless generated
  · next query rest =>
    split
    · exact .inPlace generated query rest
    · cases generated with
      | true =>
        obtain ⟨next, hnext, hgenerated⟩ :=
          replacementGenerated_followUp env g answers log label link query rest
        rw [if_pos rfl, hgenerated]
        exact .generated query rest log next hnext
      | false =>
        simp only [Bool.false_eq_true, if_false]
        split
        · exact .unjoined query rest
        · exact .joined query rest log _ _

/-- Values that follow the first scan take the place of the expansion. -/
theorem FollowUp.ok {label values : Label} {link : Link} {query : Tree} {rest : List Tree}
    {course : Course Tree Unit} (h : FollowUp env answers g label link query rest values course)
    (hvalues : values.kind.isExpansion = false) (hok : course.outcome = .ok ()) :
    ∃ found : Label, found.kind.isExpansion = false ∧ course.state = leafOf label found := by
  cases h with
  | unowned => exact absurd hok (by simp [Course.halt])
  | primary => exact ⟨values, hvalues, rfl⟩
  | unmapped => exact absurd hok (by simp [Course.halt])
  | scanned log left right =>
    obtain ⟨keys, hkeys, -⟩ := Course.seq_outcome_eq_ok.mp hok
    rw [Course.seq_of_ok hkeys]
    exact ⟨keys, join_label hkeys, rfl⟩

/-- If nothing follows, the values of the first scan may have taken the place of the query. -/
theorem FollowUp.error {label values : Label} {link : Link} {query : Tree} {rest : List Tree}
    {course : Course Tree Unit} (h : FollowUp env answers g label link query rest values course)
    {stop : Stop} (herror : course.outcome = .error stop) :
    course.state = .node label (query :: rest) ∨ course.state = .node label (.node values [] :: rest) := by
  cases h with
  | unowned => exact .inl rfl
  | primary => exact absurd herror (by simp [Course.done])
  | unmapped => exact .inr rfl
  | scanned log left right =>
    refine .inr ?_
    cases hkeys : (join env answers g log link left right (.node values [])).outcome with
    | error stop => rw [Course.seq_of_error hkeys]
    | ok keys =>
      rw [Course.seq_of_ok hkeys] at herror
      exact absurd herror (by simp [Course.done])

/-- **What takes the place** of an expansion: its query, or values of a join. -/
theorem replacement_ok {label : Label} {link : Link} {generated : Bool} {children : List Tree}
    (h : (replacement env answers g target log label link generated children).outcome = .ok ()) :
    ∃ query rest, children = query :: rest ∧
      ((replacement env answers g target log label link generated children).state =
          query.boosted label.boost ∨
        ∃ values : Label, values.kind.isExpansion = false ∧
          (replacement env answers g target log label link generated children).state =
            leafOf label values) := by
  have hreplaced : Replaced env answers g label link generated children
      (replacement env answers g target log label link generated children) := replacement_replaced ..
  generalize replacement env answers g target log label link generated children = course at h hreplaced ⊢
  cases hreplaced with
  | childless => exact absurd h (by simp [Course.halt])
  | inPlace _ query rest => exact ⟨query, rest, rfl, .inl rfl⟩
  | unjoined => exact absurd h (by simp [Course.halt])
  | joined query rest log left right =>
    obtain ⟨values, hvalues, -⟩ := Course.seq_outcome_eq_ok.mp h
    rw [Course.seq_of_ok hvalues]
    exact ⟨query, rest, rfl, .inr ⟨values, join_label hvalues, rfl⟩⟩
  | generated query rest log next hnext =>
    obtain ⟨values, hvalues, hlast⟩ := Course.seq_outcome_eq_ok.mp h
    rw [Course.seq_of_ok hvalues]
    exact ⟨query, rest, rfl, .inr ((hnext values _).ok (join_label hvalues) hlast)⟩

/-- **What is left** of an expansion that could not be resolved: itself, or the values of its
synthesized link instead of its query. -/
theorem replacement_error {label : Label} {link : Link} {generated : Bool} {children : List Tree}
    {stop : Stop}
    (h : (replacement env answers g target log label link generated children).outcome =
      .error stop) :
    (replacement env answers g target log label link generated children).state =
        .node label children ∨
      ∃ query rest, children = query :: rest ∧ generated = true ∧ ∃ values : Label,
        values.kind.isExpansion = false ∧
          (replacement env answers g target log label link generated children).state =
            .node label (.node values [] :: rest) := by
  have hreplaced : Replaced env answers g label link generated children
      (replacement env answers g target log label link generated children) := replacement_replaced ..
  generalize replacement env answers g target log label link generated children = course at h hreplaced ⊢
  cases hreplaced with
  | childless => exact .inl rfl
  | inPlace => exact absurd h (by simp)
  | unjoined => exact .inl rfl
  | joined query rest log left right =>
    cases hvalues : (join env answers g log link left right query).outcome with
    | error stop => exact .inl (by rw [Course.seq_of_error hvalues])
    | ok values =>
      rw [Course.seq_of_ok hvalues] at h
      exact absurd h (by simp [Course.done])
  | generated query rest log next hnext =>
    cases hvalues : (join env answers g log link link.leftField link.rightField query).outcome with
    | error stop => exact .inl (by rw [Course.seq_of_error hvalues])
    | ok values =>
      rw [Course.seq_of_ok hvalues] at h ⊢
      refine ((hnext values _).error h).imp id fun hstate => ?_
      exact ⟨query, rest, rfl, rfl, values, join_label hvalues, hstate⟩

/-- What is left of an expansion that could not be resolved has no expansions in other places. -/
theorem replacement_remains {label : Label} {link : Link} {generated : Bool} {children : List Tree}
    (hchildren : ∀ tree ∈ children.take 1, tree.IsBare) {path : List Nat}
    (h : (replacement env answers g target log label link generated children).state.ExpansionAt
      path) : path = [] ∨ (Query.Tree.node label children).ExpansionAt path := by
  cases houtcome : (replacement env answers g target log label link generated children).outcome with
  | ok _ =>
    refine absurd h (Tree.IsBare.not_expansionAt ?_ path)
    obtain ⟨query, rest, rfl, heq | ⟨values, hvalues, heq⟩⟩ := replacement_ok houtcome
    · rw [heq]
      exact (Tree.isBare_boosted _).mpr (hchildren query (by simp))
    · rw [heq]
      exact (leafOf_spec label hvalues).1
  | error stop =>
    rcases replacement_error houtcome with heq | ⟨query, rest, rfl, -, values, hvalues, heq⟩
    · exact .inr (heq ▸ h)
    · rw [heq] at h
      rcases Tree.expansionAt_requeried hvalues h with rfl | ⟨i, path, rfl⟩
      · exact .inl rfl
      · obtain ⟨sub, hsub, hkind⟩ := h
        rw [Tree.subtree?_cons] at hsub
        exact .inr ⟨sub, by rwa [Tree.subtree?_cons], hkind⟩

mutual

/-- **A settled query is bare.** -/
theorem settle_isBare {log : List ScanRequest} : ∀ {tree : Tree},
    (settle env answers g target log tree).outcome = .ok () →
      (settle env answers g target log tree).state.IsBare
  | .node label children, h => by
    cases hkind : label.kind.isExpansion with
    | false =>
      rw [settle_node hkind] at h ⊢
      exact Tree.isBare_node.mpr ⟨hkind, settleAll_isBare (by simpa [Course.map] using h)⟩
    | true =>
      obtain ⟨link, generated, hkind⟩ := Kind.exists_of_isExpansion hkind
      rw [settle_expansion hkind] at h ⊢
      obtain ⟨_, hinner, hlast⟩ := Course.seq_outcome_eq_ok.mp h
      rw [Course.seq_of_ok hinner]
      obtain ⟨query, rest, hchildren, heq | ⟨values, hvalues, heq⟩⟩ := replacement_ok hlast
      · rw [heq]
        refine (Tree.isBare_boosted _).mpr (settleFirst_isBare hinner query ?_)
        rw [hchildren]
        simp
      · rw [heq]
        exact (leafOf_spec label hvalues).1

theorem settleFirst_isBare {log : List ScanRequest} : ∀ {trees : List Tree},
    (settleFirst env answers g target log trees).outcome = .ok () →
      ∀ tree ∈ (settleFirst env answers g target log trees).state.take 1, tree.IsBare
  | [], _ => by simp [settleFirst, Course.done]
  | tree :: rest, h => by
    rw [settleFirst] at h ⊢
    obtain ⟨_, hfirst, -⟩ := Course.map_outcome_eq_ok.mp h
    simpa [Course.map] using settle_isBare hfirst

theorem settleAll_isBare {log : List ScanRequest} : ∀ {trees : List Tree},
    (settleAll env answers g target log trees).outcome = .ok () →
      ∀ tree ∈ (settleAll env answers g target log trees).state, tree.IsBare
  | [], _ => by simp [settleAll, Course.done]
  | tree :: rest, h => by
    rw [settleAll] at h ⊢
    obtain ⟨_, hrest, hfirst⟩ := Course.seq_outcome_eq_ok.mp h
    rw [Course.seq_of_ok hrest]
    obtain ⟨_, hrest', -⟩ := Course.map_outcome_eq_ok.mp hrest
    obtain ⟨_, hfirst', -⟩ := Course.map_outcome_eq_ok.mp hfirst
    exact List.forall_mem_cons.mpr ⟨settle_isBare hfirst', settleAll_isBare hrest'⟩

end

/-- What takes the place of an expansion is smaller than it, and what is left of it is not larger. -/
theorem size_replacement (label : Label) (link : Link) (generated : Bool) (children : List Tree) :
    let course := replacement env answers g target log label link generated children
    course.state.size ≤ Tree.sizes children + 1 ∧
      (course.outcome = .ok () → course.state.size ≤ Tree.sizes children) := by
  intro course
  have hfirst : ∀ {query : Tree} {rest : List Tree}, children = query :: rest →
      1 ≤ Tree.sizes children ∧ query.size ≤ Tree.sizes children := by
    rintro query rest rfl
    have hpos := query.size_pos
    rw [Tree.sizes_cons]
    omega
  -- success leaves the query or a single node, and a halt at most an expansion with one node for values
  cases houtcome : course.outcome with
  | ok _ =>
    suffices hle : course.state.size ≤ Tree.sizes children from ⟨by omega, fun _ => hle⟩
    obtain ⟨query, rest, hchildren, heq | ⟨values, hvalues, heq⟩⟩ := replacement_ok houtcome
    · rw [show course.state = _ from heq, Tree.size_boosted]
      exact (hfirst hchildren).2
    · rw [show course.state = _ from heq, (leafOf_spec label hvalues).2]
      exact (hfirst hchildren).1
  | error stop =>
    refine ⟨?_, fun h => absurd h (by simp)⟩
    rcases replacement_error houtcome with heq | ⟨query, rest, rfl, -, values, -, heq⟩
    · exact Nat.le_of_eq ((congrArg Tree.size heq).trans (Tree.size_node _ _))
    · have hpos := query.size_pos
      rw [show course.state = _ from heq]
      simp only [Tree.size_node, Tree.sizes_cons, Tree.sizes_nil]
      omega

mutual

/-- **Settling makes no query larger.** -/
theorem size_settle {log : List ScanRequest} : ∀ tree : Tree,
    (settle env answers g target log tree).state.size ≤ tree.size
  | .node label children => by
    cases hkind : label.kind.isExpansion with
    | false =>
      have hall : Tree.sizes (settleAll env answers g target log children).state ≤ _ :=
        sizes_settleAll children
      rw [settle_node hkind, Tree.size_node]
      exact Nat.succ_le_succ hall
    | true =>
      obtain ⟨link, generated, hkind⟩ := Kind.exists_of_isExpansion hkind
      have hfirst : Tree.sizes (settleFirst env answers g target log children).state ≤ _ :=
        sizes_settleFirst children
      rw [settle_expansion hkind, Tree.size_node]
      cases hinner : (settleFirst env answers g target log children).outcome with
      | error stop =>
        rw [Course.seq_of_error hinner, Tree.size_node]
        exact Nat.succ_le_succ hfirst
      | ok _ =>
        rw [Course.seq_of_ok hinner]
        exact Nat.le_trans (size_replacement label link generated _).1 (Nat.succ_le_succ hfirst)

theorem sizes_settleFirst {log : List ScanRequest} : ∀ trees : List Tree,
    Tree.sizes (settleFirst env answers g target log trees).state ≤ Tree.sizes trees
  | [] => by simp [settleFirst, Course.done]
  | tree :: rest => by
    have hfirst : (settle env answers g target log tree).state.size ≤ _ := size_settle tree
    rw [settleFirst, Tree.sizes_cons]
    show Tree.sizes (_ :: rest) ≤ _
    rw [Tree.sizes_cons]
    omega

theorem sizes_settleAll {log : List ScanRequest} : ∀ trees : List Tree,
    Tree.sizes (settleAll env answers g target log trees).state ≤ Tree.sizes trees
  | [] => by simp [settleAll, Course.done]
  | tree :: rest => by
    have hrest : Tree.sizes (settleAll env answers g target log rest).state ≤ _ :=
      sizes_settleAll rest
    rw [settleAll, Tree.sizes_cons]
    cases houtcome : (settleAll env answers g target log rest).outcome with
    | error stop =>
      rw [Course.seq_of_error (by rw [Course.map, houtcome]; rfl)]
      show Tree.sizes (tree :: _) ≤ _
      rw [Tree.sizes_cons]
      exact Nat.add_le_add_left hrest _
    | ok _ =>
      rw [Course.seq_of_ok (by rw [Course.map, houtcome]; rfl)]
      show Tree.sizes (_ :: _) ≤ _
      rw [Tree.sizes_cons]
      exact Nat.add_le_add (size_settle tree) hrest

end

/-- An expansion becomes smaller when it is settled. -/
theorem size_settle_lt {tree : Tree} (hkind : tree.label.kind.isExpansion = true)
    (h : (settle env answers g target log tree).outcome = .ok ()) :
    (settle env answers g target log tree).state.size < tree.size := by
  obtain ⟨label, children⟩ := tree
  obtain ⟨link, generated, hkind⟩ : ∃ link generated, label.kind = .expansion link generated :=
    Kind.exists_of_isExpansion hkind
  rw [settle_expansion hkind] at h ⊢
  obtain ⟨_, hinner, hlast⟩ := Course.seq_outcome_eq_ok.mp h
  rw [Course.seq_of_ok hinner, Tree.size_node]
  exact Nat.lt_succ_of_le (Nat.le_trans ((size_replacement label link generated _).2 hlast)
    (sizes_settleFirst children))

end Settling

section Visiting

variable {env : Environment} {answers : Answers} {g : Progress} {log : List ScanRequest}
  {label : Label} {children : List Tree}

/-- A query that needs no scan stays as it is. -/
theorem compiledTree_spec (env : Environment) (g : Progress) (tree : Tree) :
    (compiledTree env g tree).state = tree ∧ (compiledTree env g tree).events = [] := by
  unfold compiledTree
  split <;> exact ⟨rfl, rfl⟩

/-- Compiling what an expansion has become changes nothing more. -/
theorem expandTree_spec (tree : Tree) (link : Link) (generated : Bool) :
    (expandTree env answers g log tree link generated).state =
        (resolving env answers g log tree link generated).state ∧
      (expandTree env answers g log tree link generated).events =
        (resolving env answers g log tree link generated).events ∧
      ∀ fragment, (expandTree env answers g log tree link generated).outcome = .ok fragment →
        (resolving env answers g log tree link generated).outcome = .ok () := by
  unfold expandTree
  generalize resolving env answers g log tree link generated = course
  cases houtcome : course.outcome with
  | error stop =>
    rw [Course.seq_of_error houtcome]
    exact ⟨rfl, rfl, fun fragment h => absurd h (by simp)⟩
  | ok a =>
    obtain ⟨hstate, hevents⟩ := compiledTree_spec env (generating g generated) course.state
    rw [Course.seq_of_ok houtcome]
    exact ⟨hstate, by simp [hevents], fun _ _ => rfl⟩

/-- The filter of an aggregate admits everything here. -/
theorem visit_admitted (h : (g.aggregating && label.kind.isAdmitted) = true) :
    visit env answers g log (.node label children) =
      .done (.node label children) (.matchAll none) := by
  rw [visit, if_pos h]

section Open

variable (hopen : (g.aggregating && label.kind.isAdmitted) = false)

include hopen

theorem visit_connective {wrap : List Fragment → Fragment}
    (hwrap : label.kind.connective? = some wrap) :
    visit env answers g log (.node label children) =
      (visitAll env answers g log children).map (.node label) id wrap := by
  rw [visit, if_neg (by simp [hopen])]
  cases hkind : label.kind <;> rw [hkind] at hwrap <;>
    first
    | (obtain rfl := Option.some.inj hwrap; rfl)
    | exact absurd hwrap (by simp [Kind.connective?])

theorem visit_joined {join : Fragment → Fragment} (hjoin : label.kind.join? = some join) :
    visit env answers g log (.node label children) =
      (visitFirst env answers g log join children).map (.node label) id id := by
  rw [visit, if_neg (by simp [hopen])]
  cases hkind : label.kind <;> rw [hkind] at hjoin <;>
    first
    | (obtain rfl := Option.some.inj hjoin; rfl)
    | exact absurd hjoin (by simp [Kind.join?])

end Open

theorem visit_scope (hkind : label.kind = .scope) :
    visit env answers g log (.node label children) =
      match enter? env g (.node label children) with
      | none => .halt (.node label children) .refused
      | some inner => (visitAll env answers inner log children).map (.node label) id
          (leave inner) := by
  rw [visit, if_neg (by simp [hkind, Kind.isAdmitted]), hkind]

theorem visit_expansion {link : Link} {generated : Bool}
    (hkind : label.kind = .expansion link generated) :
    visit env answers g log (.node label children) =
      expandTree env answers g log (.node label children) link generated := by
  rw [visit, if_neg (by simp [hkind, Kind.isAdmitted]), hkind]

theorem visit_terminal (h : (Query.Tree.node label children).IsTerminal) :
    visit env answers g log (.node label children) = compiledTree env g (.node label children) := by
  have hterminal : label.kind.isLeaf = true ∨ label.kind.isProximity = true := h
  rw [visit]
  cases hkind : label.kind <;> rw [hkind] at hterminal <;>
    first
    | exact if_neg (by simp [Kind.isAdmitted])
    | exact absurd hterminal (by simp [Kind.isLeaf, Kind.isProximity])

end Visiting

end Compile

end LinkedSearch
