import LinkedSearch.Compile.Aggregate

/-! # Outcomes of computations

A computation on a state ends with a value or with an error, and in both cases with a changed state.
`exec` is that pair, and `wp x Q E s` says of a computation `x` started in `s` that `Q` holds of its
value and its last state if it succeeds, and `E` of its error and its last state if it fails.

* The rules `wp_pure`, `wp_bind`, `wp_look`, … carry a postcondition backwards through a
  computation, one statement at a time.
* `wp_forM_cons`, `wp_forM_append`: a loop for its effect is its steps, one after the other.
* `exec_scope`, `exec_scopeClauses`: a scope finds its path, compiles its children one scope deeper,
  and wraps what they are compiled to. -/

namespace LinkedSearch

section Rules

variable {σ α β : Type}

/-- What a computation does: its outcome, and the state after it. -/
def exec (x : ExceptT Error (StateM σ) α) (s : σ) : Except Error α × σ := x.run.run s

/-- The value of a success. -/
@[simp] theorem toOption_eq_some {outcome : Except Error α} {a : α} :
    outcome.toOption = some a ↔ outcome = .ok a := by
  cases outcome <;> simp [Except.toOption]

/-- Throwing is no success. -/
@[simp] theorem throw_ne_ok {e : Error} {a : α} : (throw e : Except Error α) ≠ .ok a := nofun

/-- A sequence goes on where its first part succeeded and stops where it failed. -/
theorem exec_bind (x : ExceptT Error (StateM σ) α) (f : α → ExceptT Error (StateM σ) β) (s : σ) :
    exec (x >>= f) s = match exec x s with
      | (.ok a, t) => exec (f a) t
      | (.error e, t) => (.error e, t) := by
  show (ExceptT.bind x f).run.run s = _
  unfold ExceptT.bind ExceptT.bindCont exec
  simp only [ExceptT.run_mk, bind]
  rcases h : x.run.run s with ⟨o, t⟩
  have h' : StateT.run x s = (o, t) := h
  simp only [StateT.bind, StateT.run] at h' ⊢
  rw [h']
  cases o <;> rfl

/-- A sequence succeeds if both parts do. -/
theorem exec_bind_ok {x : ExceptT Error (StateM σ) α} {f : α → ExceptT Error (StateM σ) β}
    {s t : σ} {b : β} :
    exec (x >>= f) s = (.ok b, t) ↔
      ∃ a u, exec x s = (.ok a, u) ∧ exec (f a) u = (.ok b, t) := by
  rw [exec_bind]
  rcases exec x s with ⟨_ | a, u⟩
  · simp
  · constructor
    · exact fun h => ⟨a, u, rfl, h⟩
    · rintro ⟨_, _, heq, h⟩
      cases heq
      exact h

/-- What is returned in the end is made of the outcome. -/
theorem exec_return (x : ExceptT Error (StateM σ) α) (f : α → β) (s : σ) :
    exec (do return f (← x)) s = ((exec x s).1.map f, (exec x s).2) := by
  rw [exec_bind]
  rcases exec x s with ⟨_ | a, t⟩ <;> rfl

/-- A sequence that ends by returning what its first part gave succeeds if that part does. -/
theorem exec_return_ok {x : ExceptT Error (StateM σ) α} {f : α → β} {s t : σ} {b : β} :
    exec (do return f (← x)) s = (.ok b, t) ↔ ∃ a, exec x s = (.ok a, t) ∧ f a = b := by
  rw [exec_return]
  rcases exec x s with ⟨error | a, u⟩
  · simp [Except.map]
  · constructor
    · intro h
      obtain ⟨hb, rfl⟩ := Prod.mk.inj h
      exact ⟨a, rfl, Except.ok.inj hb⟩
    · rintro ⟨_, heq, rfl⟩
      cases heq
      rfl

/-- A collecting loop succeeds if its first step and the rest of it do. -/
theorem exec_mapM_cons_ok {f : α → ExceptT Error (StateM σ) β} {a : α} {l : List α} {s t : σ}
    {bs : List β} :
    exec ((a :: l).mapM f) s = (.ok bs, t) ↔
      ∃ b u rest, exec (f a) s = (.ok b, u) ∧ exec (l.mapM f) u = (.ok rest, t) ∧
        bs = b :: rest := by
  rw [List.mapM_cons, exec_bind_ok]
  constructor
  · rintro ⟨b, u, hb, h⟩
    obtain ⟨rest, hrest, hbs⟩ := exec_return_ok.mp h
    exact ⟨b, u, rest, hb, hrest, hbs.symm⟩
  · rintro ⟨b, u, rest, hb, hrest, rfl⟩
    exact ⟨b, u, hb, exec_return_ok.mpr ⟨rest, hrest, rfl⟩⟩

/-- A loop for its effect over two lists is one loop after the other. -/
theorem exec_forM_append_ok {f : α → ExceptT Error (StateM σ) PUnit} {l l' : List α} {s t : σ} :
    exec ((l ++ l').forM f) s = (.ok ⟨⟩, t) ↔
      ∃ u, exec (l.forM f) s = (.ok ⟨⟩, u) ∧ exec (l'.forM f) u = (.ok ⟨⟩, t) := by
  have happend : (l ++ l').forM f = l.forM f >>= fun _ => l'.forM f := List.forM_append
  rw [happend, exec_bind_ok]
  constructor
  · rintro ⟨_, u, hl, hl'⟩
    exact ⟨u, hl, hl'⟩
  · rintro ⟨u, hl, hl'⟩
    exact ⟨⟨⟩, u, hl, hl'⟩

/-- A loop over a single item is the step for this item. -/
theorem exec_forM_singleton (f : α → ExceptT Error (StateM σ) PUnit) (a : α) (s : σ) :
    exec ([a].forM f) s = exec (f a) s := by
  show exec (f a >>= fun _ => pure PUnit.unit) s = _
  rw [exec_bind]
  rcases exec (f a) s with ⟨_ | _, t⟩ <;> rfl

/-- **Weakest precondition**: `Q` holds after success and `E` after failure. -/
def wp (x : ExceptT Error (StateM σ) α) (Q : α → σ → Prop) (E : Error → σ → Prop) (s : σ) : Prop :=
  match exec x s with
  | (.ok a, t) => Q a t
  | (.error e, t) => E e t

variable {x : ExceptT Error (StateM σ) α} {Q : α → σ → Prop} {E : Error → σ → Prop} {s t : σ}

/-- The precondition says what it should of a successful computation. -/
theorem wp_of_ok {a : α} (h : exec x s = (.ok a, t)) : wp x Q E s ↔ Q a t := by
  rw [wp, h]

/-- The precondition says what it should of a failing computation. -/
theorem wp_of_error {e : Error} (h : exec x s = (.error e, t)) : wp x Q E s ↔ E e t := by
  rw [wp, h]

/-- A precondition follows from a stronger one. -/
theorem wp_mono {Q' : α → σ → Prop} {E' : Error → σ → Prop} (h : wp x Q E s)
    (hQ : ∀ a t, Q a t → Q' a t) (hE : ∀ e t, E e t → E' e t) : wp x Q' E' s := by
  rcases hx : exec x s with ⟨_ | a, t⟩
  · exact (wp_of_error hx).mpr (hE _ t ((wp_of_error hx).mp h))
  · exact (wp_of_ok hx).mpr (hQ a t ((wp_of_ok hx).mp h))

/-- Two preconditions hold together. -/
theorem wp_and {Q' : α → σ → Prop} {E' : Error → σ → Prop} (h : wp x Q E s) (h' : wp x Q' E' s) :
    wp x (fun a t => Q a t ∧ Q' a t) (fun e t => E e t ∧ E' e t) s := by
  rcases hx : exec x s with ⟨_ | a, t⟩
  · exact (wp_of_error hx).mpr ⟨(wp_of_error hx).mp h, (wp_of_error hx).mp h'⟩
  · exact (wp_of_ok hx).mpr ⟨(wp_of_ok hx).mp h, (wp_of_ok hx).mp h'⟩

/-- What a computation does in fact is a precondition of it. -/
theorem wp_exec (x : ExceptT Error (StateM σ) α) (s : σ) :
    wp x (fun a t => exec x s = (.ok a, t)) (fun e t => exec x s = (.error e, t)) s := by
  rcases hx : exec x s with ⟨_ | a, t⟩
  · exact (wp_of_error hx).mpr rfl
  · exact (wp_of_ok hx).mpr rfl

/-- The state after a computation, if the same holds of it after success and after failure. -/
theorem wp_const {P : σ → Prop} :
    wp x (fun _ t => P t) (fun _ t => P t) s ↔ P (exec x s).2 := by
  rw [wp]
  rcases exec x s with ⟨_ | _, t⟩ <;> rfl

/-- A computation that starts with a look at the state goes on with what it is. -/
theorem exec_get_bind (f : σ → ExceptT Error (StateM σ) α) (s : σ) :
    exec (get >>= f) s = exec (f s) s := rfl

@[simp] theorem wp_pure (a : α) : wp (pure a) Q E s ↔ Q a s := Iff.rfl

@[simp] theorem wp_throw (e : Error) :
    wp (throw e : ExceptT Error (StateM σ) α) Q E s ↔ E e s := Iff.rfl

/-- **Sequence**: the precondition of the second part is the postcondition of the first. -/
@[simp] theorem wp_bind (x : ExceptT Error (StateM σ) β) (f : β → ExceptT Error (StateM σ) α) :
    wp (x >>= f) Q E s ↔ wp x (fun b t => wp (f b) Q E t) E s := by
  unfold wp
  rw [exec_bind]
  rcases exec x s with ⟨_ | b, t⟩ <;> rfl

@[simp] theorem wp_map (g : β → α) (x : ExceptT Error (StateM σ) β) :
    wp (g <$> x) Q E s ↔ wp x (fun b t => Q (g b) t) E s := by
  rw [map_eq_pure_bind, wp_bind]
  rfl

@[simp] theorem wp_get {Q : σ → σ → Prop} :
    wp (get : ExceptT Error (StateM σ) σ) Q E s ↔ Q s s := Iff.rfl

@[simp] theorem wp_set {Q : PUnit → σ → Prop} (t : σ) :
    wp (set t : ExceptT Error (StateM σ) PUnit) Q E s ↔ Q ⟨⟩ t := Iff.rfl

@[simp] theorem wp_modify {Q : PUnit → σ → Prop} (f : σ → σ) :
    wp (modify f : ExceptT Error (StateM σ) PUnit) Q E s ↔ Q ⟨⟩ (f s) := Iff.rfl

/-- A loop for its effect is its first step, and then the rest. -/
theorem wp_forM_cons {Q : PUnit → σ → Prop} (f : α → ExceptT Error (StateM σ) PUnit) (a : α)
    (l : List α) : wp ((a :: l).forM f) Q E s ↔ wp (f a) (fun _ t => wp (l.forM f) Q E t) E s := by
  show wp (f a >>= fun _ => l.forM f) Q E s ↔ _
  rw [wp_bind]

/-- A loop for its effect over two lists is one loop after the other. -/
theorem wp_forM_append {Q : PUnit → σ → Prop} (f : α → ExceptT Error (StateM σ) PUnit)
    (l l' : List α) :
    wp ((l ++ l').forM f) Q E s ↔ wp (l.forM f) (fun _ t => wp (l'.forM f) Q E t) E s := by
  have happend : (l ++ l').forM f = l.forM f >>= fun _ => l'.forM f := List.forM_append
  rw [happend, wp_bind]

end Rules

/-! ## Computations on the progress of a compilation -/

namespace Compile

open Query (Arena Label NodeId)

variable {α : Type} {Q : α → Progress → Prop} {E : Error → Progress → Prop} {p : Progress}

@[simp] theorem wp_ofExcept (outcome : Except Error α) :
    wp (ofExcept outcome) Q E p ↔ match outcome with
      | .ok a => Q a p
      | .error e => E e p := by
  cases outcome <;> rfl

theorem exec_arena_bind (f : Arena → Compile α) (p : Progress) :
    exec (arena >>= f) p = exec (f p.draft.arena) p := rfl

theorem exec_labelOf_bind (id : NodeId) (f : Label → Compile α) (p : Progress) :
    exec (labelOf id >>= f) p = exec (f (p.draft.arena.label id)) p := rfl

theorem exec_childrenOf_bind (id : NodeId) (f : List NodeId → Compile α) (p : Progress) :
    exec (childrenOf id >>= f) p = exec (f (p.draft.arena.children id)) p := rfl

@[simp] theorem wp_arena {Q : Arena → Progress → Prop} :
    wp arena Q E p ↔ Q p.draft.arena p := Iff.rfl

@[simp] theorem wp_modifyArena {Q : Unit → Progress → Prop} (change : Arena → Arena) :
    wp (modifyArena change) Q E p ↔
      Q () { p with draft := { p.draft with arena := change p.draft.arena } } := Iff.rfl

@[simp] theorem wp_labelOf {Q : Label → Progress → Prop} (id : NodeId) :
    wp (labelOf id) Q E p ↔ Q (p.draft.arena.label id) p := Iff.rfl

@[simp] theorem wp_childrenOf {Q : List NodeId → Progress → Prop} (id : NodeId) :
    wp (childrenOf id) Q E p ↔ Q (p.draft.arena.children id) p := Iff.rfl

@[simp] theorem wp_push {Q : NodeId → Progress → Prop} (label : Label) :
    wp (push label) Q E p ↔
      Q p.draft.arena.size
        { p with draft := { p.draft with arena := (p.draft.arena.push label).1 } } := Iff.rfl

/-- A lookup changes only what is known about the indexes. -/
theorem exec_look (lookup : Lookup α) (p : Progress) :
    exec (look lookup) p =
      ((exec lookup p.metadata).1, { p with metadata := (exec lookup p.metadata).2 }) := rfl

theorem wp_look (lookup : Lookup α) :
    wp (look lookup) Q E p ↔
      wp lookup (fun a metadata => Q a { p with metadata })
        (fun e metadata => E e { p with metadata }) p.metadata := by
  rw [wp, wp, exec_look]
  rcases exec lookup p.metadata with ⟨_ | a, metadata⟩ <;> rfl

/-- **Scope**: what holds inside holds outside once the scope is left, on success and on failure. -/
@[simp] theorem wp_within (enter leave : Progress → Progress) (x : Compile α) :
    wp (within enter leave x) Q E p ↔
      wp x (fun a q => Q a (leave q)) (fun e q => E e (leave q)) (enter p) := by
  have h : exec (within enter leave x) p =
      ((exec x (enter p)).1, leave (exec x (enter p)).2) := rfl
  rw [wp, wp, h]
  rcases exec x (enter p) with ⟨_ | a, q⟩ <;> rfl

/-! ## Scopes -/

variable {env : Environment} {s t : Progress}

/-- The rest of a scope, with the fragments of its children in the state after them. -/
def closeScope (fragments : List Fragment) (t : Progress) : Fragment × Progress :=
  if 0 < t.scopeDepth then (.all fragments, t)
  else
    (match t.scopePath with
      | some path => .nested path (.all fragments) none
      | none => .all fragments, { t with scopePath := none })

/-- A scope whose path is known: its children are compiled one scope deeper. -/
def scopeClauses (recur : NodeId → Compile Fragment) (ids : List NodeId) : Compile Fragment := do
  let fragments ← within (fun progress => { progress with scopeDepth := progress.scopeDepth + 1 })
    (fun progress => { progress with scopeDepth := progress.scopeDepth - 1 }) (ids.mapM recur)
  let progress ← get
  if 0 < progress.scopeDepth then return .all fragments
  else
    set { progress with scopePath := none }
    match progress.scopePath with
    | some path => return .nested path (.all fragments) none
    | none => return .all fragments

/-- The outermost scope finds its path first. -/
theorem exec_scope (recur : NodeId → Compile Fragment) (p : Progress) (n : NodeId) :
    exec (scope env recur n) p =
      if p.scopeDepth = 0 then
        match exec (sharedPath env n) p with
        | (.ok path, q) =>
          exec (scopeClauses recur (p.draft.arena.children n)) { q with scopePath := path }
        | (.error error, q) => (.error error, q)
      else exec (scopeClauses recur (p.draft.arena.children n)) p := by
  rw [scope, exec_childrenOf_bind, exec_get_bind]
  split
  · rw [exec_bind]
    rcases exec (sharedPath env n) p with ⟨error | path, q⟩
    · rfl
    · rfl
  · rfl

/-- A scope is closed after its children. -/
theorem exec_closing (fragments : List Fragment) (t : Progress) :
    exec (do
      let progress ← (get : Compile Progress)
      if 0 < progress.scopeDepth then return Fragment.all fragments
      else
        set { progress with scopePath := none }
        match progress.scopePath with
        | some path => return .nested path (.all fragments) none
        | none => return .all fragments) t =
      (.ok (closeScope fragments t).1, (closeScope fragments t).2) := by
  rw [closeScope, exec_get_bind]
  split
  · rfl
  · cases hpath : t.scopePath <;> rfl

/-- What a scope whose path is known ends with. It is left again even where a child of it fails. -/
theorem exec_scopeClauses {recur : NodeId → Compile Fragment} (ids : List NodeId) (s : Progress) :
    exec (scopeClauses recur ids) s =
      match exec (ids.mapM recur) { s with scopeDepth := s.scopeDepth + 1 } with
      | (.ok fragments, u) =>
        (.ok (closeScope fragments { u with scopeDepth := u.scopeDepth - 1 }).1,
          (closeScope fragments { u with scopeDepth := u.scopeDepth - 1 }).2)
      | (.error e, u) => (.error e, { u with scopeDepth := u.scopeDepth - 1 }) := by
  unfold scopeClauses
  rw [exec_bind]
  have hwithin : exec (within
        (fun progress => { progress with scopeDepth := progress.scopeDepth + 1 })
        (fun progress => { progress with scopeDepth := progress.scopeDepth - 1 })
        (ids.mapM recur)) s =
      ((exec (ids.mapM recur) { s with scopeDepth := s.scopeDepth + 1 }).1,
        { (exec (ids.mapM recur) { s with scopeDepth := s.scopeDepth + 1 }).2 with
          scopeDepth := (exec (ids.mapM recur)
            { s with scopeDepth := s.scopeDepth + 1 }).2.scopeDepth - 1 }) := rfl
  rw [hwithin]
  rcases exec (ids.mapM recur) { s with scopeDepth := s.scopeDepth + 1 } with ⟨e | fragments, u⟩
  · rfl
  · exact exec_closing fragments _

/-- What a scope whose path is known is compiled to. -/
theorem exec_scopeClauses_ok {recur : NodeId → Compile Fragment} {F : Fragment}
    (ids : List NodeId) :
    exec (scopeClauses recur ids) s = (.ok F, t) ↔
      ∃ fragments u, exec (ids.mapM recur) { s with scopeDepth := s.scopeDepth + 1 } =
          (.ok fragments, u) ∧
        (F, t) = closeScope fragments { u with scopeDepth := u.scopeDepth - 1 } := by
  rw [exec_scopeClauses]
  rcases exec (ids.mapM recur) { s with scopeDepth := s.scopeDepth + 1 } with ⟨e | fragments, u⟩
  · simp
  · constructor
    · intro h
      obtain ⟨hF, rfl⟩ := Prod.mk.inj h
      exact ⟨fragments, u, rfl, Prod.ext (Except.ok.inj hF).symm rfl⟩
    · rintro ⟨fragments', u', heq, hclose⟩
      cases heq
      exact congrArg (fun closed : Fragment × Progress => (Except.ok closed.1, closed.2)) hclose.symm

/-- The fragment of a scope depends on its depth and its path. -/
theorem closeScope_congr (fragments : List Fragment) (hdepth : s.scopeDepth = t.scopeDepth)
    (hpath : s.scopePath = t.scopePath) :
    (closeScope fragments s).1 = (closeScope fragments t).1 := by
  unfold closeScope
  rw [hdepth, hpath]
  split <;> rfl

end Compile

end LinkedSearch
