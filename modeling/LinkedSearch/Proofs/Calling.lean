import LinkedSearch.Proofs.Advance
import LinkedSearch.Proofs.Aggregates
import LinkedSearch.Proofs.Starting

/-! # Calls on a compiler

Compilers are used over and over: a query may be compiled several times, before and after its
aggregate or its suggestion, and some of these compilations may fail.

* `Call`, `Compiler.after`, `Compiler.succeeds`: sequences of calls on one compiler.
* `Compiler.Idle`, `Idle.after`: what holds between two calls.
* `Performs`, `perform_obeys`: what one call does, from what the query does.
* `after_evolves`, `after_advance`, `after_rest`: what calls do to the state, in general, if all of
  them succeed, and if the query is settled.
* `scans_eq_requests`, `genuine_of_mem_reports`: what the reports of a compiler tell. -/

namespace LinkedSearch

open Query (Arena Draft Kind Label NodeId Request Tree)

/-! ## Sequences of calls -/

/-- What may be asked of a compiler. -/
inductive Call where
  | query
  | aggregation
  | suggestion

namespace Compiler

/-- The compiler after a call, and whether the call has succeeded. -/
def perform (compiler : Compiler) : Call → Bool × Compiler
  | .query => (compiler.query.1.isOk, compiler.query.2)
  | .aggregation => (compiler.aggregation.1.isOk, compiler.aggregation.2)
  | .suggestion => (true, compiler)

/-- The compiler after some calls. -/
def after (compiler : Compiler) : List Call → Compiler
  | [] => compiler
  | call :: rest => (compiler.perform call).2.after rest

/-- Whether all of some calls succeed. -/
def succeeds (compiler : Compiler) : List Call → Bool
  | [] => true
  | call :: rest => (compiler.perform call).1 && (compiler.perform call).2.succeeds rest

/-- **Idle** compilers: between two calls the state is sound, no aggregate is being compiled, and the
root of the draft exists. -/
structure Idle (compiler : Compiler) : Prop where
  sound : Sound compiler.environment compiler.progress
  aggregating_eq : compiler.progress.aggregating = false
  rooted : ∀ root, compiler.progress.draft.root = some root →
    (root : Nat) < compiler.progress.draft.arena.size

end Compiler

/-! ## Compilations of the draft -/

namespace Compile

variable {env : Environment} {p q : Progress}

/-- A state with an existing root. -/
def Rooted (env : Environment) (p : Progress) : Prop :=
  Sound env p ∧ ∀ root, p.draft.root = some root → (root : Nat) < p.draft.arena.size

/-- A state with a settled root. -/
def RootSettled (env : Environment) (p : Progress) : Prop :=
  Sound env p ∧ ∀ root, p.draft.root = some root → p.draft.arena.Settled root

/-- **Advancing** is a discipline: a success advances the state, and a failure lets it evolve. -/
theorem advancing_discipline (env : Environment) :
    Discipline env (Rooted env) (fun p q => Evolves env p q ∧ Advance p q) (Evolves env) where
  sound := fun _ h => h.1
  keep := by
    rintro p q ⟨-, hroot⟩ ⟨hpq, -⟩
    refine ⟨hpq.sound, fun root h => ?_⟩
    exact Nat.lt_of_lt_of_le (hroot root (hpq.root_eq ▸ h)) hpq.size_le
  looked := fun _ _ h hl => ⟨⟨hl.evolves h.1, hl.advance⟩, hl.evolves h.1⟩
  trans := fun _ _ _ h h' => ⟨h.1.trans h'.1, h.2.trans h'.2⟩
  fail := fun _ _ _ h h' => h.1.trans h'

/-- **Resting** is a discipline of settled queries. -/
theorem resting_discipline (env : Environment) :
    Discipline env (RootSettled env) (Rested env) (Rested env) where
  sound := fun _ h => h.1
  keep := by
    rintro p q ⟨-, hroot⟩ hpq
    refine ⟨hpq.sound, ?_⟩
    rw [hpq.draft_eq]
    exact hroot
  looked := by
    intro p q h hl
    exact ⟨hl.rested h.1, hl.rested h.1⟩
  trans := fun _ _ _ h h' => h.trans h'
  fail := fun _ _ _ h h' => h.trans h'

/-- The query of the draft advances the state, and settles its root outside of aggregates. -/
theorem rootQuery_advances (hp : Rooted env p) :
    wp (rootQuery env) (fun _ q => (Evolves env p q ∧ Advance p q) ∧
      (p.aggregating = false → RootSettled env q)) (fun _ q => Evolves env p q) p := by
  unfold rootQuery
  rw [wp_bind, wp_get]
  split
  · next root hroot =>
    unfold query
    rw [wp_bind, wp_arena]
    refine wp_mono (wp_and (nodeWithin_steps _ root p hp.1) (wp_exec _ _)) ?_ fun _ _ h => h.1
    rintro fragment q ⟨⟨hpq, -⟩, hexec⟩
    obtain ⟨hadvance, hsettled⟩ :=
      nodeWithin_advance _ root p q fragment hp.1 (hp.2 root hroot) hexec
    refine ⟨⟨hpq, hadvance⟩, fun hquery => ⟨hpq.sound, fun root' hroot' => ?_⟩⟩
    rw [hpq.root_eq, hroot] at hroot'
    cases hroot'
    exact hsettled hquery
  · next hroot =>
    refine ⟨⟨.refl hp.1, .refl p⟩, fun _ => ⟨hp.1, fun root h => ?_⟩⟩
    rw [hroot] at h
    exact absurd h (by simp)

theorem rootQuery_obeys_advancing : Obeys (Rooted env)
    (fun p q => Evolves env p q ∧ Advance p q) (Evolves env) (rootQuery env) :=
  fun _ hp => wp_mono (rootQuery_advances hp) (fun _ _ h => h.1) fun _ _ h => h

/-- A settled query is left alone. -/
theorem rootQuery_obeys_resting :
    Obeys (RootSettled env) (Rested env) (Rested env) (rootQuery env) := by
  intro p hp
  unfold rootQuery
  rw [wp_bind, wp_get]
  split
  · next root hroot =>
    unfold query
    rw [wp_bind, wp_arena]
    exact nodeWithin_rests _ hp.1 (hp.2 root hroot)
  · exact .refl hp.1

end Compile

/-! ## Single calls -/

namespace Compiler

variable {compiler : Compiler}

open Compile

theorem Idle.rootedState (h : compiler.Idle) : Rooted compiler.environment compiler.progress :=
  ⟨h.sound, h.rooted⟩

/-- The state in which the filter of an aggregate is compiled. -/
theorem Idle.rootedFilter (h : compiler.Idle) :
    Rooted compiler.environment { compiler.progress with aggregating := true } :=
  ⟨⟨h.sound.ascending, h.sound.faithful⟩, h.rooted⟩

/-- An evolution that leaves the aggregates again ends in an idle compiler. -/
theorem Idle.evolve (h : compiler.Idle) {after : Compiler}
    (henv : after.environment = compiler.environment)
    (hevolves : Evolves compiler.environment compiler.progress after.progress) : after.Idle where
  sound := henv ▸ hevolves.sound
  aggregating_eq := hevolves.aggregating_eq.trans h.aggregating_eq
  rooted := fun root hroot =>
    Nat.lt_of_lt_of_le (h.rooted root (hevolves.root_eq ▸ hroot)) hevolves.size_le

/-- What running a computation on a compiler does, from what the computation does. -/
theorem run_spec {α : Type} {action : Environment → Compile α}
    {Q : α → Progress → Prop} {E : Error → Progress → Prop}
    (h : wp (action compiler.environment) Q E compiler.progress) :
    (∃ a, (compiler.run action).1 = .ok a ∧ Q a (compiler.run action).2.progress) ∨
      ∃ e, (compiler.run action).1 = .error e ∧ E e (compiler.run action).2.progress := by
  have hrun : compiler.run action =
      ((exec (action compiler.environment) compiler.progress).1,
        { compiler with progress := (exec (action compiler.environment) compiler.progress).2 }) :=
    rfl
  rw [hrun]
  rcases hexec : exec (action compiler.environment) compiler.progress with ⟨e | a, q⟩
  · exact .inr ⟨e, rfl, (wp_of_error hexec).mp h⟩
  · exact .inl ⟨a, rfl, (wp_of_ok hexec).mp h⟩

/-- **What one call does**, if the query does what `R` says: nothing, the same as the query, or, within an
aggregate, the same as the query that is its filter. -/
inductive Performs (R : Progress → Progress → Prop) (p : Progress) : Progress → Prop
  | nothing : Performs R p p
  | query {q : Progress} (h : R p q) : Performs R p q
  | filter {s : Progress} (h : R { p with aggregating := true } s) :
      Performs R p { s with aggregating := false }

section Performs

variable {env : Environment} {R S : Progress → Progress → Prop} {p q : Progress}

theorem Performs.mono (h : Performs R p q) (hRS : ∀ p q, R p q → S p q) : Performs S p q := by
  cases h with
  | nothing => exact .nothing
  | query h => exact .query (hRS _ _ h)
  | filter h => exact .filter (hRS _ _ h)

/-- What does not depend on the aggregates, and is kept by the query, is kept by every call. -/
theorem Performs.keeps {P : Progress → Prop} (h : Performs R p q) (hp : P p)
    (haggregate : ∀ s b, P s → P { s with aggregating := b }) (hkeep : ∀ s q, P s → R s q → P q) :
    P q := by
  cases h with
  | nothing => exact hp
  | query h => exact hkeep _ _ hp h
  | filter h => exact haggregate _ _ (hkeep _ _ (haggregate _ _ hp) h)

theorem Performs.evolves (h : Performs (Evolves env) p q) (hsound : Sound env p)
    (hidle : p.aggregating = false) : Evolves env p q := by
  cases h with
  | nothing => exact .refl hsound
  | query h => exact h
  | filter h =>
    exact h.transfer rfl rfl rfl rfl rfl rfl rfl rfl h.scopeDepth_eq h.scopePath_eq hidle.symm
      h.generated_eq

theorem Performs.advance (h : Performs Advance p q) : Advance p q := by
  cases h with
  | nothing => exact .refl p
  | query h => exact h
  | filter h => exact h.congr rfl rfl rfl rfl

theorem Performs.rested (h : Performs (Rested env) p q) (hsound : Sound env p) : Rested env p q := by
  cases h with
  | nothing => exact .refl hsound
  | query h => exact h
  | filter h =>
    exact ⟨⟨h.sound.ascending, h.sound.faithful⟩, h.draft_eq, h.scans_eq, h.reports_eq⟩

end Performs

/-- **Calls obey what the query obeys**: the one half of a discipline if they succeed, the other half if
they fail. -/
theorem perform_obeys {I : Progress → Prop} {R E : Progress → Progress → Prop}
    (hd : Discipline compiler.environment I R E)
    (hquery : Obeys I R E (rootQuery compiler.environment)) (hstart : I compiler.progress)
    (hfilter : I { compiler.progress with aggregating := true }) (call : Call) :
    ((compiler.perform call).1 = true ∧
        Performs R compiler.progress (compiler.perform call).2.progress) ∨
      ((compiler.perform call).1 = false ∧
        Performs E compiler.progress (compiler.perform call).2.progress) := by
  cases call with
  | query =>
    rcases run_spec (hquery _ hstart) with ⟨fragment, hok, hR⟩ | ⟨error, herror, hE⟩
    · exact .inl ⟨congrArg Except.isOk hok, .query hR⟩
    · exact .inr ⟨congrArg Except.isOk herror, .query hE⟩
  | aggregation =>
    rcases run_spec (aggregate_obeys hd hquery hfilter) with
      ⟨tree, hok, heq | ⟨s, hs, heq⟩⟩ | ⟨error, herror, s, hs, heq⟩
    · have hnothing : (compiler.perform .aggregation).2.progress = compiler.progress := heq
      exact .inl ⟨congrArg Except.isOk hok, hnothing ▸ .nothing⟩
    · have hleft : (compiler.perform .aggregation).2.progress = { s with aggregating := false } := heq
      exact .inl ⟨congrArg Except.isOk hok, hleft ▸ .filter hs⟩
    · have hleft : (compiler.perform .aggregation).2.progress = { s with aggregating := false } := heq
      exact .inr ⟨congrArg Except.isOk herror, hleft ▸ .filter hs⟩
  | suggestion => exact .inl ⟨rfl, .nothing⟩

/-- **One call** on an idle compiler: its state evolves, and has advanced if the call has succeeded. -/
theorem perform_advance (h : compiler.Idle) (call : Call) :
    Evolves compiler.environment compiler.progress (compiler.perform call).2.progress ∧
      ((compiler.perform call).1 = true →
        Advance compiler.progress (compiler.perform call).2.progress) := by
  rcases perform_obeys (advancing_discipline _) rootQuery_obeys_advancing h.rootedState
    h.rootedFilter call with ⟨-, hdone⟩ | ⟨hfails, hdone⟩
  · have hevolves := (hdone.mono fun _ _ h => h.1).evolves h.sound h.aggregating_eq
    exact ⟨hevolves, fun _ => (hdone.mono fun _ _ h => h.2).advance⟩
  · refine ⟨hdone.evolves h.sound h.aggregating_eq, fun hok => ?_⟩
    exact absurd (hfails.symm.trans hok) Bool.false_ne_true

/-- **One call on a settled query** leaves the draft and the scans alone, whatever its outcome. -/
theorem perform_rest (h : RootSettled compiler.environment compiler.progress) (call : Call) :
    Rested compiler.environment compiler.progress (compiler.perform call).2.progress := by
  have hfilter : RootSettled compiler.environment { compiler.progress with aggregating := true } :=
    ⟨⟨h.1.ascending, h.1.faithful⟩, h.2⟩
  rcases perform_obeys (resting_discipline _) rootQuery_obeys_resting h hfilter call with
    ⟨-, hdone⟩ | ⟨-, hdone⟩
  · exact hdone.rested h.1
  · exact hdone.rested h.1

/-! ## Sequences of calls -/

@[simp] theorem perform_environment (compiler : Compiler) (call : Call) :
    (compiler.perform call).2.environment = compiler.environment := by
  cases call <;> rfl

@[simp] theorem after_environment (compiler : Compiler) (calls : List Call) :
    (compiler.after calls).environment = compiler.environment := by
  induction calls generalizing compiler with
  | nil => rfl
  | cons call rest ih => rw [after, ih, perform_environment]

theorem after_append (compiler : Compiler) (calls later : List Call) :
    compiler.after (calls ++ later) = (compiler.after calls).after later := by
  induction calls generalizing compiler with
  | nil => rfl
  | cons call rest ih => exact ih _

/-- An idle compiler is idle again after a call. -/
theorem Idle.perform (h : compiler.Idle) (call : Call) : (compiler.perform call).2.Idle :=
  h.evolve (perform_environment compiler call) (perform_advance h call).1

/-- Calls let the state of a compiler evolve, whatever their outcomes. -/
theorem after_evolves (h : compiler.Idle) (calls : List Call) :
    Evolves compiler.environment compiler.progress (compiler.after calls).progress := by
  induction calls generalizing compiler with
  | nil => exact .refl h.sound
  | cons call rest ih =>
    have hrest := ih (h.perform call)
    rw [perform_environment] at hrest
    exact (perform_advance h call).1.trans hrest

theorem Idle.after (h : compiler.Idle) (calls : List Call) : (compiler.after calls).Idle :=
  h.evolve (after_environment compiler calls) (after_evolves h calls)

/-- Successful calls advance a compiler. -/
theorem after_advance (h : compiler.Idle) (calls : List Call) (hcalls : compiler.succeeds calls = true) :
    Advance compiler.progress (compiler.after calls).progress := by
  induction calls generalizing compiler with
  | nil => exact .refl _
  | cons call rest ih =>
    rw [succeeds, Bool.and_eq_true] at hcalls
    have hadvance := (perform_advance h call).2 hcalls.1
    exact hadvance.trans (ih (h.perform call) hcalls.2)

/-- Calls on a settled query leave the draft and the scans alone. -/
theorem after_rest (h : RootSettled compiler.environment compiler.progress) (calls : List Call) :
    Rested compiler.environment compiler.progress (compiler.after calls).progress := by
  induction calls generalizing compiler with
  | nil => exact .refl h.1
  | cons call rest ih =>
    have hrested := perform_rest h call
    have hnext := (resting_discipline _).keep _ _ h hrested
    rw [← perform_environment compiler call] at hnext hrested
    have hrest := ih hnext
    rw [perform_environment] at hrest hrested
    exact hrested.trans hrest

/-- A started compiler is idle. -/
theorem idle_of_started {setup : Setup} (h : setup.Started compiler) : compiler.Idle := by
  obtain ⟨md, hprogress⟩ := h.progress_eq
  refine ⟨h.sound, by rw [hprogress], fun root hroot => ?_⟩
  obtain ⟨tree, -, hinserted⟩ := h.inserted_root hroot
  rw [hinserted.id_eq]
  exact hinserted.size_lt

/-- The scans of a compiler are those that its reports tell of, in this order. -/
theorem scans_eq_requests {setup : Setup} (h : setup.Started compiler) (calls : List Call) :
    (compiler.after calls).scans =
      (compiler.after calls).reports.filterMap (·.resolution.request?) := by
  obtain ⟨md, hprogress⟩ := h.progress_eq
  obtain ⟨reports, hreports, hscans⟩ := (after_evolves (idle_of_started h) calls).logged
  have hreports : (compiler.after calls).reports = reports := by
    rw [Compiler.reports, hreports, hprogress, List.nil_append]
  rw [hreports, Compiler.scans, hscans, hprogress, List.nil_append]

/-- Every report of a compiler is genuine. -/
theorem genuine_of_mem_reports {setup : Setup} (h : setup.Started compiler) (calls : List Call)
    {r : Report} (hr : r ∈ (compiler.after calls).reports) :
    r.Genuine compiler.environment (compiler.after calls).progress := by
  obtain ⟨md, hprogress⟩ := h.progress_eq
  have hnone : compiler.progress.reports = [] := by rw [hprogress]
  rcases (after_evolves (idle_of_started h) calls).genuine r hr with hold | hnew
  · rw [hnone] at hold
    exact absurd hold (by simp)
  · exact hnew

end Compiler

end LinkedSearch
