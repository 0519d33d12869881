import LinkedSearch.Proofs.Calling

/-! # Uses of a compiler

Between its calls a compiler is asked where its query and its aggregate are sent, under which name the
aggregated field is known there, and what the draft looks like. Some of these questions look fields up
and leave a trace in the metadata.

* `Use`, `Compiler.used`: everything that may be asked of a compiler, one after the other.
* `used_evolves`, `Idle.used`: uses let the state of a compiler evolve, and leave it idle.
* `used_append`, `queried_of_mem`: what is kept over further uses. -/

namespace LinkedSearch

open Query (Request)

/-- **Uses** of a compiler. -/
inductive Use where
  | call (call : Call)
  | searchIndex
  | aggregateIndex
  | aggregateField
  | aggregateNested
  | dump

namespace Compiler

open Compile

variable {compiler : Compiler}

/-- The compiler after a use. -/
def use (compiler : Compiler) : Use → Compiler
  | .call call => (compiler.perform call).2
  | .aggregateIndex => compiler.aggregateIndex.2
  | .aggregateField => compiler.aggregateField.2
  | .searchIndex | .aggregateNested | .dump => compiler

/-- The compiler after some uses. -/
def used (compiler : Compiler) : List Use → Compiler
  | [] => compiler
  | use :: rest => (compiler.use use).used rest

theorem used_append (compiler : Compiler) (uses later : List Use) :
    compiler.used (uses ++ later) = (compiler.used uses).used later := by
  induction uses generalizing compiler with
  | nil => rfl
  | cons use rest ih => exact ih _

/-! ## Single uses -/

@[simp] theorem use_environment (compiler : Compiler) (use : Use) :
    (compiler.use use).environment = compiler.environment := by
  cases use with
  | call call => exact perform_environment compiler call
  | _ => rfl

/-- What only ever lets a sound state evolve lets the state of a compiler evolve. -/
theorem run_evolves {α : Type} {action : Environment → Compile α} (h : compiler.Idle)
    (hsteps : Steps compiler.environment (action compiler.environment)) :
    Evolves compiler.environment compiler.progress (compiler.run action).2.progress := by
  rcases run_spec (hsteps _ h.sound) with ⟨_, -, hevolves, -⟩ | ⟨_, -, hevolves⟩
  · exact hevolves
  · exact hevolves

/-- The owner of a field is looked up. -/
theorem ownerOf_steps (env : Environment) (field : String) : Steps env (ownerOf env field) :=
  fun _ hp => (leads_of_exec hp (exec_ownerOf hp field)).mono fun _ _ _ _ => trivial

/-- **One use** lets the state of an idle compiler evolve. -/
theorem use_evolves (h : compiler.Idle) (use : Use) :
    Evolves compiler.environment compiler.progress (compiler.use use).progress := by
  cases use with
  | call call => exact (perform_advance h call).1
  | aggregateIndex =>
    refine run_evolves h (Steps.get fun p => ?_)
    simp only
    split
    · exact (ownerOf_steps _ _).bind fun _ => .pure _
    · exact .throw _
  | aggregateField =>
    refine run_evolves h (Steps.get fun p => ?_)
    split
    · exact .throw _
    · simp only
      split
      · exact .pure _
      · refine (ownerOf_steps _ _).bind fun _ => ?_
        split <;> exact .pure _
  | searchIndex => exact .refl h.sound
  | aggregateNested => exact .refl h.sound
  | dump => exact .refl h.sound

/-- A compiler that was compiled stays so. -/
theorem queried_use (h : compiler.queried = true) (use : Use) : (compiler.use use).queried = true := by
  cases use with
  | call call =>
    cases call with
    | query => rfl
    | aggregation => exact h
    | suggestion => exact h
  | _ => exact h

/-! ## Sequences of uses -/

@[simp] theorem used_environment (compiler : Compiler) (uses : List Use) :
    (compiler.used uses).environment = compiler.environment := by
  induction uses generalizing compiler with
  | nil => rfl
  | cons use rest ih => rw [used, ih, use_environment]

/-- An idle compiler is idle again after a use. -/
theorem Idle.use (h : compiler.Idle) (use : Use) : (compiler.use use).Idle :=
  h.evolve (use_environment compiler use) (use_evolves h use)

/-- **Uses let the state of a compiler evolve**, whatever their outcomes. -/
theorem used_evolves (h : compiler.Idle) (uses : List Use) :
    Evolves compiler.environment compiler.progress (compiler.used uses).progress := by
  induction uses generalizing compiler with
  | nil => exact .refl h.sound
  | cons use rest ih =>
    have hrest := ih (h.use use)
    rw [use_environment] at hrest
    exact (use_evolves h use).trans hrest

theorem Idle.used (h : compiler.Idle) (uses : List Use) : (compiler.used uses).Idle :=
  h.evolve (used_environment compiler uses) (used_evolves h uses)

/-- The aggregate is the one of the request, whatever a compiler was used for. -/
theorem aggregate_used {setup : Setup} (h : setup.Started compiler) (uses : List Use) :
    (compiler.used uses).progress.draft.aggregate = setup.request.aggregate := by
  obtain ⟨md, hprogress⟩ := h.progress_eq
  rw [(used_evolves (idle_of_started h) uses).draft_eq, hprogress]
  rfl

/-- Every report of a compiler is genuine, whatever it was used for. -/
theorem genuine_of_used {setup : Setup} (h : setup.Started compiler) (uses : List Use) {r : Report}
    (hr : r ∈ (compiler.used uses).reports) :
    r.Genuine compiler.environment (compiler.used uses).progress := by
  obtain ⟨md, hprogress⟩ := h.progress_eq
  have hnone : compiler.progress.reports = [] := by rw [hprogress]
  refine ((used_evolves (idle_of_started h) uses).genuine r hr).resolve_left fun hold => ?_
  rw [hnone] at hold
  exact List.not_mem_nil hold

/-- A compiler counts as compiled after a call for its query. -/
theorem queried_of_mem {uses : List Use} (h : .call .query ∈ uses) :
    (compiler.used uses).queried = true := by
  have hkeep : ∀ (later : List Use) (compiler : Compiler), compiler.queried = true →
      (compiler.used later).queried = true := by
    intro later
    induction later with
    | nil => exact fun _ h => h
    | cons use rest ih => exact fun _ h => ih _ (queried_use h use)
  obtain ⟨earlier, later, rfl⟩ := List.append_of_mem h
  rw [used_append]
  exact hkeep later _ rfl

end Compiler

end LinkedSearch
