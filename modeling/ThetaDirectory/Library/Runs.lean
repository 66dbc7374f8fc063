/-!
# Runs of operations

The steps of a run, and what holds at each of them when every operation keeps an
invariant.
-/

namespace ThetaDirectory.Library.Runs

universe u v

/-- One step of a run. -/
structure Step (α : Type u) (σ : Type v) where
  before : σ
  operation : α
  after : σ

variable {α : Type u} {σ : Type v}

/-- The steps of a run of operations from a state. -/
def steps (apply : α → σ → σ) : List α → σ → List (Step α σ)
  | [], _ => []
  | operation :: operations, state =>
      ⟨state, operation, apply operation state⟩ :: steps apply operations (apply operation state)

/-- The state after a run of operations. -/
def run (apply : α → σ → σ) : List α → σ → σ
  | [], state => state
  | operation :: operations, state => run apply operations (apply operation state)

variable {apply : α → σ → σ} {operations : List α} {state : σ}

theorem run_append (apply : α → σ → σ) (operations later : List α) (state : σ) :
    run apply (operations ++ later) state = run apply later (run apply operations state) := by
  induction operations generalizing state with
  | nil => rfl
  | cons operation operations ih => exact ih (apply operation state)

theorem steps_append (apply : α → σ → σ) (operations later : List α) (state : σ) :
    steps apply (operations ++ later) state =
      steps apply operations state ++ steps apply later (run apply operations state) := by
  induction operations generalizing state with
  | nil => rfl
  | cons operation operations ih => exact congrArg _ (ih (apply operation state))

/-- What holds behind every step holds at the end. -/
theorem run_of_forall_steps {holds : σ → Prop} (initial : holds state)
    (all : ∀ step ∈ steps apply operations state, holds step.after) :
    holds (run apply operations state) := by
  induction operations generalizing state with
  | nil => exact initial
  | cons operation operations ih =>
      exact ih (all _ List.mem_cons_self) fun step later => all step (List.mem_cons_of_mem _ later)

theorem operation_mem_of_step {step : Step α σ} (member : step ∈ steps apply operations state) :
    step.operation ∈ operations := by
  induction operations generalizing state with
  | nil => exact absurd member List.not_mem_nil
  | cons operation operations ih =>
      rcases List.mem_cons.mp member with rfl | later
      · exact List.mem_cons_self
      · exact List.mem_cons_of_mem _ (ih later)

theorem after_of_step {step : Step α σ} (member : step ∈ steps apply operations state) :
    step.after = apply step.operation step.before := by
  induction operations generalizing state with
  | nil => exact absurd member List.not_mem_nil
  | cons operation operations ih =>
      rcases List.mem_cons.mp member with rfl | later
      · rfl
      · exact ih later

/-- In a run whose operations meet a condition under which each keeps an invariant, the
invariant holds around every step, and so does what else one step ensures. -/
theorem forall_steps {inv : σ → Prop} {meets : α → σ → Prop} {ensures : Step α σ → Prop}
    (initial : inv state)
    (condition : ∀ step ∈ steps apply operations state, meets step.operation step.before)
    (keeps : ∀ operation state, inv state → meets operation state →
      inv (apply operation state) ∧ ensures ⟨state, operation, apply operation state⟩) :
    ∀ step ∈ steps apply operations state,
      inv step.before ∧ inv step.after ∧ ensures step := by
  induction operations generalizing state with
  | nil => exact fun step member => absurd member List.not_mem_nil
  | cons operation operations ih =>
      have first := keeps operation state initial
        (condition _ List.mem_cons_self)
      intro step member
      rcases List.mem_cons.mp member with rfl | later
      · exact ⟨initial, first.1, first.2⟩
      · exact ih first.1 (fun step member => condition step (List.mem_cons_of_mem _ member))
          step later

/-- An invariant that operations keep under a condition holds around every step. -/
theorem forall_steps_inv {inv : σ → Prop} {meets : α → σ → Prop} (initial : inv state)
    (condition : ∀ step ∈ steps apply operations state, meets step.operation step.before)
    (keeps : ∀ operation state, inv state → meets operation state → inv (apply operation state)) :
    ∀ step ∈ steps apply operations state, inv step.before ∧ inv step.after := by
  have ensured : ∀ step ∈ steps apply operations state, inv step.before ∧ inv step.after ∧ True :=
    forall_steps initial condition fun operation state before meets =>
      ⟨keeps operation state before meets, trivial⟩
  exact fun step member => ⟨(ensured step member).1, (ensured step member).2.1⟩

/-- What every operation keeps holds around every step. -/
theorem forall_steps_of_keeps (inv : σ → Prop) (initial : inv state)
    (keeps : ∀ operation state, inv state → inv (apply operation state)) :
    ∀ step ∈ steps apply operations state, inv step.before ∧ inv step.after :=
  @forall_steps_inv _ _ _ _ _ inv (fun _ _ => True) initial (fun _ _ => trivial)
    fun operation state holds _ => keeps operation state holds

/-- What every operation keeps holds at the end of a run. -/
theorem run_of_keeps (inv : σ → Prop) (initial : inv state)
    (keeps : ∀ operation state, inv state → inv (apply operation state)) :
    inv (run apply operations state) := by
  induction operations generalizing state with
  | nil => exact initial
  | cons operation operations ih => exact ih (keeps operation state initial)

end ThetaDirectory.Library.Runs
