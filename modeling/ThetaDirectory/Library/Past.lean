import Mathlib.Data.List.Induction
import ThetaDirectory.Library.Runs

/-!
# The past of a run

What held in some state that a run of operations has passed, and invariants that speak of it.
-/

namespace ThetaDirectory.Library.Runs

universe u v

variable {α : Type u} {σ : Type v} {apply : α → σ → σ} {state : σ} {past : List α}
  {operation : α} {holds : σ → Prop}

/-- It held at some time of the run, its end included. -/
def Passed (apply : α → σ → σ) (state : σ) (past : List α) (holds : σ → Prop) : Prop :=
  ∃ before after, past = before ++ after ∧ holds (run apply before state)

/-- The operation was made in a state with the property. -/
def Made (apply : α → σ → σ) (state : σ) (past : List α) (operation : α) (holds : σ → Prop) :
    Prop :=
  ∃ before after, past = before ++ operation :: after ∧ holds (run apply before state)

theorem run_concat (apply : α → σ → σ) (past : List α) (operation : α) (state : σ) :
    run apply (past ++ [operation]) state = apply operation (run apply past state) :=
  run_append apply past [operation] state

theorem Passed.of_now (now : holds (run apply past state)) : Passed apply state past holds :=
  ⟨past, [], (List.append_nil past).symm, now⟩

theorem Passed.concat (passed : Passed apply state past holds) :
    Passed apply state (past ++ [operation]) holds := by
  obtain ⟨before, after, rfl, held⟩ := passed
  exact ⟨before, after ++ [operation], List.append_assoc before after [operation], held⟩

theorem Passed.imp {others : σ → Prop} (implies : ∀ state, holds state → others state)
    (passed : Passed apply state past holds) : Passed apply state past others := by
  obtain ⟨before, after, split, held⟩ := passed
  exact ⟨before, after, split, implies _ held⟩

theorem Made.of_now (now : holds (run apply past state)) :
    Made apply state (past ++ [operation]) operation holds :=
  ⟨past, [], rfl, now⟩

theorem Made.concat {made : α} (before : Made apply state past made holds) :
    Made apply state (past ++ [operation]) made holds := by
  obtain ⟨before, after, rfl, held⟩ := before
  exact ⟨before, after ++ [operation], by simp, held⟩

theorem Made.imp {made : α} {others : σ → Prop} (implies : ∀ state, holds state → others state)
    (before : Made apply state past made holds) : Made apply state past made others := by
  obtain ⟨front, back, split, held⟩ := before
  exact ⟨front, back, split, implies _ held⟩

/-- An invariant of the state and its past holds at the end of a run. -/
theorem run_of_past (inv : List α → σ → Prop) (initial : inv [] state)
    (keeps : ∀ past operation, inv past (run apply past state) →
      inv (past ++ [operation]) (apply operation (run apply past state)))
    (operations : List α) : inv operations (run apply operations state) := by
  induction operations using List.reverseRecOn with
  | nil => exact initial
  | append_singleton past operation ih =>
      rw [run_concat]
      exact keeps past operation ih

end ThetaDirectory.Library.Runs
