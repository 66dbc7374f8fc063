import Mathlib.Data.List.Basic

/-!
# Draining a worklist

A loop that takes the first item of a queue, updates a state and appends further
items, given a bound on the number of rounds.  A potential that pays for every
appended item shows that the queue runs empty (`drain_empty`); `drain_invariant`
carries an invariant of state and queue to the end.
-/

namespace ThetaDirectory.Library

namespace Worklist

variable {σ τ : Type*} (step : σ → τ → σ × List τ)

/-- Process the queue for at most the given number of rounds.  What is left of
the queue is returned with the state. -/
def drain : Nat → σ → List τ → σ × List τ
  | _, state, [] => (state, [])
  | 0, state, item :: queue => (state, item :: queue)
  | fuel + 1, state, item :: queue =>
      let next := step state item
      drain fuel next.1 (queue ++ next.2)

variable {step}

@[simp] theorem drain_nil (fuel : Nat) (state : σ) : drain step fuel state [] = (state, []) := by
  cases fuel <;> rfl

/-- An invariant that every round keeps holds when the loop stops. -/
theorem drain_invariant {Inv : σ → List τ → Prop}
    (round : ∀ state item queue, Inv state (item :: queue) →
      Inv (step state item).1 (queue ++ (step state item).2))
    {fuel : Nat} {state : σ} {queue : List τ} (initial : Inv state queue) :
    Inv (drain step fuel state queue).1 (drain step fuel state queue).2 := by
  induction fuel generalizing state queue with
  | zero => cases queue <;> exact initial
  | succ fuel ih =>
      cases queue with
      | nil => exact initial
      | cons item queue => exact ih (round state item queue initial)

/-- The queue runs empty when each round pays for the items it appends from a
potential of the state. -/
theorem drain_empty (potential : σ → Nat)
    (pays : ∀ state item, potential (step state item).1 + (step state item).2.length ≤
      potential state)
    {fuel : Nat} {state : σ} {queue : List τ} (enough : queue.length + potential state ≤ fuel) :
    (drain step fuel state queue).2 = [] := by
  induction fuel generalizing state queue with
  | zero =>
      obtain rfl : queue = [] := List.length_eq_zero_iff.mp (by omega)
      rfl
  | succ fuel ih =>
      cases queue with
      | nil => rfl
      | cons item queue =>
          apply ih
          have paid := pays state item
          simp only [List.length_cons, List.length_append] at enough ⊢
          omega

/-- Rounds can be counted in two parts. -/
theorem drain_add (fuel more : Nat) (state : σ) (queue : List τ) :
    drain step (fuel + more) state queue =
      drain step more (drain step fuel state queue).1 (drain step fuel state queue).2 := by
  induction fuel generalizing state queue with
  | zero =>
      rw [Nat.zero_add]
      cases queue <;> rfl
  | succ fuel ih =>
      cases queue with
      | nil => simp only [drain_nil]
      | cons item queue =>
          rw [Nat.succ_add]
          exact ih _ _

/-- Rounds that correspond under a change of states and items have corresponding results. -/
theorem drain_map {σ' τ' : Type*} {other : σ' → τ' → σ' × List τ'} (onState : σ → σ') (onItem : τ → τ')
    (commutes : ∀ state item, other (onState state) (onItem item) =
      (onState (step state item).1, (step state item).2.map onItem))
    (fuel : Nat) (state : σ) (queue : List τ) :
    drain other fuel (onState state) (queue.map onItem) =
      (onState (drain step fuel state queue).1, (drain step fuel state queue).2.map onItem) := by
  induction fuel generalizing state queue with
  | zero => cases queue <;> rfl
  | succ fuel ih =>
      cases queue with
      | nil => simp only [drain_nil, List.map_nil]
      | cons item queue =>
          rw [List.map_cons, drain, drain, commutes, ← List.map_append]
          exact ih _ _

end Worklist

end ThetaDirectory.Library
