import ThetaDirectory.Library.Positions
import ThetaDirectory.Library.Runs

/-!
# Interleaved calls

Calls of asynchronous functions that take turns on a shared state.  A call runs from one
await to the next without interruption and keeps its own state in between; which call goes
on next, and with what outcome of what it waited for, is up to the run.
-/

namespace ThetaDirectory.Library.Interleaving

universe u v w x

/-- The first turn of a call and its later ones. -/
structure Protocol (σ : Type u) (τ : Type v) (ι : Type w) (ω : Type x) where
  call : ι → σ → σ × τ
  turn : ω → σ → τ → σ × τ

/-- The shared state and all calls made so far, in their order. -/
structure Pool (σ : Type u) (τ : Type v) where
  shared : σ
  calls : List τ

inductive Event (ι : Type w) (ω : Type x) where
  | call (input : ι)
  | turn (index : Nat) (outcome : ω)

variable {σ : Type u} {τ : Type v} {ι : Type w} {ω : Type x}

namespace Protocol

def apply (protocol : Protocol σ τ ι ω) : Event ι ω → Pool σ τ → Pool σ τ
  | .call input, pool =>
      let (shared, call) := protocol.call input pool.shared
      ⟨shared, pool.calls ++ [call]⟩
  | .turn index outcome, pool =>
      match pool.calls[index]? with
      | some call =>
          let (shared, next) := protocol.turn outcome pool.shared call
          ⟨shared, pool.calls.set index next⟩
      | none => pool

end Protocol

/-- A proof outline: what holds of the shared state, of each call beside it, and between any
two different calls. -/
structure Outlined (inv : σ → Prop) (own : σ → τ → Prop) (between : τ → τ → Prop)
    (pool : Pool σ τ) : Prop where
  shared : inv pool.shared
  each : ∀ (index : Nat) (call : τ), pool.calls[index]? = some call → own pool.shared call
  apart : ∀ (index other : Nat) (call called : τ), index ≠ other → pool.calls[index]? = some call →
    pool.calls[other]? = some called → between call called

variable {protocol : Protocol σ τ ι ω} {pool : Pool σ τ}
variable {inv : σ → Prop} {own : σ → τ → Prop} {between : τ → τ → Prop}

theorem getElem?_apply_call (protocol : Protocol σ τ ι ω) (pool : Pool σ τ) (input : ι)
    {index : Nat} {call : τ}
    (found : (protocol.apply (.call input) pool).calls[index]? = some call) :
    pool.calls[index]? = some call ∨
      index = pool.calls.length ∧ call = (protocol.call input pool.shared).2 :=
  Positions.getElem?_concat_iff.mp found

theorem getElem?_apply_turn {index other : Nat} {outcome : ω} {call called : τ}
    (found : pool.calls[index]? = some call)
    (after : (protocol.apply (.turn index outcome) pool).calls[other]? = some called) :
    other = index ∧ called = (protocol.turn outcome pool.shared call).2 ∨
      other ≠ index ∧ pool.calls[other]? = some called := by
  simp only [Protocol.apply, found] at after
  exact (Positions.getElem?_set_iff (List.getElem?_eq_some_iff.mp found).1).mp after

theorem shared_apply_turn {index : Nat} {outcome : ω} {call : τ}
    (found : pool.calls[index]? = some call) :
    (protocol.apply (.turn index outcome) pool).shared =
      (protocol.turn outcome pool.shared call).1 := by
  simp only [Protocol.apply, found]

theorem apply_turn_of_some {index : Nat} {outcome : ω} {call : τ}
    (found : pool.calls[index]? = some call) :
    protocol.apply (.turn index outcome) pool =
      ⟨(protocol.turn outcome pool.shared call).1,
        pool.calls.set index (protocol.turn outcome pool.shared call).2⟩ := by
  simp only [Protocol.apply, found]

theorem apply_turn_of_none {index : Nat} {outcome : ω} (none : pool.calls[index]? = none) :
    protocol.apply (.turn index outcome) pool = pool := by
  simp only [Protocol.apply, none]

theorem getElem?_apply_turn_self {index : Nat} {outcome : ω} {call : τ}
    (found : pool.calls[index]? = some call) :
    (protocol.apply (.turn index outcome) pool).calls[index]? =
      some (protocol.turn outcome pool.shared call).2 := by
  simp only [Protocol.apply, found]
  exact List.getElem?_set_self (List.getElem?_eq_some_iff.mp found).1

theorem getElem?_apply_turn_of_ne {index other : Nat} {outcome : ω} (different : other ≠ index) :
    (protocol.apply (.turn other outcome) pool).calls[index]? = pool.calls[index]? := by
  cases turned : pool.calls[other]? with
  | none => rw [apply_turn_of_none turned]
  | some call =>
      simp only [Protocol.apply, turned]
      exact List.getElem?_set_ne different

theorem getElem?_apply_call_of_some {input : ι} {index : Nat} {call : τ}
    (found : pool.calls[index]? = some call) :
    (protocol.apply (.call input) pool).calls[index]? = some call :=
  (List.getElem?_append_left (List.getElem?_eq_some_iff.mp found).1).trans found

/-- Some call has the property. -/
def Pool.Has (holds : τ → Prop) (pool : Pool σ τ) : Prop :=
  ∃ (index : Nat) (call : τ), pool.calls[index]? = some call ∧ holds call

theorem has_iff {holds : τ → Prop} : pool.Has holds ↔ ∃ call ∈ pool.calls, holds call := by
  constructor
  · rintro ⟨index, call, found, kept⟩
    exact ⟨call, List.mem_of_getElem? found, kept⟩
  · rintro ⟨call, listed, kept⟩
    obtain ⟨index, found⟩ := List.mem_iff_getElem?.mp listed
    exact ⟨index, call, found, kept⟩

instance (holds : τ → Prop) [DecidablePred holds] (pool : Pool σ τ) : Decidable (pool.Has holds) :=
  decidable_of_iff (∃ call ∈ pool.calls, holds call) has_iff.symm

theorem has_apply_call {holds : τ → Prop} {input : ι} (has : pool.Has holds) :
    (protocol.apply (.call input) pool).Has holds := by
  obtain ⟨index, call, found, kept⟩ := has
  exact ⟨index, call, getElem?_apply_call_of_some found, kept⟩

theorem has_set_self {holds : τ → Prop} {shared : σ} {index : Nat} {call next : τ}
    (found : pool.calls[index]? = some call) (gains : holds next) :
    Pool.Has holds ⟨shared, pool.calls.set index next⟩ :=
  ⟨index, next, List.getElem?_set_self (List.getElem?_eq_some_iff.mp found).1, gains⟩

/-- A call with the property is there behind a turn if the one whose turn it was does not lose
it. -/
theorem has_set {holds : τ → Prop} {shared : σ} {index : Nat} {call next : τ}
    (found : pool.calls[index]? = some call) (keeps : holds call → holds next)
    (has : pool.Has holds) : Pool.Has holds ⟨shared, pool.calls.set index next⟩ := by
  obtain ⟨position, called, there, kept⟩ := has
  by_cases same : index = position
  · subst same
    rw [found] at there
    cases there
    exact has_set_self found (keeps kept)
  · exact ⟨position, called, (List.getElem?_set_ne same).trans there, kept⟩

/-- What a call keeps in its own turns holds of it at the end of a run. -/
theorem exists_call_run {events : List (Event ι ω)} {index : Nat} (kept : τ → Prop)
    (keeps : ∀ outcome shared call, kept call → kept (protocol.turn outcome shared call).2)
    (found : ∃ call, pool.calls[index]? = some call ∧ kept call) :
    ∃ call, (Runs.run protocol.apply events pool).calls[index]? = some call ∧ kept call := by
  apply Runs.run_of_keeps (fun pool : Pool σ τ => ∃ call, pool.calls[index]? = some call ∧ kept call)
    found
  rintro event pool ⟨call, found, holds⟩
  cases event with
  | call input => exact ⟨call, getElem?_apply_call_of_some found, holds⟩
  | turn other outcome =>
      by_cases same : other = index
      · subst same
        exact ⟨_, getElem?_apply_turn_self found, keeps outcome _ call holds⟩
      · exact ⟨call, (getElem?_apply_turn_of_ne same).trans found, holds⟩

/-- A new call keeps an outline that it fits into and does not interfere with. -/
theorem Outlined.apply_call {input : ι} (outlined : Outlined inv own between pool)
    (symmetric : ∀ call called, between call called → between called call)
    (fits : inv (protocol.call input pool.shared).1 ∧
      own (protocol.call input pool.shared).1 (protocol.call input pool.shared).2)
    (others : ∀ (index : Nat) (called : τ), pool.calls[index]? = some called →
      own (protocol.call input pool.shared).1 called ∧
        between (protocol.call input pool.shared).2 called) :
    Outlined inv own between (protocol.apply (.call input) pool) where
  shared := fits.1
  each := by
    intro index call found
    rcases getElem?_apply_call protocol pool input found with old | ⟨-, rfl⟩
    · exact (others index call old).1
    · exact fits.2
  apart := by
    intro index other call called different first second
    rcases getElem?_apply_call protocol pool input first with old | ⟨rfl, rfl⟩
    · rcases getElem?_apply_call protocol pool input second with before | ⟨rfl, rfl⟩
      · exact outlined.apart index other call called different old before
      · exact symmetric _ _ (others index call old).2
    · rcases getElem?_apply_call protocol pool input second with before | ⟨rfl, rfl⟩
      · exact (others other called before).2
      · exact absurd rfl different

/-- A turn keeps an outline when it keeps its own part and does not interfere with the
other calls. -/
theorem Outlined.apply_turn {index : Nat} {outcome : ω}
    (outlined : Outlined inv own between pool)
    (symmetric : ∀ call called, between call called → between called call)
    (step : ∀ call, pool.calls[index]? = some call →
      inv (protocol.turn outcome pool.shared call).1 ∧
        own (protocol.turn outcome pool.shared call).1
          (protocol.turn outcome pool.shared call).2 ∧
        ∀ (other : Nat) (called : τ), other ≠ index → pool.calls[other]? = some called →
          own (protocol.turn outcome pool.shared call).1 called ∧
            between (protocol.turn outcome pool.shared call).2 called) :
    Outlined inv own between (protocol.apply (.turn index outcome) pool) := by
  cases found : pool.calls[index]? with
  | none => rwa [apply_turn_of_none found]
  | some call =>
      obtain ⟨kept, fits, others⟩ := step call found
      constructor
      · rwa [shared_apply_turn found]
      · intro other called after
        rw [shared_apply_turn found]
        rcases getElem?_apply_turn found after with ⟨-, rfl⟩ | ⟨different, before⟩
        · exact fits
        · exact (others other called different before).1
      · intro first second one two different atFirst atSecond
        rcases getElem?_apply_turn found atFirst with ⟨rfl, rfl⟩ | ⟨apartFirst, beforeFirst⟩
        · rcases getElem?_apply_turn found atSecond with ⟨rfl, -⟩ | ⟨apartSecond, beforeSecond⟩
          · exact absurd rfl different
          · exact (others second two apartSecond beforeSecond).2
        · rcases getElem?_apply_turn found atSecond with ⟨rfl, rfl⟩ | ⟨apartSecond, beforeSecond⟩
          · exact symmetric _ _ (others first one apartFirst beforeFirst).2
          · exact outlined.apart first second one two different beforeFirst beforeSecond

/-! ## What survives the other calls -/

/-- Each call keeps a part of the shared state that survives whatever any call does. -/
structure Stable (protocol : Protocol σ τ ι ω) (own : σ → τ → Prop) (later : σ → σ → Prop) :
    Prop where
  survives : ∀ shared after call, later shared after → own shared call → own after call
  call : ∀ input shared, later shared (protocol.call input shared).1 ∧
    own (protocol.call input shared).1 (protocol.call input shared).2
  turn : ∀ outcome shared call, own shared call →
    later shared (protocol.turn outcome shared call).1 ∧
      own (protocol.turn outcome shared call).1 (protocol.turn outcome shared call).2

/-- Every call has its part. -/
def Pool.Owned (own : σ → τ → Prop) (pool : Pool σ τ) : Prop :=
  ∀ call ∈ pool.calls, own pool.shared call

variable {later : σ → σ → Prop}

theorem Stable.apply (stable : Stable protocol own later) (event : Event ι ω)
    (owned : pool.Owned own) : (protocol.apply event pool).Owned own := by
  intro call listed
  obtain ⟨position, found⟩ := List.mem_iff_getElem?.mp listed
  cases event with
  | call input =>
      obtain ⟨goesOn, fits⟩ := stable.call input pool.shared
      rcases getElem?_apply_call protocol pool input found with old | ⟨-, rfl⟩
      · exact stable.survives _ _ call goesOn (owned call (List.mem_of_getElem? old))
      · exact fits
  | turn index outcome =>
      cases turned : pool.calls[index]? with
      | none =>
          rw [apply_turn_of_none turned] at listed ⊢
          exact owned call listed
      | some turning =>
          obtain ⟨goesOn, fits⟩ :=
            stable.turn outcome pool.shared turning (owned turning (List.mem_of_getElem? turned))
          rw [shared_apply_turn turned]
          rcases getElem?_apply_turn turned found with ⟨-, rfl⟩ | ⟨-, before⟩
          · exact fits
          · exact stable.survives _ _ call goesOn (owned call (List.mem_of_getElem? before))

theorem Stable.run (stable : Stable protocol own later) {events : List (Event ι ω)}
    (initial : pool.calls = []) :
    ∀ step ∈ Runs.steps protocol.apply events pool, step.before.Owned own := by
  have none : pool.Owned own := by
    intro call listed
    rw [initial] at listed
    cases listed
  exact fun step member =>
    (Runs.forall_steps_of_keeps (Pool.Owned own) none (fun event _ => stable.apply event) step
      member).1

/-! ## Counting calls -/

/-- The number of calls with a property. -/
def Pool.count (holds : τ → Bool) (pool : Pool σ τ) : Nat := pool.calls.countP holds

theorem Pool.count_mono {holds other : τ → Bool}
    (implies : ∀ call, holds call = true → other call = true) :
    pool.count holds ≤ pool.count other :=
  List.countP_mono_left fun call _ => implies call

/-- The event gives a call a property that it did not have before. -/
def Protocol.Enters (protocol : Protocol σ τ ι ω) (holds : τ → Bool) (event : Event ι ω)
    (pool : Pool σ τ) : Prop :=
  match event with
  | .call input => holds (protocol.call input pool.shared).2 = true
  | .turn index outcome => ∃ call, pool.calls[index]? = some call ∧ holds call = false ∧
      holds (protocol.turn outcome pool.shared call).2 = true

theorem count_apply_turn {holds : τ → Bool} {index : Nat} {outcome : ω} {call : τ}
    (found : pool.calls[index]? = some call) :
    (protocol.apply (.turn index outcome) pool).count holds =
      pool.count holds - (if holds call then 1 else 0) +
        if holds (protocol.turn outcome pool.shared call).2 then 1 else 0 := by
  obtain ⟨inside, same⟩ := List.getElem?_eq_some_iff.mp found
  simp only [Pool.count, Protocol.apply, found]
  rw [List.countP_set inside, same]

theorem count_apply_call {holds : τ → Bool} {input : ι} :
    (protocol.apply (.call input) pool).count holds =
      pool.count holds + if holds (protocol.call input pool.shared).2 then 1 else 0 := by
  change List.countP holds (pool.calls ++ [_]) = _
  rw [List.countP_append, List.countP_singleton]
  rfl

/-- One event changes one call. -/
theorem count_apply_le_succ (holds : τ → Bool) (event : Event ι ω) :
    (protocol.apply event pool).count holds ≤ pool.count holds + 1 := by
  cases event with
  | call input =>
      rw [count_apply_call]
      split <;> omega
  | turn index outcome =>
      cases found : pool.calls[index]? with
      | none =>
          rw [apply_turn_of_none found]
          exact Nat.le_succ _
      | some call =>
          rw [count_apply_turn found]
          split <;> split <;> omega

theorem count_apply_le {holds : τ → Bool} {event : Event ι ω}
    (stays : ¬ protocol.Enters holds event pool) :
    (protocol.apply event pool).count holds ≤ pool.count holds := by
  cases event with
  | call input =>
      have outside : ¬ holds (protocol.call input pool.shared).2 = true := stays
      rw [count_apply_call, if_neg outside]
      exact Nat.le_refl _
  | turn index outcome =>
      cases found : pool.calls[index]? with
      | none => exact Nat.le_of_eq (congrArg (Pool.count holds) (apply_turn_of_none found))
      | some call =>
          rw [count_apply_turn found]
          cases before : holds call with
          | false =>
              rw [if_neg fun after => stays ⟨call, found, before, after⟩]
              exact Nat.le_refl _
          | true =>
              have counted : 0 < pool.count holds :=
                List.countP_pos_iff.mpr ⟨call, List.mem_of_getElem? found, before⟩
              rw [if_pos rfl]
              split <;> omega

/-- At most so many calls have the property. -/
def Pool.Within (holds : τ → Bool) (bound : Nat) (pool : Pool σ τ) : Prop :=
  pool.count holds ≤ bound

/-- Calls that only ever enter below a bound stay within it. -/
theorem count_run_le {holds : τ → Bool} {bound : Nat} {events : List (Event ι ω)}
    (initial : pool.Within holds bound)
    (admits : ∀ step ∈ Runs.steps protocol.apply events pool,
      protocol.Enters holds step.operation step.before → step.before.count holds < bound) :
    ∀ step ∈ Runs.steps protocol.apply events pool, step.after.Within holds bound := by
  have keeps : ∀ event (pool : Pool σ τ), pool.Within holds bound →
      (protocol.Enters holds event pool → pool.count holds < bound) →
      (protocol.apply event pool).Within holds bound := by
    intro event pool within below
    by_cases enters : protocol.Enters holds event pool
    · exact Nat.le_trans (count_apply_le_succ holds event) (below enters)
    · exact Nat.le_trans (count_apply_le enters) within
  exact fun step member => (Runs.forall_steps_inv initial admits keeps step member).2

/-- At most one call has the property if none ever enters beside another. -/
theorem count_run_le_one {holds : τ → Bool} {events : List (Event ι ω)}
    (initial : pool.calls = [])
    (alone : ∀ step ∈ Runs.steps protocol.apply events pool,
      protocol.Enters holds step.operation step.before →
        ∀ call ∈ step.before.calls, holds call = false) :
    ∀ step ∈ Runs.steps protocol.apply events pool, step.after.Within holds 1 := by
  have none : pool.Within holds 1 := by
    rw [Pool.Within, Pool.count, initial]
    exact Nat.zero_le 1
  apply count_run_le none
  intro step member enters
  have zero : step.before.count holds = 0 :=
    List.countP_eq_zero.mpr fun call listed => by
      rw [alone step member enters call listed]
      exact Bool.false_ne_true
  rw [zero]
  exact Nat.zero_lt_one

end ThetaDirectory.Library.Interleaving
