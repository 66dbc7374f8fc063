import Mathlib.Order.Defs.Unbundled

/-!
# Runs with state and exceptions

What a sequence, a handler and a loop do, from what their parts do.  An exception
keeps the state it was thrown in.
-/

namespace ThetaDirectory.Library.Effect

universe u

variable {ε σ α β : Type u} {action : EStateM ε σ α} {state middle : σ}

theorem get_bind (next : σ → EStateM ε σ α) : (get >>= next) state = next state state := rfl

theorem modify_bind (update : σ → σ) (next : PUnit → EStateM ε σ α) :
    (modify update >>= next) state = next ⟨⟩ (update state) := rfl

theorem bind_ok {next : α → EStateM ε σ β} {value : α}
    (done : action state = .ok value middle) : (action >>= next) state = next value middle := by
  simp [bind, EStateM.bind, done]

theorem bind_error {next : α → EStateM ε σ β} {error : ε}
    (thrown : action state = .error error middle) :
    (action >>= next) state = .error error middle := by
  simp [bind, EStateM.bind, thrown]

theorem exists_of_bind_ok {next : α → EStateM ε σ β} {result : β} {final : σ}
    (done : (action >>= next) state = .ok result final) :
    ∃ value middle, action state = .ok value middle ∧ next value middle = .ok result final := by
  cases outcome : action state with
  | ok value middle => exact ⟨value, middle, rfl, (bind_ok outcome).symm.trans done⟩
  | error error middle => cases (bind_error outcome).symm.trans done

theorem tryCatch_ok {handler : ε → EStateM ε σ α} {value : α}
    (done : action state = .ok value middle) :
    tryCatch action handler state = .ok value middle := by
  change EStateM.tryCatch action handler state = _
  delta EStateM.tryCatch
  simp only [done]

theorem tryCatch_error {handler : ε → EStateM ε σ α} {error : ε}
    (thrown : action state = .error error middle) :
    tryCatch action handler state = handler error middle := by
  change EStateM.tryCatch action handler state = _
  delta EStateM.tryCatch
  simp only [thrown]
  rfl

/-! ## Outcomes -/

/-- What holds of a value and a state that an action returns, or of an exception and
the state it was thrown in. -/
def Ends (returns : α → σ → Prop) (throws : ε → σ → Prop) : EStateM.Result ε σ α → Prop
  | .ok value state => returns value state
  | .error error state => throws error state

variable {returns : α → σ → Prop} {throws : ε → σ → Prop}

theorem Ends.mono {outcome : EStateM.Result ε σ α} {ensures : α → σ → Prop} {allows : ε → σ → Prop}
    (ends : Ends returns throws outcome) (onReturn : ∀ value state, returns value state → ensures value state)
    (onThrow : ∀ error state, throws error state → allows error state) :
    Ends ensures allows outcome := by
  cases outcome with
  | ok value state => exact onReturn value state ends
  | error error state => exact onThrow error state ends

theorem Ends.and {outcome : EStateM.Result ε σ α} {ensures : α → σ → Prop} {allows : ε → σ → Prop}
    (ends : Ends returns throws outcome) (also : Ends ensures allows outcome) :
    Ends (fun value state => returns value state ∧ ensures value state)
      (fun error state => throws error state ∧ allows error state) outcome := by
  cases outcome with
  | ok value state => exact ⟨ends, also⟩
  | error error state => exact ⟨ends, also⟩

theorem Ends.bind {next : α → EStateM ε σ β} {ensures : β → σ → Prop}
    (ends : Ends returns throws (action state))
    (rest : ∀ value middle, returns value middle → Ends ensures throws (next value middle)) :
    Ends ensures throws ((action >>= next) state) := by
  cases outcome : action state with
  | ok value middle =>
      rw [outcome] at ends
      rw [bind_ok outcome]
      exact rest value middle ends
  | error error middle =>
      rw [outcome] at ends
      rw [bind_error outcome]
      exact ends

theorem Ends.tryCatch {handler : ε → EStateM ε σ α} {allows : ε → σ → Prop}
    (ends : Ends returns throws (action state))
    (rest : ∀ error middle, throws error middle → Ends returns allows (handler error middle)) :
    Ends returns allows (tryCatch action handler state) := by
  cases outcome : action state with
  | ok value middle =>
      rw [outcome] at ends
      rw [tryCatch_ok outcome]
      exact ends
  | error error middle =>
      rw [outcome] at ends
      rw [tryCatch_error outcome]
      exact rest error middle ends

theorem ends_trivial (outcome : EStateM.Result ε σ α) :
    Ends (fun _ _ => True) (fun _ _ => True) outcome := by
  cases outcome <;> trivial

/-- The state of a run, however it ends. -/
def final : EStateM.Result ε σ α → σ
  | .ok _ state => state
  | .error _ state => state

theorem Ends.final {holds : σ → Prop} {outcome : EStateM.Result ε σ α}
    (ends : Ends (fun _ => holds) (fun _ => holds) outcome) : holds (final outcome) := by
  cases outcome with
  | ok value state => exact ends
  | error error state => exact ends

/-! ## What every run keeps -/

/-- However the action ends, the states before and behind it are related. -/
def Keeps (related : σ → σ → Prop) (action : EStateM ε σ α) : Prop :=
  ∀ state, Ends (fun _ after => related state after) (fun _ after => related state after)
    (action state)

namespace Keeps

variable {related wider : σ → σ → Prop}

theorem mono (keeps : Keeps related action)
    (widens : ∀ before after, related before after → wider before after) : Keeps wider action :=
  fun state => (keeps state).mono (fun _ => widens state) fun _ => widens state

theorem pure [Std.Refl related] (value : α) : Keeps related (Pure.pure value : EStateM ε σ α) :=
  fun state => Std.Refl.refl state

theorem throw [Std.Refl related] (error : ε) :
    Keeps related (MonadExcept.throw error : EStateM ε σ α) :=
  fun state => Std.Refl.refl state

theorem bind [IsTrans σ related] {next : α → EStateM ε σ β} (first : Keeps related action)
    (rest : ∀ value, Keeps related (next value)) : Keeps related (action >>= next) := by
  intro state
  have reached := first state
  cases outcome : action state with
  | ok value middle =>
      rw [outcome] at reached
      rw [bind_ok outcome]
      exact (rest value middle).mono (fun _ after => IsTrans.trans state middle after reached)
        fun _ after => IsTrans.trans state middle after reached
  | error error middle =>
      rw [outcome] at reached
      rw [bind_error outcome]
      exact reached

theorem tryCatch [IsTrans σ related] {handler : ε → EStateM ε σ α} (first : Keeps related action)
    (rest : ∀ error, Keeps related (handler error)) :
    Keeps related (MonadExcept.tryCatch action handler) := by
  intro state
  apply (first state).tryCatch
  intro error middle reached
  exact (rest error middle).mono (fun _ after => IsTrans.trans state middle after reached)
    fun _ after => IsTrans.trans state middle after reached

end Keeps

/-! ## Two runs side by side -/

variable {γ δ : Type u} {states : σ → σ → Prop} {failures thrown : ε → ε → Prop}
  {values : α → β → Prop}

/-- Both runs return or both throw, and what they end with is related. -/
def Meets (states : σ → σ → Prop) (failures : ε → ε → Prop) (values : α → β → Prop) :
    EStateM.Result ε σ α → EStateM.Result ε σ β → Prop
  | .ok value state, .ok other later => values value other ∧ states state later
  | .error error state, .error other later => failures error other ∧ states state later
  | _, _ => False

/-- From related states both actions end alike. -/
def Agree (states : σ → σ → Prop) (failures : ε → ε → Prop) (values : α → β → Prop)
    (first : EStateM ε σ α) (second : EStateM ε σ β) : Prop :=
  ∀ state other, states state other → Meets states failures values (first state) (second other)

section Meets

variable {first : EStateM ε σ α} {second : EStateM ε σ β} {other : σ}

/-- Runs that cannot throw return. -/
theorem Meets.exists_ok {outcome : EStateM.Result ε σ α} {back : EStateM.Result ε σ β}
    (meets : Meets states (fun _ _ => False) values outcome back) :
    ∃ value state other later, outcome = .ok value state ∧ back = .ok other later ∧
      values value other ∧ states state later := by
  cases outcome with
  | ok value state =>
      cases back with
      | ok other later => exact ⟨value, state, other, later, rfl, rfl, meets⟩
      | error other later => exact meets.elim
  | error error state =>
      cases back with
      | ok other later => exact meets.elim
      | error other later => exact meets.1.elim

theorem Meets.bind {related : γ → δ → Prop} {next : α → EStateM ε σ γ} {further : β → EStateM ε σ δ}
    (meets : Meets states failures values (first state) (second other))
    (rest : ∀ value other, values value other →
      Agree states failures related (next value) (further other)) :
    Meets states failures related ((first >>= next) state) ((second >>= further) other) := by
  cases ends : first state with
  | ok value middle =>
      cases others : second other with
      | ok back later =>
          rw [ends, others] at meets
          rw [bind_ok ends, bind_ok others]
          exact rest value back meets.1 middle later meets.2
      | error back later =>
          rw [ends, others] at meets
          exact meets.elim
  | error error middle =>
      cases others : second other with
      | ok back later =>
          rw [ends, others] at meets
          exact meets.elim
      | error back later =>
          rw [ends, others] at meets
          rw [bind_error ends, bind_error others]
          exact meets

theorem Meets.tryCatch {handler : ε → EStateM ε σ α} {further : ε → EStateM ε σ β}
    (meets : Meets states failures values (first state) (second other))
    (rest : ∀ error other, failures error other →
      Agree states thrown values (handler error) (further other)) :
    Meets states thrown values (MonadExcept.tryCatch first handler state)
      (MonadExcept.tryCatch second further other) := by
  cases ends : first state with
  | ok value middle =>
      cases others : second other with
      | ok back later =>
          rw [ends, others] at meets
          rw [tryCatch_ok ends, tryCatch_ok others]
          exact meets
      | error back later =>
          rw [ends, others] at meets
          exact meets.elim
  | error error middle =>
      cases others : second other with
      | ok back later =>
          rw [ends, others] at meets
          exact meets.elim
      | error back later =>
          rw [ends, others] at meets
          rw [tryCatch_error ends, tryCatch_error others]
          exact rest error back meets.1 middle later meets.2

end Meets

namespace Agree

variable {first : EStateM ε σ α} {second : EStateM ε σ β}

theorem pure {value : α} {other : β} (related : values value other) :
    Agree states failures values (Pure.pure value) (Pure.pure other) :=
  fun _ _ alike => ⟨related, alike⟩

theorem throw {error other : ε} (related : failures error other) :
    Agree states failures values (MonadExcept.throw error) (MonadExcept.throw other) :=
  fun _ _ alike => ⟨related, alike⟩

theorem bind {related : γ → δ → Prop} {next : α → EStateM ε σ γ} {further : β → EStateM ε σ δ}
    (agree : Agree states failures values first second)
    (rest : ∀ value other, values value other →
      Agree states failures related (next value) (further other)) :
    Agree states failures related (first >>= next) (second >>= further) :=
  fun state other alike => (agree state other alike).bind rest

theorem tryCatch {handler : ε → EStateM ε σ α} {further : ε → EStateM ε σ β}
    (agree : Agree states failures values first second)
    (rest : ∀ error other, failures error other →
      Agree states thrown values (handler error) (further other)) :
    Agree states thrown values (MonadExcept.tryCatch first handler)
      (MonadExcept.tryCatch second further) :=
  fun state other alike => (agree state other alike).tryCatch rest

end Agree

end ThetaDirectory.Library.Effect
