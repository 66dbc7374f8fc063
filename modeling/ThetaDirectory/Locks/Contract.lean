import ThetaDirectory.Locks.Fifo

/-!
# What `withLock` promises

A call's context holds the names of all sections around it.  With the invariant of the queues
this gives the contract of the mutex in every state a run reaches.
-/

namespace ThetaDirectory.Locks

open Library Relation

variable {state : State} {name : String} {index : Nat}

/-! ## Contexts -/

/-- Where a call was made: what does not change of it. -/
def Call.site (call : Call) : String × Option Nat × List String :=
  (call.name, call.parent, call.outer)

def State.sites (state : State) : List (String × Option Nat × List String) :=
  state.calls.map Call.site

theorem Call.site_resolve (call : Call) : call.resolve.site = call.site := by
  unfold Call.resolve
  split <;> rfl

theorem sites_setPhase (phase : Phase) : (state.setPhase index phase).sites = state.sites :=
  Positions.map_modify_of_eq fun _ => rfl

theorem sites_release (record now : Nat) : (state.release record name now).sites = state.sites := by
  unfold State.release
  split
  · split
    · rfl
    · exact Positions.map_modify_of_eq Call.site_resolve
  · rfl

/-- A call is made in the context of a function that has been started; other steps make no
call. -/
theorem sites_apply (input : Input) (state : State) :
    (apply input state).sites = state.sites ∨
      ∃ name parent outer, state.getStore parent = some outer ∧
        (apply input state).sites = state.sites ++ [(name, parent, outer)] := by
  cases input with
  | withLock name options parent =>
      change (state.withLock name options parent).sites = state.sites ∨ _
      cases store : state.getStore parent with
      | none => exact Or.inl (by rw [State.withLock, store])
      | some outer =>
          refine Or.inr ⟨name, parent, outer, store, ?_⟩
          change (state.withLock name options parent).sites = _
          rw [State.withLock, store]
          dsimp only
          split
          · simp [State.sites, Call.site]
          · simp [State.sites, Call.site, calls_acquire, calls_record]
  | resume position now =>
      refine Or.inl ?_
      change (state.resume position now).sites = state.sites
      unfold State.resume
      split
      · split
        · exact sites_setPhase _
        · rfl
      · rfl
  | settle position threw now =>
      refine Or.inl ?_
      change (state.settle position threw now).sites = state.sites
      unfold State.settle
      split
      · split
        · exact (sites_release _ _).trans (sites_setPhase _)
        · rfl
      · rfl
  | timeout position now =>
      refine Or.inl ?_
      change (state.timeout position now).sites = state.sites
      unfold State.timeout
      split
      · split
        · split
          · split
            · exact sites_setPhase _
            · rfl
          · rfl
        · rfl
      · rfl

theorem exists_of_getStore {parent : Nat} {outer : List String}
    (store : state.getStore (some parent) = some outer) :
    ∃ call, state.calls[parent]? = some call ∧ outer = call.inner := by
  simp only [State.getStore] at store
  cases present : state.calls[parent]? with
  | none =>
      rw [present] at store
      cases store
  | some call =>
      simp only [present, Option.ite_none_right_eq_some, Option.some.injEq] at store
      exact ⟨call, rfl, store.2.symm⟩

/-- A call made inside a section has that section's names in its context. -/
def Nested (state : State) : Prop :=
  ∀ (index : Nat) (name : String) (parent : Nat) (outer : List String),
    state.sites[index]? = some (name, some parent, outer) →
      ∃ around above names, state.sites[parent]? = some (around, above, names) ∧
        outer = names ++ [around]

theorem nested_start : Nested start := fun _ _ _ _ found => by cases found

theorem Nested.apply (nested : Nested state) (input : Input) :
    Nested (Locks.apply input state) := by
  rcases sites_apply input state with same | ⟨made, within, outer, store, appended⟩
  · unfold Nested
    rw [same]
    exact nested
  · intro index name parent names found
    rw [appended] at found ⊢
    have kept : ∀ {position site}, state.sites[position]? = some site →
        (state.sites ++ [(made, within, outer)])[position]? = some site := fun present =>
      Positions.getElem?_concat_iff.mpr (Or.inl present)
    rcases Positions.getElem?_concat_iff.mp found with old | ⟨-, new⟩
    · obtain ⟨around, above, held, present, same⟩ := nested index name parent names old
      exact ⟨around, above, held, kept present, same⟩
    · cases new
      obtain ⟨call, present, same⟩ := exists_of_getStore store
      refine ⟨call.name, call.parent, call.outer, kept ?_, same⟩
      rw [State.sites, List.getElem?_map, present]
      rfl

/-- One call was made in the context of another. -/
def Inside (state : State) (inner outer : Nat) : Prop :=
  ∃ call, state.calls[inner]? = some call ∧ call.parent = some outer

theorem Nested.mem_inner {call called : Call} {inner : Nat} (nested : Nested state)
    (within : ReflTransGen (Inside state) inner index) (found : state.calls[index]? = some call)
    (foundInner : state.calls[inner]? = some called) : call.name ∈ called.inner := by
  induction within using ReflTransGen.head_induction_on generalizing called with
  | refl =>
      cases found.symm.trans foundInner
      exact List.mem_append_right _ (List.mem_singleton_self _)
  | head step _ ih =>
      obtain ⟨own, foundOwn, parent⟩ := step
      cases foundInner.symm.trans foundOwn
      obtain ⟨around, above, names, present, same⟩ := nested _ called.name _ called.outer (by
        rw [State.sites, List.getElem?_map, foundInner]
        exact congrArg some (congrArg (fun p => (called.name, p, called.outer)) parent))
      rw [State.sites, List.getElem?_map, Option.map_eq_some_iff] at present
      obtain ⟨middle, foundMiddle, site⟩ := present
      cases site
      apply List.mem_append_left
      rw [same]
      exact ih foundMiddle

/-! ## The contract -/

/-- A first-in, first-out mutex. -/
structure FifoMutex (state : State) : Prop where
  /-- One call of a name at a time holds its lock, and only such a call's function runs. -/
  exclusive : ∀ {name first second}, HoldsAt state.calls name first →
    HoldsAt state.calls name second → first = second
  /-- When a call has been handed the lock, all earlier ones of the name are over. -/
  ordered : Ordered state.calls
  /-- A call that is over, as one whose wait timed out, stays as it is in whatever follows. -/
  final : ∀ {index : Nat} {call : Call}, state.calls[index]? = some call → call.Over →
    ∀ inputs, (Runs.run apply inputs state).calls[index]? = some call
  /-- A call whose predecessors are over does not wait. -/
  served : ∀ {index : Nat} {call : Call}, state.calls[index]? = some call →
    (∀ (before : Nat) (earlier : Call), before < index → state.calls[before]? = some earlier →
      earlier.name = call.name → earlier.Over) → ¬ call.Waits
  /-- The entry of a name is gone exactly when no call of it holds or waits. -/
  cleaned : ∀ name, state.locks.lookup name = none ↔
    ∀ (index : Nat) (call : Call), state.calls[index]? = some call → call.name = name →
      ¬ call.Holds ∧ ¬ call.Waits
  /-- A call made within a section of the same name is rejected, and nothing else changes. -/
  reentered : ∀ {index : Nat} {call : Call} {inner : Nat} {outer : List String},
    state.calls[index]? = some call →
    ReflTransGen (Inside state) inner index → state.getStore (some inner) = some outer →
    ∀ options, apply (.withLock call.name options (some inner)) state =
      { state with calls := state.calls ++
        [⟨call.name, options, some inner, outer, .rejected (State.reentered call.name)⟩] }

theorem getElem?_run_of_over {call : Call} (inputs : List Input)
    (found : state.calls[index]? = some call) (ended : call.Over) :
    (Runs.run apply inputs state).calls[index]? = some call :=
  Runs.run_of_keeps (fun state : State => state.calls[index]? = some call) found
    fun input _ present => getElem?_apply_of_over input present ended

theorem Inv.served {call : Call} (inv : Inv state) (found : state.calls[index]? = some call)
    (alone : ∀ (before : Nat) (earlier : Call), before < index →
      state.calls[before]? = some earlier → earlier.name = call.name → earlier.Over) :
    ¬ call.Waits := by
  intro waits
  obtain ⟨record, phase⟩ := Call.waits_iff.mp waits
  have mapped := inv.mapped index call record found (by rw [phase]; rfl)
  obtain ⟨-, holder, holds⟩ := inv.queued call.name record mapped
  have before := inv.ordered.lt_of_waits holds ⟨call, found, rfl, phase⟩
  obtain ⟨earlier, foundEarlier, named, own⟩ := holds
  exact own.not_over (alone holder earlier before foundEarlier named)

theorem Inv.cleaned (inv : Inv state) (name : String) : state.locks.lookup name = none ↔
    ∀ (index : Nat) (call : Call), state.calls[index]? = some call → call.name = name →
      ¬ call.Holds ∧ ¬ call.Waits := by
  constructor
  · rintro unmapped index call found rfl
    have ended := inv.over_of_unmapped unmapped found
    refine ⟨fun holds => holds.not_over ended, fun waits => ?_⟩
    obtain ⟨record, phase⟩ := Call.waits_iff.mp waits
    exact Call.not_over_of_record (by rw [phase]; rfl) ended
  · intro idle
    cases mapped : state.locks.lookup name with
    | none => rfl
    | some record =>
        obtain ⟨-, index, call, found, named, holds⟩ := inv.queued name record mapped
        exact absurd holds (idle index call found named).1

theorem Nested.reentered {call : Call} {inner : Nat} {outer : List String} (nested : Nested state)
    (found : state.calls[index]? = some call) (within : ReflTransGen (Inside state) inner index)
    (store : state.getStore (some inner) = some outer) (options : Options) :
    Locks.apply (.withLock call.name options (some inner)) state =
      { state with calls := state.calls ++
        [⟨call.name, options, some inner, outer, .rejected (State.reentered call.name)⟩] } := by
  have member : call.name ∈ outer := by
    obtain ⟨called, present, same⟩ := exists_of_getStore store
    rw [same]
    exact nested.mem_inner within found present
  change state.withLock call.name options (some inner) = _
  rw [State.withLock, store]
  dsimp only
  rw [if_pos member]

theorem Inv.fifoMutex (inv : Inv state) (nested : Nested state) : FifoMutex state where
  exclusive := inv.ordered.holds_unique
  ordered := inv.ordered
  final := fun found ended inputs => getElem?_run_of_over inputs found ended
  served := inv.served
  cleaned := inv.cleaned
  reentered := nested.reentered

/-- Every state that calls of `withLock`, their timers and their functions reach. -/
theorem fifoMutex_run (inputs : List Input) : FifoMutex (Runs.run apply inputs start) := by
  have kept : Inv (Runs.run apply inputs start) ∧ Nested (Runs.run apply inputs start) :=
    Runs.run_of_keeps (fun state => Inv state ∧ Nested state) ⟨inv_start, nested_start⟩
      fun input _ kept => ⟨kept.1.apply, kept.2.apply input⟩
  exact kept.1.fifoMutex kept.2

end ThetaDirectory.Locks
