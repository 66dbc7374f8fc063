import Mathlib.Logic.Relation
import ThetaDirectory.Library.Positions
import ThetaDirectory.Library.Runs
import ThetaDirectory.Locks.Mutex

/-!
# The mutex is first in, first out

The queue of a name's record is exactly the waiting calls of the name in call order, some call
of a mapped name holds the lock, and a call that has acquired has no predecessor that is not
over.
-/

namespace ThetaDirectory.Locks

open Library Relation

variable {state next : State} {calls : List Call} {name : String} {record index : Nat}

/-! ## The invariant -/

/-- A call of the name waits in the record. -/
def WaitsAt (calls : List Call) (name : String) (record index : Nat) : Prop :=
  ∃ call, calls[index]? = some call ∧ call.name = name ∧ call.phase = .waiting record

def HoldsAt (calls : List Call) (name : String) (index : Nat) : Prop :=
  ∃ call, calls[index]? = some call ∧ call.name = name ∧ call.Holds

/-- What precedes a call that has acquired is over. -/
def Ordered (calls : List Call) : Prop :=
  ∀ (first second : Nat) (earlier later : Call), first < second →
    calls[first]? = some earlier → calls[second]? = some later → earlier.name = later.name →
    later.Acquired → earlier.Over

/-- The record holds the queue of a name. -/
structure Queued (state : State) (name : String) (record : Nat) (s : LockRecord) : Prop where
  found : state.records[record]? = some s
  held : s.held = true
  sorted : s.waiters.Pairwise (· < ·)
  waiting : ∀ index, index ∈ s.waiters ↔ WaitsAt state.calls name record index

/-- Calls hold on to the mapped record of their name, the records are the queues of different
names, and a mapped name is held. -/
structure Inv (state : State) : Prop where
  ordered : Ordered state.calls
  mapped : ∀ (index : Nat) (call : Call) (record : Nat), state.calls[index]? = some call →
    call.phase.record = some record → state.locks.lookup call.name = some record
  queued : ∀ name record, state.locks.lookup name = some record →
    (∃ s, Queued state name record s) ∧ ∃ index, HoldsAt state.calls name index
  apart : ∀ left right record, state.locks.lookup left = some record →
    state.locks.lookup right = some record → left = right

theorem inv_start : Inv start where
  ordered := fun _ _ _ _ _ found => by cases found
  mapped := fun _ _ _ found => by cases found
  queued := fun _ _ found => by cases found
  apart := fun _ _ _ found => by cases found

/-! ## Calls -/

theorem Call.Holds.acquired {call : Call} (holds : call.Holds) : call.Acquired := by
  cases phase : call.phase <;> simp_all [Call.Holds, Call.Acquired]

theorem Call.Holds.not_over {call : Call} (holds : call.Holds) : ¬ call.Over := by
  cases phase : call.phase <;> simp_all [Call.Holds, Call.Over]

theorem Call.not_over_of_record {call : Call} (kept : call.phase.record = some record) :
    ¬ call.Over := by
  cases phase : call.phase <;> simp_all [Phase.record, Call.Over]

theorem Call.waits_iff {call : Call} : call.Waits ↔ ∃ record, call.phase = .waiting record := by
  cases phase : call.phase <;> simp_all [Call.Waits]

theorem Call.holds_or_waits_of_record {call : Call} (kept : call.phase.record = some record) :
    call.Holds ∨ call.phase = .waiting record := by
  cases phase : call.phase <;> simp_all [Phase.record, Call.Holds]

theorem Call.over_of_no_record {call : Call} (none : call.phase.record = none) : call.Over := by
  cases phase : call.phase <;> simp_all [Phase.record, Call.Over]

/-- At most one call of a name holds its lock. -/
theorem Ordered.holds_unique {other : Nat} (ordered : Ordered calls)
    (holds : HoldsAt calls name index) (held : HoldsAt calls name other) : index = other := by
  obtain ⟨call, found, named, own⟩ := holds
  obtain ⟨called, foundOther, namedOther, ownOther⟩ := held
  rcases Nat.lt_trichotomy index other with earlier | same | later
  · exact absurd (ordered _ _ _ _ earlier found foundOther (named.trans namedOther.symm)
      ownOther.acquired) own.not_over
  · exact same
  · exact absurd (ordered _ _ _ _ later foundOther found (namedOther.trans named.symm)
      own.acquired) ownOther.not_over

/-- The holder of a name was called before its waiters. -/
theorem Ordered.lt_of_waits {holder : Nat} (ordered : Ordered calls)
    (holds : HoldsAt calls name holder) (waits : WaitsAt calls name record index) :
    holder < index := by
  obtain ⟨call, found, named, own⟩ := holds
  obtain ⟨waiter, foundWaiter, namedWaiter, phase⟩ := waits
  have kept : waiter.phase.record = some record := by rw [phase]; rfl
  rcases Nat.lt_trichotomy holder index with earlier | same | later
  · exact earlier
  · subst same
    rw [found] at foundWaiter
    cases foundWaiter
    rw [Call.Holds, phase] at own
    exact own.elim
  · exact absurd (ordered _ _ _ _ later foundWaiter found (namedWaiter.trans named.symm)
      own.acquired) (Call.not_over_of_record kept)

/-- A new call that has not acquired keeps the order, and so does one without predecessors
that are not over. -/
theorem Ordered.append {call : Call} (ordered : Ordered calls)
    (first : call.Acquired → ∀ (index : Nat) (earlier : Call), calls[index]? = some earlier →
      earlier.name = call.name → earlier.Over) : Ordered (calls ++ [call]) := by
  intro one two earlier later before found foundLater named acquired
  rcases Positions.getElem?_concat_iff.mp foundLater with old | ⟨rfl, rfl⟩
  · rcases Positions.getElem?_concat_iff.mp found with present | ⟨rfl, -⟩
    · exact ordered one two earlier later before present old named acquired
    · exact absurd (List.getElem?_eq_some_iff.mp old).1 (Nat.not_lt.mpr (Nat.le_of_lt before))
  · rcases Positions.getElem?_concat_iff.mp found with present | ⟨rfl, -⟩
    · exact first acquired one earlier present named
    · exact absurd before (Nat.lt_irrefl _)

/-- A call that goes on keeps the order, if its predecessors are over when it acquires. -/
theorem Ordered.modify (change : Call → Call) (ordered : Ordered calls)
    (named : ∀ call, (change call).name = call.name)
    (closed : ∀ call, calls[index]? = some call → call.Over → (change call).Over)
    (acquires : ∀ call, calls[index]? = some call → (change call).Acquired → call.Acquired ∨
      ∀ (before : Nat) (earlier : Call), before < index → calls[before]? = some earlier →
        earlier.name = call.name → earlier.Over) :
    Ordered (calls.modify index change) := by
  intro one two earlier later before found foundLater same acquired
  obtain ⟨first, foundFirst, rfl⟩ := Positions.getElem?_modify_iff.mp found
  obtain ⟨second, foundSecond, rfl⟩ := Positions.getElem?_modify_iff.mp foundLater
  have firstName : (if index = one then change first else first).name = first.name := by
    split
    · exact named first
    · rfl
  have secondName : (if index = two then change second else second).name = second.name := by
    split
    · exact named second
    · rfl
  rw [firstName, secondName] at same
  have ended : first.Over := by
    by_cases at_second : index = two
    · subst at_second
      rw [if_pos rfl] at acquired
      rcases acquires second foundSecond acquired with had | alone
      · exact ordered one index first second before foundFirst foundSecond same had
      · exact alone one first before foundFirst same
    · rw [if_neg at_second] at acquired
      exact ordered one two first second before foundFirst foundSecond same acquired
  split
  · rename_i at_first
    subst at_first
    exact closed first foundFirst ended
  · exact ended

theorem waitsAt_append {call : Call} {position : Nat} :
    WaitsAt (calls ++ [call]) name record position ↔ WaitsAt calls name record position ∨
      position = calls.length ∧ call.name = name ∧ call.phase = .waiting record := by
  constructor
  · rintro ⟨waiter, found, named, phase⟩
    rcases Positions.getElem?_concat_iff.mp found with old | ⟨rfl, rfl⟩
    · exact Or.inl ⟨waiter, old, named, phase⟩
    · exact Or.inr ⟨rfl, named, phase⟩
  · rintro (⟨waiter, found, named, phase⟩ | ⟨rfl, named, phase⟩)
    · exact ⟨waiter, Positions.getElem?_concat_iff.mpr (Or.inl found), named, phase⟩
    · exact ⟨call, Positions.getElem?_concat_iff.mpr (Or.inr ⟨rfl, rfl⟩), named, phase⟩

theorem HoldsAt.append {position : Nat} (holds : HoldsAt calls name position) (call : Call) :
    HoldsAt (calls ++ [call]) name position := by
  obtain ⟨holder, found, named, own⟩ := holds
  exact ⟨holder, Positions.getElem?_concat_iff.mpr (Or.inl found), named, own⟩

/-- Where a call has gone on, only its own wait may have begun or ended. -/
theorem waitsAt_modify (change : Call → Call) {position : Nat}
    (named : ∀ call, (change call).name = call.name) :
    WaitsAt (calls.modify index change) name record position ↔
      position ≠ index ∧ WaitsAt calls name record position ∨
        position = index ∧ ∃ call, calls[index]? = some call ∧ call.name = name ∧
          (change call).phase = .waiting record := by
  constructor
  · rintro ⟨waiter, found, same, phase⟩
    obtain ⟨before, present, rfl⟩ := Positions.getElem?_modify_iff.mp found
    split at same
    · rename_i here
      subst here
      rw [if_pos rfl] at phase
      exact Or.inr ⟨rfl, before, present, (named before).symm.trans same, phase⟩
    · rename_i elsewhere
      rw [if_neg elsewhere] at phase
      exact Or.inl ⟨Ne.symm elsewhere, before, present, same, phase⟩
  · rintro (⟨elsewhere, waiter, found, same, phase⟩ | ⟨rfl, call, found, same, phase⟩)
    · refine ⟨waiter, Positions.getElem?_modify_iff.mpr ⟨waiter, found, ?_⟩, same, phase⟩
      rw [if_neg (Ne.symm elsewhere)]
    · refine ⟨change call, Positions.getElem?_modify_iff.mpr ⟨call, found, ?_⟩,
        (named call).trans same, phase⟩
      rw [if_pos rfl]

theorem HoldsAt.modify {change : Call → Call} {position : Nat}
    (holds : HoldsAt calls name position) (elsewhere : position ≠ index) :
    HoldsAt (calls.modify index change) name position := by
  obtain ⟨holder, found, named, own⟩ := holds
  refine ⟨holder, Positions.getElem?_modify_iff.mpr ⟨holder, found, ?_⟩, named, own⟩
  rw [if_neg (Ne.symm elsewhere)]

/-! ## The other names -/

/-- The call at a position, if there is one, is of another name. -/
def Foreign (calls : List Call) (name : String) (index : Nat) : Prop :=
  ∀ call, calls[index]? = some call → call.name ≠ name

theorem foreign_of_name {call : Call} {other : String} (found : calls[index]? = some call)
    (different : other ≠ call.name) : Foreign calls other index := by
  intro called foundCalled same
  rw [found] at foundCalled
  cases foundCalled
  exact different same.symm

theorem Foreign.modify {change : Call → Call} {position : Nat} (foreign : Foreign calls name index)
    (named : ∀ call, (change call).name = call.name) :
    Foreign (calls.modify position change) name index := by
  intro call found
  obtain ⟨before, present, rfl⟩ := Positions.getElem?_modify_iff.mp found
  split
  · exact (named before).trans_ne (foreign before present)
  · exact foreign before present

theorem Foreign.waitsAt_modify (change : Call → Call) {position : Nat}
    (foreign : Foreign calls name index) (named : ∀ call, (change call).name = call.name) :
    WaitsAt (calls.modify index change) name record position ↔
      WaitsAt calls name record position := by
  rw [Locks.waitsAt_modify change named]
  constructor
  · rintro (⟨-, waits⟩ | ⟨-, call, found, same, -⟩)
    · exact waits
    · exact absurd same (foreign call found)
  · intro waits
    obtain ⟨call, found, same, -⟩ := id waits
    refine Or.inl ⟨fun here => ?_, waits⟩
    exact foreign call (here ▸ found) same

theorem Foreign.holdsAt_modify {change : Call → Call} {position : Nat}
    (foreign : Foreign calls name index) (holds : HoldsAt calls name position) :
    HoldsAt (calls.modify index change) name position := by
  obtain ⟨call, found, same, -⟩ := id holds
  exact holds.modify fun here => foreign call (here ▸ found) same

theorem Queued.elsewhere {s : LockRecord} (queued : Queued state name record s)
    (records : next.records[record]? = state.records[record]?)
    (waits : ∀ position, WaitsAt next.calls name record position ↔
      WaitsAt state.calls name record position) : Queued next name record s where
  found := records.trans queued.found
  held := queued.held
  sorted := queued.sorted
  waiting := fun position => (queued.waiting position).trans (waits position).symm

theorem getElem?_records_setRecord {other : Nat} (change : LockRecord → LockRecord)
    (different : other ≠ record) :
    (state.setRecord record change).records[other]? = state.records[other]? := by
  rw [State.setRecord, List.getElem?_modify]
  cases state.records[other]? with
  | none => rfl
  | some s => exact congrArg some (if_neg (Ne.symm different))

theorem getElem?_setRecord_self {s : LockRecord} (change : LockRecord → LockRecord)
    (found : state.records[record]? = some s) :
    (state.setRecord record change).records[record]? = some (change s) :=
  Positions.getElem?_modify_iff.mpr ⟨s, found, (if_pos rfl).symm⟩

theorem Inv.record_ne {other : String} {foreign : Nat} (inv : Inv state)
    (mapped : state.locks.lookup name = some record) (different : other ≠ name)
    (mappedOther : state.locks.lookup other = some foreign) : foreign ≠ record := by
  intro same
  exact different (inv.apart other name record (same ▸ mappedOther) mapped)

theorem Inv.over_of_unmapped {call : Call} (inv : Inv state)
    (unmapped : state.locks.lookup call.name = none) (found : state.calls[index]? = some call) :
    call.Over := by
  cases kept : call.phase.record with
  | none => exact Call.over_of_no_record kept
  | some record =>
      have mapped := inv.mapped index call record found kept
      rw [unmapped] at mapped
      cases mapped

/-- The mapped record of a call's name holds its queue. -/
theorem Inv.queue {call : Call} (inv : Inv state) (found : state.calls[index]? = some call)
    (kept : call.phase.record = some record) :
    ∃ s, Queued state call.name record s :=
  (inv.queued call.name record (inv.mapped index call record found kept)).1

/-! ## A new call -/

/-- A call that is refused leaves the locks and the queues alone. -/
theorem Inv.append_rejected {call : Call} {message : String} (inv : Inv state)
    (phase : call.phase = .rejected message) :
    Inv { state with calls := state.calls ++ [call] } where
  ordered := inv.ordered.append fun acquired => by
    rw [Call.Acquired, phase] at acquired
    exact acquired.elim
  mapped := by
    intro position other kept found record
    rcases Positions.getElem?_concat_iff.mp found with old | ⟨-, rfl⟩
    · exact inv.mapped position other kept old record
    · rw [phase] at record
      cases record
  queued := by
    intro name record mapped
    obtain ⟨⟨s, queued⟩, holder, holds⟩ := inv.queued name record mapped
    refine ⟨⟨s, queued.elsewhere rfl fun position => ?_⟩, holder, holds.append call⟩
    rw [waitsAt_append, phase]
    simp
  apart := inv.apart

/-- The first call of a name makes a record and holds it. -/
theorem Inv.append_first (inv : Inv state) (call : Call)
    (unmapped : state.locks.lookup call.name = none)
    (phase : call.phase = .granted state.records.length) :
    Inv { state with
      locks := state.locks.insert call.name state.records.length
      records := state.records ++ [⟨true, none, 0, []⟩]
      calls := state.calls ++ [call] } where
  ordered := inv.ordered.append fun _ index earlier found named =>
    inv.over_of_unmapped (named ▸ unmapped) found
  mapped := by
    intro position other kept found record
    simp only [JsMap.lookup_insert]
    rcases Positions.getElem?_concat_iff.mp found with old | ⟨-, rfl⟩
    · have mapped := inv.mapped position other kept old record
      split
      · rename_i same
        rw [same, unmapped] at mapped
        cases mapped
      · exact mapped
    · rw [phase] at record
      rw [if_pos rfl]
      exact record
  queued := by
    intro name record mapped
    simp only [JsMap.lookup_insert] at mapped
    split at mapped
    · rename_i same
      cases mapped
      subst same
      refine ⟨⟨⟨true, none, 0, []⟩, ⟨List.getElem?_concat_length, rfl, .nil, ?_⟩⟩,
        state.calls.length, call, List.getElem?_concat_length, rfl, ?_⟩
      · intro position
        rw [waitsAt_append, phase]
        simp only [List.not_mem_nil, false_iff, not_or]
        constructor
        · rintro ⟨waiter, found, named, waiting⟩
          have mapped := inv.mapped position waiter _ found (by rw [waiting]; rfl)
          rw [named, unmapped] at mapped
          cases mapped
        · rintro ⟨-, -, granted⟩
          cases granted
      · rw [Call.Holds, phase]
        trivial
    · obtain ⟨⟨s, queued⟩, holder, holds⟩ := inv.queued name record mapped
      refine ⟨⟨s, queued.elsewhere ?_ fun position => ?_⟩, holder, holds.append call⟩
      · exact List.getElem?_append_left (List.getElem?_eq_some_iff.mp queued.found).1
      · rw [waitsAt_append, phase]
        simp
  apart := by
    intro left right record mapped mappedRight
    simp only [JsMap.lookup_insert] at mapped mappedRight
    have present : ∀ other, state.locks.lookup other ≠ some state.records.length := by
      intro other mappedOther
      obtain ⟨⟨s, queued⟩, -⟩ := inv.queued other _ mappedOther
      exact absurd (List.getElem?_eq_some_iff.mp queued.found).1 (Nat.lt_irrefl _)
    split at mapped
    · rename_i atLeft
      split at mappedRight
      · rename_i atRight
        exact atLeft.trans atRight.symm
      · cases mapped
        exact absurd mappedRight (present right)
    · split at mappedRight
      · cases mappedRight
        exact absurd mapped (present left)
      · exact inv.apart left right record mapped mappedRight

/-- A further call of a name goes to the end of its queue. -/
theorem Inv.append_waiting (inv : Inv state) (call : Call)
    (mapped : state.locks.lookup call.name = some record) (phase : call.phase = .waiting record) :
    Inv { state.setRecord record fun s => { s with
        waiters := s.waiters ++ [state.calls.length] } with
      calls := state.calls ++ [call] } where
  ordered := inv.ordered.append fun acquired => by
    rw [Call.Acquired, phase] at acquired
    exact acquired.elim
  mapped := by
    intro position other kept found record
    rcases Positions.getElem?_concat_iff.mp found with old | ⟨-, rfl⟩
    · exact inv.mapped position other kept old record
    · rw [phase] at record
      cases record
      exact mapped
  queued := by
    intro name other mappedOther
    obtain ⟨⟨s, queued⟩, holder, holds⟩ := inv.queued name other mappedOther
    refine ⟨?_, holder, holds.append call⟩
    by_cases same : name = call.name
    · subst same
      have records : other = record := Option.some.inj (mappedOther.symm.trans mapped)
      subst records
      refine ⟨_, getElem?_setRecord_self _ queued.found, queued.held, ?_, fun position => ?_⟩
      · apply List.pairwise_append.mpr
        refine ⟨queued.sorted, List.pairwise_singleton _ _, fun waiter member last only => ?_⟩
        obtain ⟨waiting, found, -⟩ := (queued.waiting waiter).mp member
        rw [List.mem_singleton.mp only]
        exact (List.getElem?_eq_some_iff.mp found).1
      · rw [waitsAt_append, phase]
        simp only [List.mem_append, List.mem_singleton, queued.waiting position, and_true]
    · refine ⟨s, queued.elsewhere ?_ fun position => ?_⟩
      · exact getElem?_records_setRecord _ (inv.record_ne mapped same mappedOther)
      · rw [waitsAt_append]
        simp [Ne.symm same]
  apart := inv.apart

theorem record_acquire_first (index : Nat) (unmapped : state.locks.lookup name = none) :
    (state.record name).1.acquire (state.record name).2 index =
      ({ state with
          locks := state.locks.insert name state.records.length
          records := state.records ++ [⟨true, none, 0, []⟩] },
        .granted state.records.length) := by
  simp only [State.record, unmapped, State.acquire, List.getElem?_concat_length, State.setRecord,
    Positions.modify_concat]
  rfl

theorem record_acquire_waiting {s : LockRecord} (index : Nat)
    (mapped : state.locks.lookup name = some record) (queued : Queued state name record s) :
    (state.record name).1.acquire (state.record name).2 index =
      (state.setRecord record fun s => { s with waiters := s.waiters ++ [index] },
        .waiting record) := by
  simp only [State.record, mapped, State.acquire, queued.found, queued.held, if_true]

theorem Inv.withLock (inv : Inv state) (name : String) (options : Options)
    (parent : Option Nat) : Inv (state.withLock name options parent) := by
  unfold State.withLock
  cases state.getStore parent with
  | none => exact inv
  | some outer =>
      dsimp only
      split
      · exact inv.append_rejected rfl
      · cases mapped : state.locks.lookup name with
        | none =>
            rw [record_acquire_first _ mapped]
            exact inv.append_first ⟨name, options, parent, outer, _⟩ mapped rfl
        | some record =>
            obtain ⟨⟨s, queued⟩, -⟩ := inv.queued name record mapped
            rw [record_acquire_waiting _ mapped queued]
            exact inv.append_waiting ⟨name, options, parent, outer, _⟩ mapped rfl

/-! ## A call that goes on -/

/-- A call whose phase changes keeps the record it has, or lets go of it. -/
theorem Inv.mapped_modify (change : Call → Call) {position kept : Nat} {call : Call}
    (inv : Inv state) (named : ∀ call, (change call).name = call.name)
    (records : ∀ call, state.calls[index]? = some call → ∀ record,
      (change call).phase.record = some record → call.phase.record = some record)
    (found : (state.calls.modify index change)[position]? = some call)
    (record : call.phase.record = some kept) :
    state.locks.lookup call.name = some kept := by
  obtain ⟨before, present, rfl⟩ := Positions.getElem?_modify_iff.mp found
  by_cases here : index = position
  · subst here
    rw [if_pos rfl] at record ⊢
    rw [named before]
    exact inv.mapped _ before kept present (records before present kept record)
  · rw [if_neg here] at record ⊢
    exact inv.mapped position before kept present record

/-- Another name's queue and holder stay where only calls and the record of one name change. -/
theorem Inv.queued_elsewhere {other : String} {foreign : Nat} (inv : Inv state)
    (mapped : state.locks.lookup name = some record) (different : other ≠ name)
    (mappedOther : state.locks.lookup other = some foreign)
    (records : ∀ r, r ≠ record → next.records[r]? = state.records[r]?)
    (waits : ∀ position, WaitsAt next.calls other foreign position ↔
      WaitsAt state.calls other foreign position)
    (holds : ∀ position, HoldsAt state.calls other position → HoldsAt next.calls other position) :
    (∃ s, Queued next other foreign s) ∧ ∃ holder, HoldsAt next.calls other holder := by
  obtain ⟨⟨s, queued⟩, holder, held⟩ := inv.queued other foreign mappedOther
  exact ⟨⟨s, queued.elsewhere (records foreign (inv.record_ne mapped different mappedOther)) waits⟩,
    holder, holds holder held⟩

/-- A further call that has the record of a held name waits in it. -/
theorem Inv.waits_beside {position kept : Nat} {call : Call} (inv : Inv state)
    (holds : HoldsAt state.calls name index) (found : state.calls[position]? = some call)
    (named : call.name = name) (record : call.phase.record = some kept)
    (other : position ≠ index) : WaitsAt state.calls name kept position := by
  rcases Call.holds_or_waits_of_record record with own | waiting
  · exact absurd (inv.ordered.holds_unique ⟨call, found, named, own⟩ holds) other
  · exact ⟨call, found, named, waiting⟩

theorem Inv.run_granted {call : Call} (inv : Inv state) (label : String) (now : Nat)
    (found : state.calls[index]? = some call) (phase : call.phase = .granted record) :
    Inv ((state.setRecord record fun s => { s with holder := some label, since := now }).setPhase
      index (.running record)) := by
  have mapped := inv.mapped index call record found (by rw [phase]; rfl)
  refine ⟨?_, ?_, ?_, inv.apart⟩
  · apply inv.ordered.modify (Call.withPhase (.running record)) (fun _ => rfl)
    · intro called present ended
      cases found.symm.trans present
      rw [Call.Over, phase] at ended
      exact ended.elim
    · intro called present _
      cases found.symm.trans present
      rw [Call.Acquired, phase]
      exact Or.inl trivial
  · intro position called kept present own
    refine inv.mapped_modify (Call.withPhase (.running record)) (fun _ => rfl) (fun before here _ same => ?_) present own
    cases found.symm.trans here
    rw [phase]
    exact same
  · intro other foreign mappedOther
    by_cases same : other = call.name
    · subst same
      cases mapped.symm.trans mappedOther
      obtain ⟨s, queued⟩ := inv.queue found (by rw [phase]; rfl)
      refine ⟨⟨_, getElem?_setRecord_self _ queued.found, queued.held, queued.sorted,
        fun position => ?_⟩, index, call.withPhase (.running record),
        Positions.getElem?_modify_iff.mpr ⟨call, found, (if_pos rfl).symm⟩, rfl, trivial⟩
      rw [queued.waiting position]
      refine ((waitsAt_modify (Call.withPhase (.running record)) fun _ => rfl).trans
        ⟨?_, fun waits => Or.inl ⟨?_, waits⟩⟩).symm
      · rintro (⟨-, waits⟩ | ⟨-, waiter, -, -, running⟩)
        · exact waits
        · cases running
      · intro here
        obtain ⟨waiter, present, -, waiting⟩ := waits
        cases found.symm.trans (here ▸ present)
        cases phase.symm.trans waiting
    · have elsewhere := foreign_of_name found same
      exact inv.queued_elsewhere mapped same mappedOther
        (fun _ => getElem?_records_setRecord _)
        (fun _ => elsewhere.waitsAt_modify (Call.withPhase _) fun _ => rfl)
        fun _ => elsewhere.holdsAt_modify

theorem Inv.resume (inv : Inv state) (index now : Nat) : Inv (state.resume index now) := by
  unfold State.resume
  cases found : state.calls[index]? with
  | none => exact inv
  | some call =>
      cases phase : call.phase with
      | granted record =>
          simp only [phase]
          exact inv.run_granted _ now found phase
      | waiting _ | running _ | settled _ | rejected _ => simpa only [phase] using inv

/-- A waiter whose timer fires leaves the queue. -/
theorem Inv.reject_waiting {call : Call} {s : LockRecord} (inv : Inv state) (message : String)
    (found : state.calls[index]? = some call) (phase : call.phase = .waiting record)
    (queue : Queued state call.name record s) :
    Inv ((state.setRecord record fun s' => { s' with waiters := s.waiters.erase index }).setPhase
      index (.rejected message)) := by
  have mapped := inv.mapped index call record found (by rw [phase]; rfl)
  refine ⟨?_, ?_, ?_, inv.apart⟩
  · apply inv.ordered.modify (Call.withPhase (.rejected message)) (fun _ => rfl)
    · exact fun _ _ _ => trivial
    · exact fun _ _ acquired => acquired.elim
  · intro position called kept present own
    exact inv.mapped_modify (Call.withPhase (.rejected message)) (fun _ => rfl)
      (fun _ _ _ none => by cases none) present own
  · intro other foreign mappedOther
    by_cases same : other = call.name
    · subst same
      cases mapped.symm.trans mappedOther
      obtain ⟨-, holder, holds⟩ := inv.queued call.name record mapped
      have waits : WaitsAt state.calls call.name record index := ⟨call, found, rfl, phase⟩
      refine ⟨⟨_, getElem?_setRecord_self _ queue.found, queue.held,
        queue.sorted.sublist List.erase_sublist, fun position => ?_⟩, holder,
        holds.modify (Nat.ne_of_lt (inv.ordered.lt_of_waits holds waits))⟩
      have distinct : s.waiters.Nodup := queue.sorted.imp fun before => Nat.ne_of_lt before
      rw [distinct.mem_erase_iff, queue.waiting position]
      refine ((waitsAt_modify (Call.withPhase (.rejected message)) fun _ => rfl).trans
        ⟨?_, Or.inl⟩).symm
      rintro (other | ⟨-, waiter, -, -, rejected⟩)
      · exact other
      · cases rejected
    · have elsewhere := foreign_of_name found same
      exact inv.queued_elsewhere mapped same mappedOther
        (fun _ => getElem?_records_setRecord _)
        (fun _ => elsewhere.waitsAt_modify (Call.withPhase _) fun _ => rfl)
        fun _ => elsewhere.holdsAt_modify

theorem Inv.timeout (inv : Inv state) (index now : Nat) : Inv (state.timeout index now) := by
  unfold State.timeout
  cases found : state.calls[index]? with
  | none => exact inv
  | some call =>
      cases phase : call.phase with
      | waiting record =>
          obtain ⟨s, queue⟩ := inv.queue found (by rw [phase]; rfl)
          simp only [phase, queue.found]
          split
          · rw [if_neg (by simp [queue.held])]
            exact inv.reject_waiting _ found phase queue
          · exact inv
      | granted _ | running _ | settled _ | rejected _ => simpa only [phase] using inv

/-! ## A release -/

theorem Call.name_resolve (call : Call) : call.resolve.name = call.name := by
  unfold Call.resolve
  split <;> rfl

theorem Call.record_resolve (call : Call) : call.resolve.phase.record = call.phase.record := by
  rcases call with ⟨name, options, parent, outer, phase⟩
  cases phase <;> rfl

theorem Call.not_waiting_resolve (call : Call) : call.resolve.phase ≠ .waiting record := by
  rcases call with ⟨name, options, parent, outer, phase⟩
  cases phase <;> exact fun same => by cases same

theorem Call.Over.resolve {call : Call} (ended : call.Over) : call.resolve.Over := by
  rcases call with ⟨name, options, parent, outer, phase⟩
  cases phase <;> exact ended

/-- A call that settles keeps the order. -/
theorem Ordered.settle {call : Call} (ordered : Ordered calls) (threw : Bool)
    (found : calls[index]? = some call) (phase : call.phase = .running record) :
    Ordered (calls.modify index (Call.withPhase (.settled threw))) := by
  apply ordered.modify (Call.withPhase (.settled threw)) (fun _ => rfl)
  · exact fun _ _ _ => trivial
  · intro called present _
    cases found.symm.trans present
    rw [Call.Acquired, phase]
    exact Or.inl trivial

/-- Without waiters the name's entry goes. -/
theorem Inv.free {call : Call} {s : LockRecord} (inv : Inv state) (threw : Bool)
    (change : LockRecord → LockRecord) (found : state.calls[index]? = some call)
    (phase : call.phase = .running record) (queue : Queued state call.name record s)
    (empty : s.waiters = []) :
    Inv { (state.setPhase index (.settled threw)).setRecord record change with
      locks := state.locks.erase call.name } := by
  have mapped := inv.mapped index call record found (by rw [phase]; rfl)
  have holds : HoldsAt state.calls call.name index :=
    ⟨call, found, rfl, by rw [Call.Holds, phase]; trivial⟩
  refine ⟨inv.ordered.settle threw found phase, ?_, ?_, ?_⟩
  · intro position called kept present own
    have kept := inv.mapped_modify (Call.withPhase (.settled threw)) (fun _ => rfl)
      (fun _ _ _ none => by cases none) present own
    rw [AList.lookup_erase_ne ?_]
    · exact kept
    · intro named
      obtain ⟨before, there, rfl⟩ := Positions.getElem?_modify_iff.mp present
      by_cases here : index = position
      · rw [if_pos here] at own
        cases own
      · rw [if_neg here] at own named kept
        have waits := inv.waits_beside holds there named own (Ne.symm here)
        rw [named, mapped] at kept
        cases kept
        have member := (queue.waiting position).mpr waits
        rw [empty] at member
        exact List.not_mem_nil member
  · intro other foreign mappedOther
    have different : other ≠ call.name := by
      rintro rfl
      rw [AList.lookup_erase] at mappedOther
      cases mappedOther
    rw [AList.lookup_erase_ne different] at mappedOther
    have elsewhere := foreign_of_name found different
    exact inv.queued_elsewhere mapped different mappedOther
      (fun _ => getElem?_records_setRecord change)
      (fun _ => elsewhere.waitsAt_modify (Call.withPhase (.settled threw)) fun _ => rfl)
      fun _ => elsewhere.holdsAt_modify
  · intro left right record mappedLeft mappedRight
    have kept : ∀ other, (state.locks.erase call.name).lookup other = some record →
        state.locks.lookup other = some record := by
      intro other mappedOther
      by_cases same : other = call.name
      · subst same
        rw [AList.lookup_erase] at mappedOther
        cases mappedOther
      · rwa [AList.lookup_erase_ne same] at mappedOther
    exact inv.apart left right record (kept left mappedLeft) (kept right mappedRight)

/-- The first waiter gets the lock. -/
theorem Inv.hand_over {call : Call} {s : LockRecord} {first : Nat} {waiters : List Nat}
    (inv : Inv state) (threw : Bool) (now : Nat) (found : state.calls[index]? = some call)
    (phase : call.phase = .running record) (queue : Queued state call.name record s)
    (shift : s.waiters = first :: waiters) :
    Inv { (state.setPhase index (.settled threw)).setRecord record fun s => { s with
        waiters := waiters, holder := none, since := now } with
      calls := (state.calls.modify index (Call.withPhase (.settled threw))).modify first
        Call.resolve } := by
  have mapped := inv.mapped index call record found (by rw [phase]; rfl)
  have holds : HoldsAt state.calls call.name index :=
    ⟨call, found, rfl, by rw [Call.Holds, phase]; trivial⟩
  have waits : WaitsAt state.calls call.name record first :=
    (queue.waiting first).mp (by rw [shift]; exact List.mem_cons_self)
  have sorted := queue.sorted
  rw [shift, List.pairwise_cons] at sorted
  have later : index ≠ first := Nat.ne_of_lt (inv.ordered.lt_of_waits holds waits)
  obtain ⟨waiter, foundWaiter, named, waiting⟩ := waits
  have kept : (state.calls.modify index (Call.withPhase (.settled threw)))[first]? =
      some waiter :=
    Positions.getElem?_modify_iff.mpr ⟨waiter, foundWaiter, (if_neg later).symm⟩
  refine ⟨?_, ?_, ?_, inv.apart⟩
  · apply (inv.ordered.settle threw found phase).modify _ Call.name_resolve
    · exact fun _ _ => Call.Over.resolve
    · intro called present _
      cases kept.symm.trans present
      refine Or.inr fun before earlier lower there same => ?_
      obtain ⟨origin, atOrigin, rfl⟩ := Positions.getElem?_modify_iff.mp there
      by_cases here : index = before
      · rw [if_pos here]
        trivial
      · rw [if_neg here] at same ⊢
        cases own : origin.phase.record with
        | none => exact Call.over_of_no_record own
        | some r =>
            have ownName := same.trans named
            have waitsEarlier := inv.waits_beside holds atOrigin ownName own (Ne.symm here)
            have sameRecord := inv.mapped before origin r atOrigin own
            rw [ownName, mapped] at sameRecord
            cases sameRecord
            have member := (queue.waiting before).mpr waitsEarlier
            rw [shift, List.mem_cons] at member
            rcases member with rfl | behind
            · exact absurd lower (Nat.lt_irrefl _)
            · exact absurd (sorted.1 before behind) (Nat.not_lt.mpr (Nat.le_of_lt lower))
  · intro position called kept present own
    obtain ⟨before, there, rfl⟩ := Positions.getElem?_modify_iff.mp present
    have before_mapped : before.phase.record = some kept →
        state.locks.lookup before.name = some kept :=
      inv.mapped_modify (Call.withPhase (.settled threw)) (fun _ => rfl)
        (fun _ _ _ none => by cases none) there
    by_cases here : first = position
    · rw [if_pos here] at own ⊢
      rw [Call.record_resolve] at own
      rw [Call.name_resolve]
      exact before_mapped own
    · rw [if_neg here] at own ⊢
      exact before_mapped own
  · intro other foreign mappedOther
    by_cases same : other = call.name
    · subst same
      cases mapped.symm.trans mappedOther
      refine ⟨⟨_, getElem?_setRecord_self _ queue.found, queue.held, sorted.2,
        fun position => ?_⟩, first, waiter.resolve,
        Positions.getElem?_modify_iff.mpr ⟨waiter, kept, (if_pos rfl).symm⟩,
        (Call.name_resolve waiter).trans named, ?_⟩
      · rw [waitsAt_modify Call.resolve Call.name_resolve,
          waitsAt_modify (Call.withPhase (.settled threw)) fun _ => rfl]
        have members := queue.waiting position
        rw [shift, List.mem_cons] at members
        constructor
        · intro member
          have behind := sorted.1 position member
          have waitsHere := members.mp (Or.inr member)
          have beyond := inv.ordered.lt_of_waits holds waitsHere
          exact Or.inl ⟨Nat.ne_of_gt behind, Or.inl ⟨Nat.ne_of_gt beyond, waitsHere⟩⟩
        · rintro (⟨elsewhere, ⟨-, waitsHere⟩ | ⟨-, other, -, -, settled⟩⟩ | ⟨-, other, -, -, resolved⟩)
          · exact (members.mpr waitsHere).resolve_left elsewhere
          · cases settled
          · exact absurd resolved other.not_waiting_resolve
      · rw [Call.Holds, Call.resolve, waiting]
        trivial
    · have elsewhere := foreign_of_name found same
      have elsewhereFirst : Foreign (state.calls.modify index (Call.withPhase (.settled threw)))
          other first := foreign_of_name kept (named ▸ same)
      refine inv.queued_elsewhere mapped same mappedOther
        (fun _ => getElem?_records_setRecord _)
        (fun position => ?_) fun position held => ?_
      · exact (elsewhereFirst.waitsAt_modify Call.resolve Call.name_resolve).trans
          (elsewhere.waitsAt_modify (Call.withPhase (.settled threw)) fun _ => rfl)
      · exact elsewhereFirst.holdsAt_modify (elsewhere.holdsAt_modify held)

theorem Inv.settle (inv : Inv state) (index : Nat) (threw : Bool) (now : Nat) :
    Inv (state.settle index threw now) := by
  unfold State.settle
  cases found : state.calls[index]? with
  | none => exact inv
  | some call =>
      cases phase : call.phase with
      | running record =>
          obtain ⟨s, queue⟩ := inv.queue found (by rw [phase]; rfl)
          have kept : (state.setPhase index (.settled threw)).records[record]? = some s :=
            queue.found
          simp only [phase, State.release, kept]
          cases shift : s.waiters with
          | nil => exact inv.free threw _ found phase queue shift
          | cons first waiters => exact inv.hand_over threw now found phase queue shift
      | waiting _ | granted _ | settled _ | rejected _ => simpa only [phase] using inv

theorem Inv.apply {input : Input} (inv : Inv state) : Inv (apply input state) := by
  cases input with
  | withLock name options parent => exact inv.withLock name options parent
  | resume index now => exact inv.resume index now
  | settle index threw now => exact inv.settle index threw now
  | timeout index now => exact inv.timeout index now

/-! ## Calls that are over -/

theorem getElem?_setPhase_of_over {call called : Call} {position : Nat} (phase : Phase)
    (found : state.calls[index]? = some call) (ended : call.Over)
    (going : state.calls[position]? = some called) (active : ¬ called.Over) :
    (state.setPhase position phase).calls[index]? = some call := by
  refine Positions.getElem?_modify_iff.mpr ⟨call, found, (if_neg fun same => ?_).symm⟩
  subst same
  cases found.symm.trans going
  exact active ended

theorem getElem?_release_of_over {call : Call} (record : Nat) (name : String) (now : Nat)
    (found : state.calls[index]? = some call) (ended : call.Over) :
    (state.release record name now).calls[index]? = some call := by
  unfold State.release
  cases state.records[record]? with
  | none => exact found
  | some s =>
      dsimp only
      split
      · exact found
      · refine Positions.getElem?_modify_iff.mpr ⟨call, found, ?_⟩
        split
        · rcases call with ⟨name, options, parent, outer, phase⟩
          cases phase <;> first | rfl | exact ended.elim
        · rfl

theorem calls_record (state : State) (name : String) :
    (state.record name).1.calls = state.calls := by
  unfold State.record
  split <;> rfl

theorem calls_acquire (state : State) (record index : Nat) :
    (state.acquire record index).1.calls = state.calls := by
  unfold State.acquire
  split
  · split <;> rfl
  · rfl

/-- No step changes a call that is over. -/
theorem getElem?_apply_of_over {call : Call} (input : Input)
    (found : state.calls[index]? = some call) (ended : call.Over) :
    (apply input state).calls[index]? = some call := by
  cases input with
  | withLock name options parent =>
      have appended : ∀ new : Call, (state.calls ++ [new])[index]? = some call := fun new =>
        Positions.getElem?_concat_iff.mpr (Or.inl found)
      change (state.withLock name options parent).calls[index]? = some call
      unfold State.withLock
      cases state.getStore parent with
      | none => exact found
      | some outer =>
          dsimp only
          split
          · exact appended _
          · dsimp only
            rw [calls_acquire, calls_record]
            exact appended _
  | resume position now =>
      change (state.resume position now).calls[index]? = some call
      unfold State.resume
      cases going : state.calls[position]? with
      | none => exact found
      | some called =>
          cases phase : called.phase with
          | granted record =>
              simp only [phase]
              apply getElem?_setPhase_of_over _ found ended going
              rw [Call.Over, phase]
              exact id
          | waiting _ | running _ | settled _ | rejected _ => simpa only [phase] using found
  | settle position threw now =>
      change (state.settle position threw now).calls[index]? = some call
      unfold State.settle
      cases going : state.calls[position]? with
      | none => exact found
      | some called =>
          cases phase : called.phase with
          | running record =>
              simp only [phase]
              apply getElem?_release_of_over record called.name now _ ended
              apply getElem?_setPhase_of_over _ found ended going
              rw [Call.Over, phase]
              exact id
          | waiting _ | granted _ | settled _ | rejected _ => simpa only [phase] using found
  | timeout position now =>
      change (state.timeout position now).calls[index]? = some call
      unfold State.timeout
      cases going : state.calls[position]? with
      | none => exact found
      | some called =>
          cases phase : called.phase with
          | waiting record =>
              have active : ¬ called.Over := by
                rw [Call.Over, phase]
                exact id
              simp only [phase]
              split
              · split
                · exact getElem?_setPhase_of_over _ found ended going active
                · exact found
              · exact found
          | granted _ | running _ | settled _ | rejected _ => simpa only [phase] using found

end ThetaDirectory.Locks
