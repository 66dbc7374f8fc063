import ThetaDirectory.Library.JsMap
import ThetaDirectory.Library.Runs

/-!
# The in-process mutex

`withLock` of `utils/mutex.js`.  A name maps to a record while a call holds it or waits for
it; calls keep the record they found.  A call runs synchronously up to `acquire`, resumes when
its promise is resolved, and releases in the turn in which its function has settled.  A timer
can fire while its call waits.
-/

namespace ThetaDirectory.Locks

open Library

/-- What `locks` holds for a name. -/
structure LockRecord where
  held : Bool
  holder : Option String
  since : Nat
  waiters : List Nat
  deriving DecidableEq, Repr

def ACQUIRE_TIMEOUT_MS : Int := 30000

structure Options where
  timeoutMs : Int := ACQUIRE_TIMEOUT_MS
  label : String := ""
  deriving DecidableEq, Repr

/-- How far a call is, with the record it found. -/
inductive Phase where
  | waiting (record : Nat)
  | granted (record : Nat)
  | running (record : Nat)
  | settled (threw : Bool)
  | rejected (message : String)
  deriving DecidableEq, Repr

/-- A call of `withLock`, and the call whose function made it. -/
structure Call where
  name : String
  options : Options
  parent : Option Nat
  outer : List String
  phase : Phase
  deriving DecidableEq, Repr

structure State where
  locks : JsMap Nat
  records : List LockRecord
  calls : List Call

/-! ## Calls -/

/-- The record a call holds on to. -/
def Phase.record : Phase → Option Nat
  | .waiting record | .granted record | .running record => some record
  | _ => none

namespace Call

/-- The names the context of the call's function holds. -/
def inner (call : Call) : List String := call.outer ++ [call.name]

/-- The call's function has been started. -/
def Started (call : Call) : Prop :=
  match call.phase with
  | .running _ | .settled _ => True
  | _ => False

/-- The lock has been handed to the call, and not back yet. -/
def Holds (call : Call) : Prop :=
  match call.phase with
  | .granted _ | .running _ => True
  | _ => False

def Waits (call : Call) : Prop :=
  match call.phase with
  | .waiting _ => True
  | _ => False

/-- The lock has been handed to the call. -/
def Acquired (call : Call) : Prop :=
  match call.phase with
  | .granted _ | .running _ | .settled _ => True
  | _ => False

/-- The call is over. -/
def Over (call : Call) : Prop :=
  match call.phase with
  | .settled _ | .rejected _ => True
  | _ => False

instance (call : Call) : Decidable call.Started := by unfold Started; split <;> infer_instance

instance (call : Call) : Decidable call.Holds := by unfold Holds; split <;> infer_instance

instance (call : Call) : Decidable call.Waits := by unfold Waits; split <;> infer_instance

instance (call : Call) : Decidable call.Acquired := by unfold Acquired; split <;> infer_instance

instance (call : Call) : Decidable call.Over := by unfold Over; split <;> infer_instance

def withPhase (phase : Phase) (call : Call) : Call := { call with phase }

/-- Resolving the promise of a wait. -/
def resolve (call : Call) : Call :=
  match call.phase with
  | .waiting record => { call with phase := .granted record }
  | _ => call

end Call

namespace State

def setPhase (index : Nat) (phase : Phase) (state : State) : State :=
  { state with calls := state.calls.modify index (Call.withPhase phase) }

def setRecord (record : Nat) (change : LockRecord → LockRecord) (state : State) : State :=
  { state with records := state.records.modify record change }

/-- The names held by the context a call is made in: of no other call, or of the function of
one that has been started. -/
def getStore (state : State) : Option Nat → Option (List String)
  | none => some []
  | some index =>
      match state.calls[index]? with
      | some call => if call.Started then some call.inner else none
      | none => none

/-- The record of a name, made if there is none. -/
def record (state : State) (name : String) : State × Nat :=
  match state.locks.lookup name with
  | some record => (state, record)
  | none =>
      ({ state with
          locks := state.locks.insert name state.records.length
          records := state.records ++ [⟨false, none, 0, []⟩] },
        state.records.length)

/-- Take a free lock, or queue. -/
def acquire (record index : Nat) (state : State) : State × Phase :=
  match state.records[record]? with
  | some s =>
      if s.held then
        (state.setRecord record fun s => { s with waiters := s.waiters ++ [index] },
          .waiting record)
      else (state.setRecord record fun s => { s with held := true }, .granted record)
  | none => (state, .granted record)

def reentered (name : String) : String :=
  "withLock(\"" ++ name ++ "\") re-entered while this context already holds it — " ++
    "this would deadlock; move the nested work outside the critical section"

def timedOut (timeoutMs : Int) (name : String) (s : LockRecord) (now : Nat) : String :=
  "timed out after " ++ toString timeoutMs ++ "ms waiting for lock \"" ++ name ++ "\" " ++
    "(held by " ++ s.holder.getD "unknown" ++ " for " ++ toString ((now : Int) - s.since) ++ "ms)"

/-- `withLock` up to its first await.  There is no context of a function that has not been
started. -/
def withLock (name : String) (options : Options) (parent : Option Nat) (state : State) : State :=
  match state.getStore parent with
  | none => state
  | some outer =>
      let call := Call.mk name options parent outer
      if name ∈ outer then
        { state with calls := state.calls ++ [call (.rejected (reentered name))] }
      else
        let (found, record) := state.record name
        let (queued, phase) := found.acquire record state.calls.length
        { queued with calls := queued.calls ++ [call phase] }

/-- A call that has acquired starts its function. -/
def resume (index now : Nat) (state : State) : State :=
  match state.calls[index]? with
  | some call =>
      match call.phase with
      | .granted record =>
          let label := if call.options.label = "" then "unlabelled" else call.options.label
          (state.setRecord record fun s => { s with holder := some label, since := now }).setPhase
            index (.running record)
      | _ => state
  | none => state

/-- Hand the lock to the next waiter, or free it. -/
def release (record : Nat) (name : String) (now : Nat) (state : State) : State :=
  match state.records[record]? with
  | some s =>
      match s.waiters with
      | [] =>
          let freed := state.setRecord record fun s => { s with
            held := false, holder := none, since := 0 }
          { freed with locks := freed.locks.erase name }
      | next :: waiters =>
          let handed := state.setRecord record fun s => { s with
            waiters := waiters, holder := none, since := now }
          { handed with calls := handed.calls.modify next Call.resolve }
  | none => state

/-- A function has resolved or thrown. -/
def settle (index : Nat) (threw : Bool) (now : Nat) (state : State) : State :=
  match state.calls[index]? with
  | some call =>
      match call.phase with
      | .running record =>
          (state.setPhase index (.settled threw)).release record call.name now
      | _ => state
  | none => state

/-- The timer of a waiting call fires. -/
def timeout (index now : Nat) (state : State) : State :=
  match state.calls[index]? with
  | some call =>
      match call.phase with
      | .waiting record =>
          match state.records[record]? with
          | some s =>
              if 0 < call.options.timeoutMs then
                let waiters := s.waiters.erase index
                let dropped := state.setRecord record fun s => { s with waiters }
                let locks := if s.held = false ∧ waiters = [] then dropped.locks.erase call.name
                  else dropped.locks
                { dropped with locks }.setPhase index
                  (.rejected (timedOut call.options.timeoutMs call.name s now))
              else state
          | none => state
      | _ => state
  | none => state

end State

inductive Input where
  | withLock (name : String) (options : Options) (parent : Option Nat)
  | resume (index now : Nat)
  | settle (index : Nat) (threw : Bool) (now : Nat)
  | timeout (index now : Nat)
  deriving DecidableEq, Repr

def apply : Input → State → State
  | .withLock name options parent, state => state.withLock name options parent
  | .resume index now, state => state.resume index now
  | .settle index threw now, state => state.settle index threw now
  | .timeout index now, state => state.timeout index now

def start : State := ⟨∅, [], []⟩

end ThetaDirectory.Locks
