import ThetaDirectory.Library.Interleaving
import ThetaDirectory.Text

/-!
# The replication reconciler

`reconcileReplication` of `utils/ldap_reconcile.js` from one promise callback to the next: the
pass at hand, the loop that runs again when a trigger came in the meantime, and the `finally`
that lets the next call start a loop of its own.  What a pass does is left open: it resolves with
a result, or it throws.
-/

namespace ThetaDirectory.Replication.Reconcile

open Library Library.Interleaving

/-- The variables of the module. -/
structure Flags where
  inFlight : Bool
  dirty : Bool
  dirtyReason : Option String
  deriving DecidableEq, Repr

variable {ρ : Type}

inductive Phase (ρ : Type) where
  /-- A pass runs. -/
  | passing (reason : String)
  /-- The pass has ended, and the loop has not gone on yet. -/
  | settled (reason : String) (result : Except String ρ)
  /-- The loop is left, and `finally` has not run yet. -/
  | leaving (result : Except String ρ)
  | ended (result : Except String ρ)
  /-- The call was handed the promise in flight. -/
  | joined

/-- A call of `reconcileReplication`, up to its first await. -/
def reconcile (reason : String) (flags : Flags) : Flags × Phase ρ :=
  if flags.inFlight then ({ flags with dirty := true, dirtyReason := some reason }, .joined)
  else ({ flags with inFlight := true }, .passing reason)

/-- The next callback of a call; `result` is how its pass ends, if one runs. -/
def callback (result : Except String ρ) (flags : Flags) : Phase ρ → Flags × Phase ρ
  | .passing reason => (flags, .settled reason result)
  | .settled reason (.ok result) =>
      if flags.dirty then
        ({ flags with dirty := false }, .passing ((truthy flags.dirtyReason).getD reason))
      else (flags, .leaving (.ok result))
  | .settled _ (.error error) => (flags, .leaving (.error error))
  | .leaving result => ({ flags with inFlight := false }, .ended result)
  | .ended result => (flags, .ended result)
  | .joined => (flags, .joined)

def reconciler : Protocol Flags (Phase ρ) String (Except String ρ) where
  call := reconcile
  turn := callback

/-- The module when it has been loaded. -/
def loaded : Pool Flags (Phase ρ) := ⟨⟨false, false, none⟩, []⟩

/-! ## What happens in a run -/

/-- The promise in flight is the one of this call. -/
def Phase.running : Phase ρ → Bool
  | .passing _ | .settled _ _ | .leaving _ => true
  | .ended _ | .joined => false

/-- Its pass runs. -/
def Phase.inPass : Phase ρ → Bool
  | .passing _ => true
  | _ => false

/-- The loop is not going to look at the flag again. -/
def Phase.closing : Phase ρ → Bool
  | .settled _ (.error _) | .leaving _ => true
  | _ => false

inductive Mark where
  | called
  /-- A pass of the loop that a call has started. -/
  | started (index : Nat)
  | ended (index : Nat)
  deriving DecidableEq, Repr

abbrev Run (ρ : Type) : Type := Pool Flags (Phase ρ)

abbrev Trigger (ρ : Type) : Type := Interleaving.Event String (Except String ρ)

/-- The call at an index enters a pass. -/
def enters (index : Nat) (before after : Run ρ) : Bool :=
  !(before.calls[index]?.any Phase.inPass) && after.calls[index]?.any Phase.inPass

def marks (step : Runs.Step (Trigger ρ) (Run ρ)) : List Mark :=
  match step.operation with
  | .call _ =>
      let index := step.before.calls.length
      .called :: if enters index step.before step.after then [.started index] else []
  | .turn index _ =>
      if step.before.calls[index]?.any Phase.inPass then [.ended index]
      else if enters index step.before step.after then [.started index] else []

/-- The marks of a run, in their order. -/
def log (events : List (Trigger ρ)) (pool : Run ρ) : List Mark :=
  (Runs.steps reconciler.apply events pool).flatMap marks

def isTurn (index : Nat) : Trigger ρ → Bool
  | .call _ => false
  | .turn other _ => other == index

/-- No call comes when a loop is not going to look at the flag again, and no pass throws after
one has come. -/
def Orderly (event : Trigger ρ) (pool : Run ρ) : Prop :=
  match event with
  | .call _ => ∀ phase ∈ pool.calls, phase.closing = false
  | .turn index (.error _) =>
      pool.calls[index]?.any Phase.inPass = true → pool.shared.dirty = false
  | .turn _ (.ok _) => True

instance : (event : Trigger ρ) → (pool : Run ρ) → Decidable (Orderly event pool)
  | .call _, _ => by
      unfold Orderly
      infer_instance
  | .turn _ (.error _), _ => by
      unfold Orderly
      infer_instance
  | .turn _ (.ok _), _ => isTrue trivial

end ThetaDirectory.Replication.Reconcile
