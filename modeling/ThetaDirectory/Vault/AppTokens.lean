import ThetaDirectory.Vault.Policies

/-!
# App tokens

The tokens that `mintAppToken` of `utils/vault_broker.js` mints in OpenBao, and the
`VaultAppToken` rows that keep their accessors.  A call takes one turn for each operation it
waits for; the rebuild of the app's policy before that counts as one.
-/

namespace ThetaDirectory.Vault.AppTokens

open Library Library.Interleaving

/-- A token of OpenBao.  Its accessor is its position among all that were minted. -/
structure Token where
  name : String
  revoked : Bool
  deriving DecidableEq, Repr

/-- A `VaultAppToken` row. -/
structure VaultAppToken where
  id : String
  name : String
  accessor : Nat
  created_by : Option String
  deriving DecidableEq, Repr

abbrev TokenTable : Type := Table VaultAppToken [VaultAppToken.id, VaultAppToken.name]

def getByName (rows : List VaultAppToken) (name : String) : Option VaultAppToken :=
  rows.find? fun row => row.name == name

structure State where
  rows : TokenTable
  minted : List Token

/-- What comes of a request to OpenBao. -/
inductive Reply where
  | ok
  /-- An answer other than 2xx. -/
  | refused
  | unreachable
  deriving DecidableEq, Repr

/-- What the environment supplies to a turn. -/
structure Outcome where
  /-- The database operation succeeds. -/
  db : Bool
  bao : Reply
  error : String
  uuid : String

inductive Phase where
  /-- `ensurePolicy` -/
  | preparing
  /-- The mint through the role `sso-app`, or after that through `sso-broker`. -/
  | minting (fallback : Bool)
  /-- `VaultAppToken.getByName` -/
  | looking (accessor : Nat)
  /-- `auth/token/revoke-accessor` -/
  | revoking (accessor : Nat) (existing : VaultAppToken)
  /-- `existing.delete` -/
  | deleting (accessor : Nat) (existing : VaultAppToken)
  /-- `VaultAppToken.create` -/
  | storing (accessor : Nat)
  | returned (accessor : Nat)
  | thrown (error : String)
  deriving DecidableEq, Repr

structure Call where
  name : String
  actorUid : Option String
  phase : Phase
  deriving DecidableEq, Repr

def revoke (accessor : Nat) (minted : List Token) : List Token :=
  minted.modify accessor fun token => { token with revoked := true }

/-- One turn of `mintAppToken`.  What fails after the mint is swallowed. -/
def Phase.turn (outcome : Outcome) (name : String) (actorUid : Option String) (state : State) :
    Phase → State × Phase
  | .preparing =>
      if outcome.db then (state, .minting false) else (state, .thrown outcome.error)
  | .minting fallback =>
      if outcome.bao = .ok then
        ({ state with minted := state.minted ++ [⟨name, false⟩] }, .looking state.minted.length)
      else if fallback then (state, .thrown outcome.error)
      else (state, .minting true)
  | .looking accessor =>
      if outcome.db then
        match getByName state.rows.rows name with
        | some existing => (state, .revoking accessor existing)
        | none => (state, .storing accessor)
      else (state, .returned accessor)
  | .revoking accessor existing =>
      match outcome.bao with
      | .ok => ({ state with minted := revoke existing.accessor state.minted },
          .deleting accessor existing)
      -- the answer is not looked at
      | .refused => (state, .deleting accessor existing)
      | .unreachable => (state, .returned accessor)
  | .deleting accessor existing =>
      if outcome.db then
        ({ state with rows := state.rows.remove fun row => row.id == existing.id },
          .storing accessor)
      else (state, .returned accessor)
  | .storing accessor =>
      if outcome.db then
        ({ state with
            rows := (state.rows.insert ⟨outcome.uuid, name, accessor, actorUid⟩).getD state.rows },
          .returned accessor)
      else (state, .returned accessor)
  | .returned accessor => (state, .returned accessor)
  | .thrown error => (state, .thrown error)

structure Input where
  name : String
  actorUid : Option String

def Input.start (input : Input) : Phase :=
  if validAppName input.name then .preparing
  else .thrown "invalid app name (lowercase letters, digits, hyphens; max 63 chars)"

def mints : Protocol State Call Input Outcome where
  call input state := (state, ⟨input.name, input.actorUid, input.start⟩)
  turn outcome state call :=
    let (state, next) := call.phase.turn outcome call.name call.actorUid state
    (state, { call with phase := next })

/-- Nothing has been minted. -/
def start : Pool State Call := ⟨⟨.empty, []⟩, []⟩

end ThetaDirectory.Vault.AppTokens
