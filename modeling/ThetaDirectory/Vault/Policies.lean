import Mathlib.Logic.Function.Basic
import ThetaDirectory.Library.Interleaving
import ThetaDirectory.Library.Table
import ThetaDirectory.Text

/-!
# Vault policies

The policies that `utils/vault_broker.js` keeps in OpenBao for users and apps, and the grants of
shared secrets they are rebuilt from.  A policy is kept as its rules; the source writes
one rule a line.  A call takes one turn for each operation it waits for.
-/

namespace ThetaDirectory.Vault

open Library Library.Interleaving

/-- A path of a policy and what it allows there. -/
structure Rule where
  path : String
  capabilities : List String
  deriving DecidableEq, Repr

abbrev Policy : Type := List Rule

/-- A `SharedSecret` row. -/
structure SharedSecret where
  id : String
  slug : String
  ownerUid : String
  deriving DecidableEq, Repr

def SharedSecret.path (secret : SharedSecret) : String :=
  "shared/" ++ secret.ownerUid ++ "/" ++ secret.slug

/-- The rules that let a grantee read a secret. -/
def SharedSecret.rules (secret : SharedSecret) : List Rule :=
  [⟨"secret/data/" ++ secret.path, ["read"]⟩,
    ⟨"secret/metadata/" ++ secret.path, ["read", "list"]⟩]

/-- Who a policy is for. -/
structure Grantee where
  type : String
  id : String
  deriving DecidableEq, Repr

/-- A `SharedSecretGrant` row. -/
structure SharedSecretGrant where
  id : String
  secretId : String
  grantee : Grantee
  capability : String
  created_by : Option String
  deriving DecidableEq, Repr

abbrev GrantTable : Type := Table SharedSecretGrant [SharedSecretGrant.id]

/-- The rules of the secret with an id. -/
def rulesFor (secrets : List SharedSecret) (secretId : String) : List Rule :=
  match secrets.find? fun secret => secret.id == secretId with
  | some secret => secret.rules
  | none => []

/-- The rules for the grants that were read. -/
def sharedPolicyRules (secrets : List SharedSecret) (grants : List SharedSecretGrant) : List Rule :=
  grants.flatMap fun grant => rulesFor secrets grant.secretId

def allCapabilities : List String := ["create", "read", "update", "delete", "list"]

def userRules (uid : String) : List Rule :=
  ["secret/data/users/" ++ uid, "secret/data/users/" ++ uid ++ "/*",
    "secret/metadata/users/" ++ uid, "secret/metadata/users/" ++ uid ++ "/",
    "secret/metadata/users/" ++ uid ++ "/*",
    "secret/data/shared/" ++ uid, "secret/data/shared/" ++ uid ++ "/*",
    "secret/metadata/shared/" ++ uid, "secret/metadata/shared/" ++ uid ++ "/",
    "secret/metadata/shared/" ++ uid ++ "/*"].map fun path => ⟨path, allCapabilities⟩

def appRules (name : String) : List Rule :=
  ["secret/data/apps/" ++ name, "secret/data/apps/" ++ name ++ "/*",
    "secret/metadata/apps/" ++ name, "secret/metadata/apps/" ++ name ++ "/",
    "secret/metadata/apps/" ++ name ++ "/*"].map fun path => ⟨path, allCapabilities⟩

/-- What a grantee may do without any grant. -/
def Grantee.ownRules (grantee : Grantee) : List Rule :=
  if grantee.type = "user" then userRules grantee.id else appRules grantee.id

/-- `userPolicyHcl` and `appPolicyHcl` -/
def Grantee.policyHcl (secrets : List SharedSecret) (grantee : Grantee)
    (grants : List SharedSecretGrant) : Policy :=
  grantee.ownRules ++ sharedPolicyRules secrets grants

/-- The name of a grantee's policy.  There is none for other types. -/
def Grantee.policyName (grantee : Grantee) : Option String :=
  if grantee.type = "user" then some ("user-" ++ grantee.id)
  else if grantee.type = "app" then some ("app-" ++ grantee.id)
  else none

/-- The stored grants, and the policies in OpenBao by name. -/
structure State where
  grants : GrantTable
  policies : String → Option Policy

/-- What the environment supplies to a turn. -/
structure Outcome where
  /-- What the call waits for succeeds. -/
  ok : Bool
  /-- The message of the error, if it does not. -/
  error : String
  uuid : String

/-! ## Rebuilding a policy -/

/-- Where a rebuild stands: the grants it has read, and the policy made of them. -/
inductive Rebuilding where
  /-- `SharedSecretGrant.listForGrantee` -/
  | listing
  /-- `SharedSecret.list` -/
  | resolving (grants : List SharedSecretGrant)
  /-- The GET of `ensurePolicy`. -/
  | comparing (grants : List SharedSecretGrant) (hcl : Policy)
  /-- The PUT of `ensurePolicy`. -/
  | writing (grants : List SharedSecretGrant) (hcl : Policy)
  deriving DecidableEq, Repr

/-- What a policy is rebuilt for. -/
inductive Task where
  | grant (grant : SharedSecretGrant)
  | revoke (grant : SharedSecretGrant)
  /-- A token of the grantee is fetched or minted. -/
  | fetch (grantee : Grantee)
  deriving DecidableEq, Repr

def Task.grantee : Task → Grantee
  | .grant row => row.grantee
  | .revoke row => row.grantee
  | .fetch grantee => grantee

inductive Call where
  /-- `SharedSecretGrant.create` -/
  | creating (secretId : String) (grantee : Grantee) (actorUid : Option String)
  /-- `SharedSecretGrant.get` -/
  | getting (grantId : String)
  /-- `grant.delete` -/
  | deleting (grant : SharedSecretGrant)
  | rebuilding (task : Task) (phase : Rebuilding)
  /-- The rebuild is over, and the call has nothing to do with policies any more. -/
  | returned (task : Task)
  /-- There was no grant to revoke. -/
  | vacuous
  | thrown (task : Option Task) (message : String)
  deriving DecidableEq, Repr

/-- `reconcileGrantee` -/
def Task.reconcile (task : Task) : Call :=
  match task.grantee.policyName with
  | some _ => .rebuilding task .listing
  | none => .thrown (some task) ("invalid granteeType: " ++ task.grantee.type)

/-- One turn of a rebuild. -/
def Rebuilding.turn (secrets : List SharedSecret) (outcome : Outcome) (task : Task)
    (vault : State) : Rebuilding → State × Call
  | .listing =>
      if outcome.ok then
        match vault.grants.rows.filter fun grant => grant.grantee = task.grantee with
        | [] => (vault, .rebuilding task (.comparing [] (task.grantee.policyHcl secrets [])))
        | grant :: grants => (vault, .rebuilding task (.resolving (grant :: grants)))
      else (vault, .thrown (some task) outcome.error)
  | .resolving grants =>
      if outcome.ok then
        (vault, .rebuilding task (.comparing grants (task.grantee.policyHcl secrets grants)))
      else (vault, .thrown (some task) outcome.error)
  | .comparing grants hcl =>
      if outcome.ok = true ∧ task.grantee.policyName.bind vault.policies = some hcl then
        (vault, .returned task)
      else (vault, .rebuilding task (.writing grants hcl))
  | .writing _ hcl =>
      -- a failed write is swallowed
      match task.grantee.policyName with
      | some name =>
          (if outcome.ok then
              { vault with policies := Function.update vault.policies name (some hcl) }
            else vault,
            .returned task)
      | none => (vault, .returned task)

/-! ## All calls -/

inductive Input where
  | grantSharedSecret (secretId : String) (grantee : Grantee) (actorUid : Option String)
  | revokeSharedSecret (grantId : String)
  /-- The rebuild of `getOrCreateUserToken` and `mintAppToken`. -/
  | fetchToken (grantee : Grantee)

/-- `/^[A-Za-z0-9._-]{1,64}$/` -/
def validUid (uid : String) : Bool :=
  uid != "" && uid.length ≤ 64 &&
    uid.toList.all fun char => char.isAlphanum || char == '.' || char == '_' || char == '-'

/-- `/^[a-z0-9][a-z0-9-]{0,62}$/` -/
def validAppName (name : String) : Bool :=
  match name.toList with
  | first :: rest =>
      isSlugChar first && rest.length ≤ 62 && rest.all fun char => isSlugChar char || char == '-'
  | [] => false

/-- The check before the rebuild for a token. -/
def Grantee.fetch (grantee : Grantee) : Call :=
  if grantee.type = "user" then
    if validUid grantee.id then (Task.fetch grantee).reconcile
    else .thrown none ("invalid uid for vault token: " ++ grantee.id)
  else if validAppName grantee.id then (Task.fetch grantee).reconcile
  else .thrown none "invalid app name (lowercase letters, digits, hyphens; max 63 chars)"

/-- The calls of the broker that write grants or policies.  None of them changes the secrets. -/
def broker (secrets : List SharedSecret) : Protocol State Call Input Outcome where
  call
    | .grantSharedSecret secretId grantee actorUid, vault =>
        (vault, .creating secretId grantee actorUid)
    | .revokeSharedSecret grantId, vault => (vault, .getting grantId)
    | .fetchToken grantee, vault => (vault, grantee.fetch)
  turn outcome vault
    | .creating secretId grantee actorUid =>
        let grant : SharedSecretGrant := ⟨outcome.uuid, secretId, grantee, "read", actorUid⟩
        match vault.grants.insert grant with
        | some grants =>
            if outcome.ok then ({ vault with grants := grants }, (Task.grant grant).reconcile)
            else (vault, .thrown none outcome.error)
        | none => (vault, .thrown none outcome.error)
    | .getting grantId =>
        if outcome.ok then
          match vault.grants.rows.find? fun grant => grant.id == grantId with
          | some grant => (vault, .deleting grant)
          | none => (vault, .vacuous)
        else (vault, .thrown none outcome.error)
    | .deleting grant =>
        if outcome.ok then
          ({ vault with grants := vault.grants.remove fun row => row.id == grant.id },
            (Task.revoke grant).reconcile)
        else (vault, .thrown none outcome.error)
    | .rebuilding task phase => phase.turn secrets outcome task vault
    | .returned task => (vault, .returned task)
    | .vacuous => (vault, .vacuous)
    | .thrown task message => (vault, .thrown task message)

def start (grants : GrantTable) (policies : String → Option Policy) : Pool State Call :=
  ⟨⟨grants, policies⟩, []⟩

end ThetaDirectory.Vault
