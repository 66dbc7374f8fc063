import ThetaDirectory.Library.Interleaving
import ThetaDirectory.Library.Table
import ThetaDirectory.Text

/-!
# Invitations

The `InviteToken` rows of `models/token.js` and the `addByInvite` of `models/user_ldap.js`, as
calls that take one turn for each operation they wait for.  The group memberships and flags of
the new account count as one.
-/

namespace ThetaDirectory.Accounts

open Library Library.Interleaving

/-- An `InviteToken` row. -/
structure InviteToken where
  token : String
  created_by : String
  created_on : Nat
  is_valid : Bool
  claimed_by : String
  mail : String
  mail_token : String
  groups : String
  deriving DecidableEq, Repr

abbrev InviteTable : Type := Table InviteToken [InviteToken.token]

/-- What the account checks read of an LDAP user. -/
structure User where
  uid : String
  mail : String
  mobile : Option String
  deriving DecidableEq, Repr

structure Directory where
  invites : InviteTable
  users : List User

/-- The error of a request. -/
structure Refusal where
  status : Nat
  message : String
  deriving DecidableEq, Repr

/-- What the environment supplies to a turn. -/
structure Outcome where
  /-- What the call waits for succeeds. -/
  ok : Bool
  /-- The error, if it does not. -/
  failure : Refusal
  /-- The free user names made of the names and birthday. -/
  suggestions : List String

/-- The body of `POST /invite/:token/:mailToken`. -/
structure Application where
  token : String
  mailToken : String
  uid : Option String
  mobile : Option String
  deriving DecidableEq, Repr

/-- Where a request stands, with the token it has read. -/
inductive Phase where
  /-- `InviteToken.get` -/
  | fetching
  /-- `this.get(token.created_by)` -/
  | inviting (token : InviteToken)
  /-- `usernameSuggestions` -/
  | suggesting (token : InviteToken)
  | checkingMail (token : InviteToken) (uid : String)
  | checkingMobile (token : InviteToken) (uid : String)
  /-- `addLdapUser` -/
  | adding (token : InviteToken) (uid : String)
  /-- `this.get(data.uid)`, of the account that has been made. -/
  | reading (token : InviteToken) (uid : String)
  /-- `UserVerification.getOrCreate` -/
  | verifying (token : InviteToken) (uid : String)
  /-- `token.consume` -/
  | consuming (token : InviteToken) (uid : String)
  | finishing (uid : String)
  | created (uid : String)
  /-- No account was made. -/
  | refused (refusal : Refusal)
  /-- An account was made, but the request failed before or after it consumed the token. -/
  | broken (refusal : Refusal) (consumed : Bool)
  deriving DecidableEq, Repr

namespace Application

/-- The check of a token that was read. -/
def admits (application : Application) (token : InviteToken) : Bool :=
  token.is_valid && application.mailToken == token.mail_token && token.claimed_by == "__NONE__"

def notValid (application : Application) : Refusal :=
  ⟨401, "Token is not valid or has already been used. " ++ application.token⟩

/-- The columns `consume` updates. -/
def claim (uid : String) (row : InviteToken) : InviteToken :=
  { row with claimed_by := uid, is_valid := false }

/-- One turn of `addByInvite`. -/
def turn (outcome : Outcome) (application : Application) (directory : Directory) :
    Phase → Directory × Phase
  | .fetching =>
      if outcome.ok then
        match directory.invites.rows.find? fun row => row.token == application.token with
        | some token =>
            if application.admits token then (directory, .inviting token)
            else (directory, .refused application.notValid)
        | none => (directory, .refused outcome.failure)
      else (directory, .refused outcome.failure)
  -- an inviter who no longer exists leaves the manager unset
  | .inviting token => (directory, .suggesting token)
  | .suggesting token =>
      if outcome.ok then
        match application.uid with
        | some uid =>
            if uid ≠ "" ∧ uid ∈ outcome.suggestions then (directory, .checkingMail token uid)
            else (directory, .refused ⟨400, "Invalid username selection"⟩)
        | none => (directory, .refused ⟨400, "Invalid username selection"⟩)
      else (directory, .refused outcome.failure)
  | .checkingMail token uid =>
      if outcome.ok then
        if token.mail ≠ "" ∧ directory.users.any (·.mail == token.mail) = true then
          (directory, .refused ⟨409, "Email already in use"⟩)
        else (directory, .checkingMobile token uid)
      else (directory, .refused outcome.failure)
  | .checkingMobile token uid =>
      if outcome.ok then
        match truthy application.mobile with
        | some mobile =>
            if directory.users.any (·.mobile == some mobile) then
              (directory, .refused ⟨409, "Phone number already in use"⟩)
            else (directory, .adding token uid)
        | none => (directory, .adding token uid)
      else (directory, .refused outcome.failure)
  | .adding token uid =>
      if outcome.ok then
        if directory.users.any (·.uid == uid) then
          (directory, .refused ⟨409, "LDAP:" ++ uid ++ " already exists"⟩)
        else
          ({ directory with users := directory.users ++ [⟨uid, token.mail, application.mobile⟩] },
            .reading token uid)
      else (directory, .refused outcome.failure)
  | .reading token uid =>
      if outcome.ok then (directory, .verifying token uid)
      else (directory, .broken outcome.failure false)
  | .verifying token uid =>
      if outcome.ok then (directory, .consuming token uid)
      else (directory, .broken outcome.failure false)
  | .consuming token uid =>
      -- `consume` looks at the token as it was read, which was valid
      if outcome.ok then
        match directory.invites.update (fun row => row.token == token.token) (claim uid) with
        | some invites => ({ directory with invites := invites }, .finishing uid)
        | none => (directory, .broken outcome.failure false)
      else (directory, .broken outcome.failure false)
  | .finishing uid =>
      if outcome.ok then (directory, .created uid)
      else (directory, .broken outcome.failure true)
  | .created uid => (directory, .created uid)
  | .refused refusal => (directory, .refused refusal)
  | .broken refusal consumed => (directory, .broken refusal consumed)

end Application

/-! ## All calls -/

/-- Columns of an invite that `verifyEmail` and `PUT /invite/:token` write. -/
structure InvitePatch where
  mail : Option String
  mail_token : Option String
  groups : Option String
  deriving DecidableEq, Repr

def InvitePatch.onto (patch : InvitePatch) (row : InviteToken) : InviteToken :=
  { row with
    mail := patch.mail.getD row.mail
    mail_token := patch.mail_token.getD row.mail_token
    groups := patch.groups.getD row.groups }

inductive Input where
  | addByInvite (application : Application)
  /-- `InviteToken.create` with its defaults. -/
  | invite (token createdBy : String) (now : Nat) (groups : String)
  | editInvite (token : String) (patch : InvitePatch)
  /-- `DELETE /invite/:token` -/
  | withdraw (token : String)
  /-- Whatever else writes the accounts. -/
  | setUsers (users : List User)

inductive Call where
  | request (application : Application) (phase : Phase)
  | done
  deriving DecidableEq, Repr

/-- A write of the invites, which stay as they are if it fails. -/
def Directory.writeInvites (directory : Directory) (write : InviteTable → Option InviteTable) :
    Directory :=
  { directory with invites := (write directory.invites).getD directory.invites }

/-- Requests that present invites, and what else writes invites and accounts. -/
def signup : Protocol Directory Call Input Outcome where
  call
    | .addByInvite application, directory => (directory, .request application .fetching)
    | .invite token createdBy now groups, directory =>
        (directory.writeInvites (Table.insert
          ⟨token, createdBy, now, true, "__NONE__", "__NONE__", "__NONE__", groups⟩), .done)
    | .editInvite token patch, directory =>
        (directory.writeInvites (Table.update (fun row => row.token == token) patch.onto), .done)
    | .withdraw token, directory =>
        (directory.writeInvites (Table.update (fun row => row.token == token)
          fun row => { row with is_valid := false }), .done)
    | .setUsers users, directory => ({ directory with users := users }, .done)
  turn outcome directory
    | .request application phase =>
        let (directory, next) := application.turn outcome directory phase
        (directory, .request application next)
    | .done => (directory, .done)

def start (invites : InviteTable) (users : List User) : Pool Directory Call := ⟨⟨invites, users⟩, []⟩

end ThetaDirectory.Accounts
