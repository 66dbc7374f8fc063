import ThetaDirectory.Accounts.Rollback
import ThetaDirectory.Library.Effect
import ThetaDirectory.Migration.Plan

/-!
# Applying a plan

`applyPlan` of `utils/ldif_import.js`, with the calls of the user, group and verification models that
it makes.  What becomes of each of their operations is an input: it happens, it throws and changes
nothing, or the process stops before it.
-/

namespace ThetaDirectory.Migration

open Accounts

structure Verification where
  uid : String
  email_verified : Bool := false
  tos_accepted : Bool := false
  password_must_change : Bool := false
  deriving DecidableEq

inductive Fate where
  | happens
  | fails (error : AddError)
  | stops

/-- The stores, and what becomes of the next operations.  Those behind the list
happen. -/
structure Stores where
  directory : LdapDirectory
  /-- The DNs of the accounts with a `pwdAccountLockedTime`. -/
  locked : List String
  verifications : List Verification
  fates : List Fate

inductive Failure where
  | thrown (error : AddError)
  | stopped

abbrev Importing := EStateM Failure Stores

variable {α : Type}

/-- What the next operation throws. -/
def await : Importing (Option AddError) := fun stores =>
  match stores.fates with
  | [] => .ok none stores
  | .happens :: fates => .ok none { stores with fates := fates }
  | .fails error :: fates => .ok (some error) { stores with fates := fates }
  | .stops :: fates => .error .stopped { stores with fates := fates }

def perform (effect : Importing α) : Importing α := do
  match ← await with
  | some error => throw (.thrown error)
  | none => effect

/-- `try` and `catch`.  A process that stops catches nothing. -/
def catching (action : Importing α) (handler : AddError → Importing α) : Importing α :=
  tryCatch action fun
    | .thrown error => handler error
    | .stopped => throw .stopped

def includes (text part : String) : Bool := part.toList <:+: text.toList

/-! ## Errors of the server -/

def invalidSyntax : AddError :=
  ⟨"InvalidSyntaxError", "The attribute value has an invalid syntax.", none⟩

def noSuchObject : AddError := ⟨"NoSuchObjectError", "The target object cannot be found.", none⟩

def typeOrValueExists : AddError :=
  ⟨"TypeOrValueExistsError", "The attribute value already exists.", none⟩

def objectClassViolation : AddError :=
  ⟨"ObjectClassViolationError", "The attribute is not allowed by the object class.", none⟩

/-! ## Verification rows -/

/-- `UserVerification.getOrCreate` -/
def getOrCreate (uid : String) : Importing Verification := do
  let found ← perform do return (← get).verifications.find? fun row => row.uid == uid
  match found with
  | some row => pure row
  | none => perform do
      modify fun stores => { stores with verifications := stores.verifications ++ [{ uid := uid }] }
      return { uid := uid }

def updateVerification (uid : String) (change : Verification → Verification) : Importing Unit :=
  perform <| modify fun stores => { stores with
    verifications := stores.verifications.map fun row => if row.uid = uid then change row else row }

/-! ## Accounts -/

def digitsOf (digits : List Char) : Option Int :=
  if digits.head? = some '0' ∧ digits ≠ ['0'] then none
  else (readDigits 10 digits).map Int.ofNat

/-- The number of a text with the syntax of an LDAP integer. -/
def readInteger (text : String) : Option Int :=
  match text.toList with
  | '-' :: digits => ((digitsOf digits).filter (· ≠ 0)).map fun number => -number
  | digits => digitsOf digits

/-- `user.field || user.username` -/
def orName (text username : String) : Option String := some (if text = "" then username else text)

/-- The `data` for `User.add`. -/
def newUser (row : PlannedUser) : NewUser where
  uid := some row.username
  uidNumber := readInteger row.uidNumber
  gidNumber := readInteger row.gidNumber
  sn := orName row.fields.sn row.username
  givenName := orName row.fields.givenName row.username
  loginShell := some row.fields.loginShell
  homeDirectory := some row.fields.homeDirectory
  description := some row.fields.description
  location := some row.fields.location
  dob := some row.fields.dateOfBirth
  mail := some row.fields.mail
  mobile := some row.fields.mobile
  sshPublicKey := row.sshPublicKey
  userPassword := some row.userPassword
  sudoHost := row.«sudo».host
  sudoCommand := row.«sudo».command
  sudoUser := row.«sudo».user

/-- What the server throws at numbers that are none. -/
def refusals (row : PlannedUser) : Faults where
  addGroup :=
    if row.gidNumber ≠ "" ∧ readInteger row.gidNumber = none then some invalidSyntax else none
  addAccount :=
    if row.uidNumber ≠ "" ∧ readInteger row.uidNumber = none then some invalidSyntax else none

def importOptions : AddOptions where
  preserveIds := true
  preserveHash := true

variable (conf : LdapConf)

/-- The turns of a call of `User.add`. -/
def addTurns (refused : Faults) : Nat → Adding → Importing Adding
  | 0, adding => pure adding
  | _ + 1, .added data => pure (.added data)
  | _ + 1, .failed error => pure (.failed error)
  | more + 1, adding => do
      let thrown ← await
      let stores ← get
      let turned := adding.turn conf (thrown.or (refused.on adding)) stores.directory
      set { stores with directory := turned.1 }
      addTurns refused more turned.2

def isLegacyMD5 (user : AccountEntry) : Bool :=
  ((user.userPassword.getD "").toList.take 5).map Char.toUpper == "\x7bMD5\x7d".toList

/-- `User.get` -/
def getUser (uid : String) : Importing AccountEntry := do
  let found ← perform do
    return (← get).directory.people.find? fun person => conf.sameValue person.uid uid
  match found with
  | none => throw (.thrown ⟨"UserNotFound", "LDAP:" ++ uid ++ " does not exist", some 404⟩)
  | some user =>
      let verification ← getOrCreate user.uid
      if isLegacyMD5 user && !verification.password_must_change then
        updateVerification user.uid fun row => { row with password_must_change := true }
      pure user

/-- Behind the turns of a call. -/
def readAdded : Adding → Importing AccountEntry
  | .added data => do
      let user ← getUser conf data.uidText
      let _ ← getOrCreate user.uid
      pure user
  | .failed error => throw (.thrown error)
  -- Seven turns end every call.
  | _ => throw .stopped

/-- `User.add` -/
def addUser (row : PlannedUser) : Importing AccountEntry :=
  catching
    (do readAdded conf (← addTurns conf (refusals row) 7 (userAdd conf ⟨newUser row, importOptions⟩)))
    fun error =>
      if includes error.message "exists" then
        throw (.thrown ⟨"UserNameUsed", "LDAP:" ++ finalUid conf importOptions (newUser row) ++
          " already exists", some 409⟩)
      else throw (.thrown error)

/-- `setActive(false)` -/
def deactivate (user : AccountEntry) : Importing Unit :=
  catching
    (perform fun stores =>
      if stores.directory.people.any fun person => person.dn == user.dn then
        .ok () { stores with
          locked := if user.dn ∈ stores.locked then stores.locked else stores.locked ++ [user.dn] }
      else .error (.thrown noSuchObject) stores)
    fun error =>
      if error.name = "UndefinedTypeError" ∨ includes error.message "pwdAccountLockedTime" then
        throw (.thrown ⟨"Error",
          "OpenLDAP ppolicy overlay is not configured. See README for setup instructions.", some 503⟩)
      else throw (.thrown error)

/-! ## Groups -/

/-- `Group.get` -/
def getGroup (name : String) : Importing GroupEntry := do
  let found ← perform do
    return (← get).directory.groups.find? fun group =>
      group.objectclass.contains "groupOfNames" && conf.sameValue group.cn name
  match found with
  | some group => pure group
  | none => throw (.thrown ⟨"GroupNotFound", "LDAP:" ++ name ++ " does not exists", some 404⟩)

end ThetaDirectory.Migration

namespace ThetaDirectory.Accounts

/-- The server changes the group with a DN. -/
def LdapDirectory.modifyGroup (directory : LdapDirectory) (dn : String)
    (change : GroupEntry → Except AddError GroupEntry) : Except AddError LdapDirectory :=
  match directory.groups.find? fun group => group.dn == dn with
  | none => .error Migration.noSuchObject
  | some group => (change group).map fun changed =>
      { directory with
        groups := directory.groups.map fun other => if other.dn = dn then changed else other }

end ThetaDirectory.Accounts

namespace ThetaDirectory.Migration

open Accounts

variable (conf : LdapConf)

def modifyGroup (dn : String) (change : GroupEntry → Except AddError GroupEntry) : Importing Unit :=
  perform fun stores =>
    match stores.directory.modifyGroup dn change with
    | .ok directory => .ok () { stores with directory := directory }
    | .error error => .error (.thrown error) stores

def withMember (dn : String) (group : GroupEntry) : Except AddError GroupEntry :=
  if dn ∈ group.member then .error typeOrValueExists
  else .ok { group with member := group.member ++ [dn] }

/-- `addMember` -/
def addMember (target : GroupEntry) (user : AccountEntry) : Importing Unit :=
  modifyGroup target.dn (withMember user.dn)

def withMemberUid (uid : String) (group : GroupEntry) : Except AddError GroupEntry :=
  if "posixGroup" ∉ group.objectclass then .error objectClassViolation
  else if uid ∈ group.memberUid then .error typeOrValueExists
  else .ok { group with memberUid := group.memberUid ++ [uid] }

/-- `User.addPersonalGroupMember` -/
def addPersonalGroupMember (uid memberUid : String) : Importing Unit := do
  let _ ← getUser conf memberUid
  modifyGroup (groupDn conf uid) (withMemberUid memberUid)

/-! ## The report -/

inductive UserStatus where
  | skipped
  | imported
  | failed
  deriving DecidableEq

structure UserReport where
  username : String
  status : UserStatus
  detail : String
  deriving DecidableEq

inductive GroupStatus where
  | skipped
  | imported
  | partly
  | failed
  deriving DecidableEq

structure GroupReport where
  cn : String
  target : String
  status : GroupStatus
  detail : String
  deriving DecidableEq

structure Report where
  users : List UserReport
  groups : List GroupReport
  deriving DecidableEq

structure Summary where
  imported : Nat
  failed : Nat
  skipped : Nat
  groupsMapped : Nat
  deriving DecidableEq

/-- `report.summary` -/
def Report.summary (report : Report) : Summary where
  imported := report.users.countP fun user => user.status == .imported
  failed := report.users.countP fun user => user.status == .failed
  skipped := report.users.countP fun user => user.status == .skipped
  groupsMapped := report.groups.countP fun group => group.status == .imported || group.status == .partly

/-! ## Users -/

structure ApplyOptions where
  verifyEmail : Bool := false
  acceptTos : Bool := false

/-- `importedByUsername`, the latest account first. -/
abbrev Imported := List (String × AccountEntry)

def PlannedUser.importable (row : PlannedUser) : Bool := row.decision ≠ .reject && row.blocking = []

def importedDetail (row : PlannedUser) : String :=
  ", ".intercalate <|
    ["uid " ++ row.uidNumber, "gid " ++ row.gidNumber,
      if row.passwordScheme = "" then "no password" else
        "password \x7b" ++ row.passwordScheme ++ "\x7d"] ++
    pushIf row.locked "disabled" ++ pushIf (row.decision = .service) "service account"

/-- `if (user.decision === 'service')` -/
def joinService (row : PlannedUser) (created : AccountEntry) : Importing Unit :=
  if row.decision = .service then do
    let service ← getGroup conf "app_sso_service_account"
    catching (addMember service created) fun error =>
      if error.name = "TypeOrValueExistsError" then pure () else throw (.thrown error)
  else pure ()

/-- The verification row. -/
def verifyUser (options : ApplyOptions) (row : PlannedUser) : Importing Unit := do
  let _ ← getOrCreate row.username
  let verifyEmail := options.verifyEmail && row.fields.mail ≠ ""
  if verifyEmail || options.acceptTos then
    updateVerification row.username fun verification => { verification with
      email_verified := verification.email_verified || verifyEmail
      tos_accepted := verification.tos_accepted || options.acceptTos }
  else pure ()

/-- What an account gets behind `User.add`. -/
def settleUser (options : ApplyOptions) (row : PlannedUser) (created : AccountEntry) :
    Importing Unit := do
  joinService conf row created
  verifyUser options row
  if row.locked then deactivate created else pure ()

/-- Behind `User.add` nothing but the status of the row is lost. -/
def reportUser (options : ApplyOptions) (row : PlannedUser) (created : AccountEntry) :
    Importing UserReport :=
  catching
    (do
      settleUser conf options row created
      pure ⟨row.username, .imported, importedDetail row⟩)
    fun error => pure ⟨row.username, .failed, error.message⟩

def importUser (options : ApplyOptions) (row : PlannedUser) :
    Importing (UserReport × Option AccountEntry) :=
  if row.importable then
    catching
      (do
        let created ← addUser conf row
        let report ← reportUser conf options row created
        pure (report, some created))
      fun error => pure (⟨row.username, .failed, error.message⟩, none)
  else
    pure (⟨row.username, .skipped, (truthy row.blocking.head?).getD "rejected by operator"⟩, none)

def Imported.remember (imported : Imported) (username : String) : Option AccountEntry → Imported
  | some created => (lc username, created) :: imported
  | none => imported

def importUsers (options : ApplyOptions) :
    List PlannedUser → Imported → Importing (List UserReport × Imported)
  | [], imported => pure ([], imported)
  | row :: rows, imported => do
      let result ← importUser conf options row
      let rest ← importUsers options rows (Imported.remember imported row.username result.2)
      pure (result.1 :: rest.1, rest.2)

/-! ## Memberships -/

/-- How many members a group got, and what failed. -/
structure Joined where
  added : Nat
  failures : List String

def addMembers (target : GroupEntry) (imported : Imported) : List String → Importing Joined
  | [] => pure ⟨0, []⟩
  | username :: usernames =>
      match imported.lookup (lc username) with
      | none => addMembers target imported usernames
      | some user => do
          let failure ← catching
            (do
              addMember target user
              pure none)
            fun error => pure
              (if error.name = "TypeOrValueExistsError" then none
              else some (username ++ ": " ++ error.message))
          let rest ← addMembers target imported usernames
          match failure with
          | none => pure { rest with added := rest.added + 1 }
          | some text => pure { rest with failures := text :: rest.failures }

def joinedDetail (joined : Joined) : String :=
  toString joined.added ++ " member(s) added" ++
    if joined.failures = [] then "" else "; " ++ toString joined.failures.length ++ " failed"

def mapGroup (imported : Imported) (group : PlannedGroup) : Importing GroupReport :=
  if group.target = "" then pure ⟨group.cn, "", .skipped, "no target group chosen"⟩
  else
    catching
      (do
        let target ← getGroup conf group.target
        let joined ← addMembers target imported group.memberUsernames
        pure ⟨group.cn, group.target, if joined.failures = [] then .imported else .partly,
          joinedDetail joined⟩)
      fun error => pure ⟨group.cn, group.target, .failed, error.message⟩

def mapGroups (imported : Imported) : List PlannedGroup → Importing (List GroupReport)
  | [] => pure []
  | group :: groups => do
      let report ← mapGroup conf imported group
      let reports ← mapGroups imported groups
      pure (report :: reports)

/-- Errors are passed over. -/
def addPersonalMember (imported : Imported) (cn username : String) : Importing Unit :=
  if lc username ≠ lc cn ∧ (imported.lookup (lc username)).isSome then
    catching (addPersonalGroupMember conf cn username) fun _ => pure ()
  else pure ()

def addPersonalMembers (imported : Imported) (cn : String) : List String → Importing Unit
  | [] => pure ()
  | username :: usernames => do
      addPersonalMember conf imported cn username
      addPersonalMembers imported cn usernames

/-- The members of a personal group, if an account of its name was imported. -/
def addPersonalGroup (imported : Imported) (group : PlannedGroup) : Importing Unit :=
  if (imported.lookup (lc group.cn)).isSome then
    addPersonalMembers conf imported group.cn group.memberUsernames
  else pure ()

def addPersonalGroups (imported : Imported) : List PlannedGroup → Importing Unit
  | [] => pure ()
  | group :: groups => do
      addPersonalGroup conf imported group
      addPersonalGroups imported groups

def applyPlan (options : ApplyOptions) (plan : ImportPlan) : Importing Report := do
  let users ← importUsers conf options plan.users []
  let groups ← mapGroups conf users.2 plan.groups
  addPersonalGroups conf users.2 plan.personalGroups
  pure ⟨users.1, groups⟩

/-! ## The staged plan -/

/-- What an operator chooses: decisions by username, targets by the DN of the source group. -/
structure Review where
  decisions : String → Option Decision
  targets : String → Option String

/-- `PUT /:id/users` -/
def withDecision (choice : Option Decision) (user : PlannedUser) : PlannedUser :=
  match choice with
  | none => user
  | some choice =>
      { user with decision := if user.blocking ≠ [] ∧ choice ≠ .reject then .reject else choice }

/-- `PUT /:id/groups` -/
def ImportPlan.reviewed (plan : ImportPlan) (review : Review) : ImportPlan :=
  { plan with
    users := plan.users.map fun user => withDecision (review.decisions user.username) user
    groups := plan.groups.map fun group =>
      { group with target := (review.targets group.sourceDn).getD group.target } }

end ThetaDirectory.Migration
