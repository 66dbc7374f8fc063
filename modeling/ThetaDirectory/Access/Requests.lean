import ThetaDirectory.Library.Interleaving
import ThetaDirectory.Library.Table
import ThetaDirectory.Text

/-!
# Access requests

The `AccessRequest` rows of `models/access_request.js` and the handlers of
`routes/access_request.js`, as calls that take one turn for each operation they wait for.
Notifications come after the last write of a handler.
-/

namespace ThetaDirectory.Access.Requests

open Library Library.Interleaving

inductive Status where
  | pending
  | approved
  | denied
  | cancelled
  deriving DecidableEq, Repr

def Status.text : Status → String
  | .pending => "pending"
  | .approved => "approved"
  | .denied => "denied"
  | .cancelled => "cancelled"

/-- An `AccessRequest` row. -/
structure AccessRequest where
  id : String
  uid : String
  resourceId : String
  groupCn : String
  status : Status
  note : String
  requestedOn : Nat
  decidedBy : Option String
  decidedOn : Option Nat
  decisionNote : Option String
  deriving DecidableEq, Repr

abbrev RequestTable : Type := Table AccessRequest [AccessRequest.id]

/-- The request that blocks a new one. -/
def findOpen (rows : List AccessRequest) (uid groupCn : String) : Option AccessRequest :=
  rows.find? fun row => row.uid == uid && row.groupCn == groupCn && row.status == .pending

/-- The rows, and who is in which group. -/
structure Directory where
  requests : RequestTable
  members : List (String × String)

/-- What the handlers read of a resource. -/
structure Resource where
  id : String
  owner : Option String
  /-- `metadata.requestable` is not `false`. -/
  requestable : Bool
  deriving DecidableEq, Repr

structure ResourceGroup where
  groupCn : String
  accessLevel : String
  deriving DecidableEq, Repr

/-- The reply of a handler that does not succeed. -/
structure Refusal where
  status : Nat
  message : String
  deriving DecidableEq, Repr

/-- What the environment supplies to a turn. -/
structure Outcome where
  /-- What the handler waits for succeeds. -/
  ok : Bool
  /-- The message of the error, if it does not. -/
  error : String
  now : Nat
  uuid : String
  resource : Option Resource
  links : List ResourceGroup
  callerGroups : List String
  /-- The resource is among the caller's accessible ones. -/
  reachable : Bool

def Outcome.failure (outcome : Outcome) : Refusal := ⟨500, outcome.error⟩

def DIRECTORY_ADMIN_GROUPS : List String :=
  ["app_sso_directory_admin", "app_sso_admin", "app_super_admin"]

def canDecide (user : String) (resource : Option Resource) (callerGroups : List String) : Bool :=
  (match resource with
    | some resource => truthy resource.owner == some user
    | none => false) ||
  callerGroups.any DIRECTORY_ADMIN_GROUPS.contains

def resolveGroupCn (links : List ResourceGroup) (requested : Option String) :
    Except Refusal String :=
  match links with
  | [] => .error ⟨409, "This resource has no access group linked, so it cannot be requested."⟩
  | first :: _ =>
      match truthy requested with
      | some requested =>
          match links.find? fun link => link.groupCn == requested with
          | some found => .ok found.groupCn
          | none => .error
              ⟨400, "\"" ++ requested ++ "\" is not an access group for this resource."⟩
      | none => .ok ((links.find? fun link => link.accessLevel == "member").getD first).groupCn

/-! ## Creating a request -/

structure Creation where
  uid : String
  isMachine : Bool
  groupCn : Option String
  note : Option String
  deriving DecidableEq, Repr

inductive Creating where
  | finding
  | linking (resource : Resource)
  | memberships (resource : Resource) (groupCn : String)
  | reaching (resource : Resource) (groupCn : String)
  /-- `AccessRequest.findOpen` -/
  | opening (resource : Resource) (groupCn : String)
  /-- `AccessRequest.create` -/
  | creating (resource : Resource) (groupCn : String)
  | created (request : AccessRequest)
  | refused (refusal : Refusal)
  deriving DecidableEq, Repr

def Creation.row (creation : Creation) (outcome : Outcome) (resource : Resource)
    (groupCn : String) : AccessRequest where
  id := outcome.uuid
  uid := creation.uid
  resourceId := resource.id
  groupCn := groupCn
  status := .pending
  note := creation.note.getD ""
  requestedOn := outcome.now
  decidedBy := none
  decidedOn := none
  decisionNote := none

def Creation.start (creation : Creation) : Creating :=
  if creation.isMachine then .refused ⟨403, "Machine accounts cannot request access."⟩
  else .finding

/-- One turn of `POST /api/access-requests`. -/
def Creation.turn (outcome : Outcome) (creation : Creation) (directory : Directory) :
    Creating → Directory × Creating
  | .finding =>
      if outcome.ok then
        match outcome.resource with
        | none => (directory, .refused ⟨404, "Resource not found"⟩)
        | some resource =>
            if resource.requestable then (directory, .linking resource)
            else (directory,
              .refused ⟨409, "This resource is not available for self-service requests."⟩)
      else (directory, .refused outcome.failure)
  | .linking resource =>
      if outcome.ok then
        match resolveGroupCn outcome.links creation.groupCn with
        | .ok groupCn => (directory, .memberships resource groupCn)
        | .error refusal => (directory, .refused refusal)
      else (directory, .refused outcome.failure)
  | .memberships resource groupCn =>
      if outcome.callerGroups.contains groupCn then
        (directory, .refused ⟨409, "You already have access to this resource."⟩)
      else (directory, .reaching resource groupCn)
  | .reaching resource groupCn =>
      -- a check that fails does not block the request
      if outcome.ok && outcome.reachable then
        (directory, .refused ⟨409, "You already have access to this resource."⟩)
      else (directory, .opening resource groupCn)
  | .opening resource groupCn =>
      if outcome.ok then
        match findOpen directory.requests.rows creation.uid groupCn with
        | some _ => (directory,
            .refused ⟨409, "You already have a pending request for this resource."⟩)
        | none => (directory, .creating resource groupCn)
      else (directory, .refused outcome.failure)
  | .creating resource groupCn =>
      if outcome.ok then
        let request := creation.row outcome resource groupCn
        match directory.requests.insert request with
        | some requests => ({ directory with requests := requests }, .created request)
        | none => (directory, .refused outcome.failure)
      else (directory, .refused outcome.failure)
  | .created request => (directory, .created request)
  | .refused refusal => (directory, .refused refusal)

/-! ## Deciding a request -/

inductive Verdict where
  | approve
  | deny
  | cancel
  deriving DecidableEq, Repr

def Verdict.status : Verdict → Status
  | .approve => .approved
  | .deny => .denied
  | .cancel => .cancelled

structure Decision where
  verdict : Verdict
  id : String
  /-- The caller. -/
  uid : String
  decisionNote : Option String
  deriving DecidableEq, Repr

/-- What `addMember` came to: the user was added, or a member before. -/
inductive Membership where
  | added
  | already
  deriving DecidableEq, Repr

inductive Deciding where
  /-- `AccessRequest.get` -/
  | getting
  | gettingResource (request : AccessRequest)
  /-- `groupCns` -/
  | authorizing (request : AccessRequest) (resource : Option Resource)
  /-- `Group.get` -/
  | gettingGroup (request : AccessRequest)
  /-- `User.get` -/
  | gettingUser (request : AccessRequest)
  /-- `addMember` -/
  | adding (request : AccessRequest)
  /-- `request.update`, for an approval after `addMember`. -/
  | saving (request : AccessRequest) (membership : Option Membership)
  | decided (request : AccessRequest) (membership : Option Membership)
  | refused (refusal : Refusal) (membership : Option Membership)
  deriving DecidableEq, Repr

/-- What a handler checks of the row it has got. -/
def Decision.check (decision : Decision) (rows : List AccessRequest) :
    Except Refusal AccessRequest :=
  match rows.find? fun row => row.id == decision.id with
  | none => .error ⟨404, "Request not found"⟩
  | some request =>
      if decision.verdict = .cancel ∧ request.uid ≠ decision.uid then
        .error ⟨403, "You can only withdraw your own requests."⟩
      else if request.status ≠ .pending then
        .error ⟨409, "This request was already " ++ request.status.text ++ "."⟩
      else .ok request

/-- The columns a handler updates. -/
def Decision.onto (decision : Decision) (now : Nat) (row : AccessRequest) : AccessRequest :=
  match decision.verdict with
  | .cancel => { row with status := .cancelled, decidedOn := some now }
  | .approve | .deny =>
      { row with
        status := decision.verdict.status
        decidedBy := some decision.uid
        decidedOn := some now
        decisionNote := some (decision.decisionNote.getD "") }

/-- One turn of the approve, deny and cancel handlers. -/
def Decision.turn (outcome : Outcome) (decision : Decision) (directory : Directory) :
    Deciding → Directory × Deciding
  | .getting =>
      if outcome.ok then
        match decision.check directory.requests.rows with
        | .error refusal => (directory, .refused refusal none)
        | .ok request =>
            (directory, match decision.verdict with
              | .cancel => .saving request none
              | .approve | .deny => .gettingResource request)
      else (directory, .refused outcome.failure none)
  | .gettingResource request =>
      if outcome.ok then (directory, .authorizing request outcome.resource)
      else (directory, .refused outcome.failure none)
  | .authorizing request resource =>
      if canDecide decision.uid resource outcome.callerGroups then
        (directory, match decision.verdict with
          | .approve => .gettingGroup request
          | .deny | .cancel => .saving request none)
      else (directory,
        .refused ⟨403, "You do not have permission to decide this request."⟩ none)
  | .gettingGroup request =>
      if outcome.ok then (directory, .gettingUser request)
      else (directory, .refused outcome.failure none)
  | .gettingUser request =>
      if outcome.ok then (directory, .adding request)
      else (directory, .refused outcome.failure none)
  | .adding request =>
      if outcome.ok then
        -- "already a member" is the goal state, not a failure
        if directory.members.contains (request.uid, request.groupCn) then
          (directory, .saving request (some .already))
        else
          ({ directory with members := directory.members ++ [(request.uid, request.groupCn)] },
            .saving request (some .added))
      else (directory, .refused outcome.failure none)
  | .saving request membership =>
      if outcome.ok then
        match directory.requests.update (fun row => row.id == request.id)
            (decision.onto outcome.now) with
        | some requests => ({ directory with requests := requests },
            .decided (decision.onto outcome.now request) membership)
        | none => (directory, .refused outcome.failure membership)
      else (directory, .refused outcome.failure membership)
  | .decided request membership => (directory, .decided request membership)
  | .refused refusal membership => (directory, .refused refusal membership)

/-! ## All calls -/

inductive Input where
  | create (creation : Creation)
  | decide (decision : Decision)
  /-- Whatever else changes the members of groups. -/
  | setMembers (members : List (String × String))

inductive Call where
  | creation (creation : Creation) (phase : Creating)
  | decision (decision : Decision) (phase : Deciding)
  | done
  deriving DecidableEq, Repr

/-- The handlers of the router. -/
def handlers : Protocol Directory Call Input Outcome where
  call
    | .create creation, directory => (directory, .creation creation creation.start)
    | .decide decision, directory => (directory, .decision decision .getting)
    | .setMembers members, directory => ({ directory with members := members }, .done)
  turn outcome directory
    | .creation creation phase =>
        let (directory, next) := creation.turn outcome directory phase
        (directory, .creation creation next)
    | .decision decision phase =>
        let (directory, next) := decision.turn outcome directory phase
        (directory, .decision decision next)
    | .done => (directory, .done)

/-- No request has been made. -/
def start (members : List (String × String)) : Pool Directory Call := ⟨⟨.empty, members⟩, []⟩

end ThetaDirectory.Access.Requests
