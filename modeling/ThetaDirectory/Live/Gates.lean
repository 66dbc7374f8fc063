import ThetaDirectory.Catalog.Json
import ThetaDirectory.Groups.Naming

/-!
# Read gates

Who may learn of an event, from `utils/socket_pubsub.js`, and what of it is kept for the feed,
from `models/activity_event.js` and `routes/activity.js`.  The sockets and the feed ask the same
gates, but of different records.
-/

namespace ThetaDirectory.Live

open Catalog Groups

def LEGACY_SUPER_ADMIN_ALIASES : List String := ["app_super_admin"]

def isSuperAdmin (memberOfCns : List String) : Bool :=
  memberOfCns.contains godAdmin || memberOfCns.any LEGACY_SUPER_ADMIN_ALIASES.contains

/-- A socket's user: `uid` and `dn`. -/
structure User where
  uid : String
  dn : String
  deriving DecidableEq, Repr

/-- What a gate is asked with. -/
structure Context where
  user : User
  memberOfCns : List String
  isSuperAdmin : Bool
  deriving DecidableEq, Repr

/-- `contextForUser`; a membership that cannot be resolved counts as none. -/
def contextForUser (user : User) (resolved : Option (List String)) : Context :=
  let memberOfCns := resolved.getD []
  ⟨user, memberOfCns, isSuperAdmin memberOfCns⟩

/-- A gate is asked for a record and its primary key. -/
abbrev Gate := Context → Json → Json → Bool

def DIRECTORY_ADMIN_GROUPS : List String := ["app_sso_directory_admin", "app_sso_admin"]

def isDirectoryAdmin (ctx : Context) : Bool :=
  ctx.isSuperAdmin || DIRECTORY_ADMIN_GROUPS.any ctx.memberOfCns.contains

/-- The operator `||`. -/
def orElse (value other : Json) : Json := if value.isTruthy then value else other

/-- The chain of `||` over some fields of a record. -/
def firstOf (fields : List String) (record : Json) : Json :=
  fields.foldr (fun field rest => orElse (record.get field) rest) .null

/-- The test `!!self && !!owner && String(owner) === String(self)`. -/
def isSelf (ctx : Context) (owner : Json) : Bool :=
  ctx.user.uid != "" && owner.isTruthy && owner.text == ctx.user.uid

/-- A gate for directory admins. -/
def adminGate : Gate := fun ctx _ _ => isDirectoryAdmin ctx

/-- A gate for directory admins and the owner that one of the fields names. -/
def ownerGate (fields : List String) : Gate := fun ctx record _ =>
  isDirectoryAdmin ctx || isSelf ctx (firstOf fields record)

namespace READERS

def Resource : Gate := adminGate
def ResourceGroup : Gate := adminGate
def PluginInstance : Gate := adminGate
def ResourceEdge : Gate := adminGate
def Group : Gate := fun _ _ _ => true

/-- Without an owner's name in the record the subject is the key. -/
def User : Gate := fun ctx record pk =>
  isDirectoryAdmin ctx || ctx.memberOfCns.contains "app_sso_admin" ||
    isSelf ctx (orElse (firstOf ["uid", "username"] record) pk)

def Notification : Gate := ownerGate ["uid", "created_by", "username"]

/-- The one gate without a way past it for admins. -/
def ApiToken : Gate := fun ctx record _ => isSelf ctx (firstOf ["created_by", "uid"] record)

def MeshClient : Gate := ownerGate ["uid", "username", "created_by"]
def MeshSite : Gate := adminGate
def MeshExitGrant : Gate := adminGate
def AccessRequest : Gate := ownerGate ["uid", "requestedBy", "created_by"]
def Agent : Gate := adminGate
def SubtypeTemplate : Gate := adminGate

end READERS

/-- `READERS`. -/
def readers : List (String × Gate) :=
  [("Resource", READERS.Resource), ("ResourceGroup", READERS.ResourceGroup),
    ("PluginInstance", READERS.PluginInstance), ("ResourceEdge", READERS.ResourceEdge),
    ("Group", READERS.Group), ("User", READERS.User), ("Notification", READERS.Notification),
    ("ApiToken", READERS.ApiToken), ("MeshClient", READERS.MeshClient),
    ("MeshSite", READERS.MeshSite), ("MeshExitGrant", READERS.MeshExitGrant),
    ("AccessRequest", READERS.AccessRequest), ("Agent", READERS.Agent),
    ("SubtypeTemplate", READERS.SubtypeTemplate)]

def LIVE_MODELS : List String := readers.map Prod.fst

def AGENT_ADMIN_GROUPS : List String :=
  ["app_sso_admin", "app_super_admin", "app_sso_directory_admin"]

def isAgentAdmin : Gate := fun ctx _ _ =>
  ctx.isSuperAdmin || AGENT_ADMIN_GROUPS.any ctx.memberOfCns.contains

/-- `CHANNELS`. -/
def channels : List (String × Gate) :=
  [("agent.telemetry", isAgentAdmin), ("agent.discovery", isAgentAdmin),
    ("agent.response", isAgentAdmin)]

theorem mem_of_lookup {gates : List (String × Gate)} {name : String} {gate : Gate}
    (found : gates.lookup name = some gate) : (name, gate) ∈ gates := by
  obtain ⟨front, back, listed, -⟩ := List.lookup_eq_some_iff.mp found
  rw [listed]
  exact List.mem_append_right front List.mem_cons_self

/-! ## Topics -/

structure Topic where
  model : String
  action : String
  pk : Option String
  deriving DecidableEq, Repr

/-- The primary key may hold colons. -/
def parseTopic (topic : String) : Option Topic :=
  match splitAt ':' topic with
  | "model" :: model :: action :: rest =>
      some ⟨model, action, if rest = [] then none else some (":".intercalate rest)⟩
  | _ => none

inductive Action where
  | create
  | update
  | delete
  deriving DecidableEq, Repr

def Action.text : Action → String
  | .create => "create"
  | .update => "update"
  | .delete => "delete"

/-- What a model announces of one of its records. -/
structure Change where
  model : String
  action : Action
  pk : Json
  data : Json
  deriving Repr

/-- The payload of `emit`; a delete carries no record. -/
def Change.payload (change : Change) : Json :=
  .obj [("model", .str change.model), ("action", .str change.action.text), ("pk", change.pk),
    ("data", if change.action = .delete then .null else change.data)]

def Change.topic (change : Change) : String := "model:" ++ change.model ++ ":" ++ change.action.text

/-! ## The feed -/

/-- A row of `ActivityEvent`. -/
structure ActivityEvent where
  model : String
  action : String
  target : String
  actor : String
  owner : String
  deriving DecidableEq, Repr

def ACTOR_FIELDS : List String := ["updated_by", "created_by", "actor", "uid"]

def OWNER_FIELDS : List String := ["created_by", "uid", "username", "owner", "requestedBy"]

def PLACEHOLDERS : List String := ["__NONE__", "undefined", "null"]

def picks : Json → Bool
  | .null => false
  | value => !value.isStr "" && !PLACEHOLDERS.contains value.text

def pick (record : Json) (fields : List String) : String :=
  (((fields.map record.get).find? picks).map Json.text).getD ""

def targetOf : Json → String
  | .null => ""
  | pk => pk.text

/-- `record`: an event without a model or an action is not kept. -/
def record (event : Json) : Option ActivityEvent :=
  if (event.get "model").isTruthy && (event.get "action").isTruthy then
    some {
      model := (event.get "model").text
      action := (event.get "action").text
      target := targetOf (event.get "pk")
      actor := pick (event.get "data") ACTOR_FIELDS
      owner := pick (event.get "data") OWNER_FIELDS }
  else none

/-- `event.owner || undefined`. -/
def orUndefined (text : String) : Json := if text = "" then .null else .str text

/-- The record that the feed shows to a gate. -/
def ActivityEvent.fields (event : ActivityEvent) : Json :=
  .obj [("uid", orUndefined event.owner), ("username", orUndefined event.owner),
    ("created_by", orUndefined event.owner), ("host", orUndefined event.target)]

def visibleTo (ctx : Context) (event : ActivityEvent) : Bool :=
  match readers.lookup event.model with
  | some canRead => canRead ctx event.fields (.str event.target)
  | none => false

end ThetaDirectory.Live
