import Mathlib.Logic.Function.Basic
import ThetaDirectory.Agents.Agent
import ThetaDirectory.Library.Interleaving

/-!
# Join keys

The `AgentJoinKey` rows of `models/agent.js` at the master and the spokes, the connection handler
of `routes/api_agent.js` that exchanges one for an agent, and the copies that `adoptFromMaster`
makes.  A call takes one turn for each database operation it waits for; the enrolment of
an agent, the adoption of one key and the pruning count as one each.
-/

namespace ThetaDirectory.Agents

open Library Library.Interleaving

/-- An `AgentJoinKey` row. -/
structure AgentJoinKey where
  id : String
  label : String
  keyHash : String
  keyPrefix : String
  revoked : Bool
  created_by : Option String
  created_on : Option Nat
  expires_on : Option Nat
  max_uses : Option Nat
  use_count : Nat
  last_used_on : Option Nat
  deriving DecidableEq, Repr

namespace AgentJoinKey

/-- What `max_uses` limits the uses to: a zero is no limit. -/
def limit (key : AgentJoinKey) : Option Nat := key.max_uses.filter (· ≠ 0)

def expired (now : Nat) (key : AgentJoinKey) : Bool :=
  match key.expires_on.filter (· ≠ 0) with
  | some expires => expires < now
  | none => false

def usedUp (key : AgentJoinKey) : Bool :=
  match key.limit with
  | some uses => uses ≤ key.use_count
  | none => false

/-- The usable key of a presented text. -/
def authenticate (hashKey : String → String) (keys : List AgentJoinKey) (now : Nat)
    (rawKey : String) : Option AgentJoinKey :=
  if rawKey = "" then none
  else
    match keys.find? fun key => key.keyHash == hashKey rawKey with
    | some key => if key.revoked || key.expired now || key.usedUp then none else some key
    | none => none

end AgentJoinKey

/-- What `toReplica` exports of a key. -/
structure Replica where
  id : String
  label : String
  keyHash : String
  keyPrefix : String
  revoked : Bool
  created_by : Option String
  created_on : Option Nat
  expires_on : Option Nat
  use_count : Nat
  last_used_on : Option Nat
  deriving DecidableEq, Repr

def AgentJoinKey.toReplica (key : AgentJoinKey) : Replica where
  id := key.id
  label := key.label
  keyHash := key.keyHash
  keyPrefix := key.keyPrefix
  revoked := key.revoked
  created_by := key.created_by
  created_on := key.created_on
  expires_on := key.expires_on
  use_count := key.use_count
  last_used_on := key.last_used_on

/-- The columns `adoptFromMaster` writes. -/
def Replica.onto (jk : Replica) (row : AgentJoinKey) : AgentJoinKey where
  id := row.id
  label := (truthy (some jk.label)).getD "default"
  keyHash := jk.keyHash
  keyPrefix := jk.keyPrefix
  revoked := jk.revoked
  created_by := truthy jk.created_by
  created_on := jk.created_on.filter (· ≠ 0)
  expires_on := jk.expires_on.filter (· ≠ 0)
  max_uses := row.max_uses
  use_count := jk.use_count
  last_used_on := jk.last_used_on.filter (· ≠ 0)

/-- The row of a key not known yet. -/
def Replica.made (jk : Replica) : AgentJoinKey :=
  jk.onto ⟨jk.id, "", "", "", false, none, none, none, none, 0, none⟩

/-- One round of the key loop of `adoptFromMaster`. -/
def adoptKey (jk : Replica) (keys : List AgentJoinKey) : List AgentJoinKey :=
  match keys.findIdx? fun key => key.id == jk.id with
  | some index => keys.modify index jk.onto
  | none => keys ++ [jk.made]

/-- A key missing from the export stays only if it is young and not revoked. -/
def keepsKey (now : Nat) (exported : List String) (key : AgentJoinKey) : Bool :=
  exported.contains key.id ||
    match key.created_on.filter (· ≠ 0) with
    | some created => now < created + 3600 && !key.revoked
    | none => false

/-- The tables of one site. -/
structure Directory where
  agents : List Agent
  joinKeys : List AgentJoinKey
  deriving DecidableEq, Repr

/-- What the environment supplies to a turn. -/
structure Outcome where
  /-- What the call waits for succeeds. -/
  ok : Bool
  now : Nat
  /-- The site that a hint resolves to, or else the current one. -/
  site : Option String
  uuid : String
  token : String
  /-- The service that the enrolment binds the agent to. -/
  serviceId : Option String
  /-- The clock in base 36. -/
  stamp : String

/-! ## The connection handler -/

/-- A connection: the site it reaches and what it presents. -/
structure Request where
  site : Nat
  /-- The `token` parameter, or else the authorization header. -/
  token : String
  hostname : String
  siteHint : String
  prevToken : Option String
  deriving DecidableEq, Repr

namespace Request

def name (request : Request) : String := trim request.hostname

def hint (request : Request) : String := trim request.siteHint

def hasExplicitSite (request : Request) : Bool :=
  request.hint != "" && !(["default", "unknown", "none"].contains (toLowerCase request.hint))

end Request

/-- Where a connection stands. -/
inductive Phase where
  /-- `Agent.authenticate` -/
  | authenticating
  /-- `AgentJoinKey.authenticate` -/
  | joining
  /-- `resolveSiteHint` or `currentSite` -/
  | placing (joinKey : AgentJoinKey)
  | matching (joinKey : AgentJoinKey) (siteId : String)
  | rotating (joinKey : AgentJoinKey) (existingAgent : Agent)
  | enrolling (joinKey : AgentJoinKey) (siteId : String)
  /-- Between the enrolment, or rotation, and the update of the key. -/
  | counting (joinKey : AgentJoinKey) (agent : Agent) (enrolled : Bool)
  | connected (joinKey : Option AgentJoinKey) (agent : Agent) (enrolled : Bool)
  | closed (code : Nat) (reason : String)
  deriving DecidableEq, Repr

/-- The first eight characters. -/
def firstEight (token : String) : String := String.ofList (token.toList.take 8)

/-- The row `Agent.enroll` creates. -/
def Request.enrolledAgent (hash : String → String) (request : Request) (outcome : Outcome)
    (joinKey : AgentJoinKey) : Agent where
  id := outcome.uuid
  name := (truthy (some request.name)).getD ("agent-" ++ outcome.stamp)
  description := some ("Self-enrolled with join key " ++ joinKey.keyPrefix)
  tokenHash := hash outcome.token
  tokenPrefix := some (firstEight outcome.token)
  resourceId := outcome.serviceId
  revoked := false
  enrolled_by := some ("join-key:" ++ joinKey.label)
  version := none
  last_ip := none

/-- `rotateToken` -/
def Agent.rotated (hash : String → String) (token : String) (agent : Agent) : Agent :=
  { agent with tokenHash := hash token, tokenPrefix := some (firstEight token), revoked := false }

/-- The update of the row with the key's id, after the count that was read. -/
def AgentJoinKey.counted (now : Nat) (joinKey row : AgentJoinKey) : AgentJoinKey :=
  if row.id = joinKey.id then
    { row with use_count := joinKey.use_count + 1, last_used_on := some now }
  else row

/-- The directories of the sites, by number. -/
abbrev Sites : Type := Nat → Directory

def Sites.setAgents (site : Nat) (change : List Agent → List Agent) (sites : Sites) : Sites :=
  Function.update sites site
    { sites site with agents := change (sites site).agents }

def Sites.setJoinKeys (site : Nat) (change : List AgentJoinKey → List AgentJoinKey)
    (sites : Sites) : Sites :=
  Function.update sites site
    { sites site with joinKeys := change (sites site).joinKeys }

/-- One turn of a connection. -/
def Request.turn (hash : String → String) (outcome : Outcome) (request : Request) (sites : Sites) :
    Phase → Sites × Phase
  | .authenticating =>
      if outcome.ok then
        match Agent.authenticate hash (sites request.site).agents request.token with
        | some agent => (sites, .connected none agent false)
        | none => (sites, .joining)
      else (sites, .closed 1011 "Authentication unavailable")
  | .joining =>
      if outcome.ok then
        match AgentJoinKey.authenticate hash (sites request.site).joinKeys outcome.now
            request.token with
        | some joinKey => (sites, .placing joinKey)
        | none => (sites, .closed 4001 "Unauthorized")
      else (sites, .closed 1011 "Authentication unavailable")
  | .placing joinKey =>
      match outcome.site with
      | some siteId =>
          (sites, if request.name = "" then .enrolling joinKey siteId else .matching joinKey siteId)
      | none =>
          if request.hasExplicitSite then
            (sites, .closed 4001 ("Site not found: " ++ request.hint))
          else
            (sites, .closed 4001
              "This directory has no current site; pass ?site=<slug> or set one in the directory")
  | .matching joinKey siteId =>
      if outcome.ok then
        match (sites request.site).agents.find? fun agent =>
            agent.name == request.name && !agent.revoked with
        | some existingAgent =>
            if (truthy request.prevToken).map hash = some existingAgent.tokenHash then
              (sites, .rotating joinKey existingAgent)
            else
              (sites, .closed 4001 "prev_token required: this host is already enrolled")
        | none => (sites, .enrolling joinKey siteId)
      else (sites, .closed 1011 "Authentication unavailable")
  | .rotating joinKey existingAgent =>
      if outcome.ok then
        (sites.setAgents request.site fun agents => agents.map fun agent =>
            if agent.id = existingAgent.id then agent.rotated hash outcome.token else agent,
          .counting joinKey (existingAgent.rotated hash outcome.token) false)
      else (sites, .closed 1011 "Authentication unavailable")
  | .enrolling joinKey _ =>
      if outcome.ok then
        let agent := request.enrolledAgent hash outcome joinKey
        (sites.setAgents request.site fun agents => agents ++ [agent],
          .counting joinKey agent true)
      else (sites, .closed 1011 "Authentication unavailable")
  | .counting joinKey agent enrolled =>
      -- a failed update is swallowed
      (if outcome.ok then
          sites.setJoinKeys request.site fun keys => keys.map (joinKey.counted outcome.now)
        else sites,
        .connected (some joinKey) agent enrolled)
  | .connected joinKey agent enrolled => (sites, .connected joinKey agent enrolled)
  | .closed code reason => (sites, .closed code reason)

/-! ## Replication -/

/-- Where the adoption of another site's keys stands. -/
inductive Adopting where
  | exporting (source : Nat)
  | adopting (rest : List Replica) (exported : List String)
  | pruned
  deriving DecidableEq, Repr

/-- One turn of an adoption at a site. -/
def Adopting.turn (outcome : Outcome) (site : Nat) (sites : Sites) : Adopting → Sites × Adopting
  | .exporting source =>
      (sites, .adopting (if outcome.ok then (sites source).joinKeys.map AgentJoinKey.toReplica
        else []) [])
  | .adopting (jk :: rest) exported =>
      if jk.id = "" ∨ jk.keyHash = "" then (sites, .adopting rest exported)
      else
        (if outcome.ok then sites.setJoinKeys site (adoptKey jk) else sites,
          .adopting rest (jk.id :: exported))
  | .adopting [] exported =>
      (if outcome.ok then
          sites.setJoinKeys site fun keys => keys.filter (keepsKey outcome.now exported)
        else sites,
        .pruned)
  | .pruned => (sites, .pruned)

/-! ## All calls -/

inductive Input where
  | connect (request : Request)
  | adopt (source site : Nat)
  | issue (site : Nat) (label : String) (createdBy : Option String)
      (expiresInDays maxUses : Option Nat) (id raw : String) (now : Nat)
  | revoke (site : Nat) (id : String)
  /-- Whatever else writes the agents of a site. -/
  | setAgents (site : Nat) (agents : List Agent)

inductive Call where
  | connection (request : Request) (phase : Phase)
  | adoption (site : Nat) (phase : Adopting)
  | done
  deriving DecidableEq, Repr

/-- The row `AgentJoinKey.issue` creates. -/
def AgentJoinKey.issued (hash : String → String) (label : String) (createdBy : Option String)
    (expiresInDays maxUses : Option Nat) (id raw : String) (now : Nat) : AgentJoinKey where
  id := id
  label := (truthy (some (trim label))).getD "default"
  keyHash := hash raw
  keyPrefix := String.ofList (raw.toList.take 12)
  revoked := false
  created_by := truthy createdBy
  created_on := some now
  expires_on := (expiresInDays.filter (· ≠ 0)).map fun days => now + days * 86400
  max_uses := maxUses.filter (· ≠ 0)
  use_count := 0
  last_used_on := none

/-- Connections to the sites, and what else writes their tables. -/
def enrolment (hash : String → String) : Protocol Sites Call Input Outcome where
  call
    | .connect request, sites => (sites, .connection request .authenticating)
    | .adopt source site, sites => (sites, .adoption site (.exporting source))
    | .issue site label createdBy expiresInDays maxUses id raw now, sites =>
        (sites.setJoinKeys site fun keys => keys ++
          [AgentJoinKey.issued hash label createdBy expiresInDays maxUses id raw now], .done)
    | .revoke site id, sites =>
        (sites.setJoinKeys site fun keys => keys.map fun key =>
          if key.id = id then { key with revoked := true } else key, .done)
    | .setAgents site agents, sites => (sites.setAgents site fun _ => agents, .done)
  turn outcome sites
    | .connection request phase =>
        let (sites, next) := request.turn hash outcome sites phase
        (sites, .connection request next)
    | .adoption site phase =>
        let (sites, next) := phase.turn outcome site sites
        (sites, .adoption site next)
    | .done => (sites, .done)

end ThetaDirectory.Agents
