import ThetaDirectory.Forwarding.Signature
import ThetaDirectory.Library.Past

/-!
# Forwarded requests between sites

`middleware/spoke_write_proxy.js`, `middleware/auth.js` and the routing of agent commands in
`routes/api_agent.js`.  A site acts for the user of a request that it gets either by a credential it
knows itself, or on the word of another site that shares a push token with it.
-/

namespace ThetaDirectory.Forwarding

open Library

/-! ## Paths -/

/-- The path of a URL without its query. -/
def absolutePath (originalUrl : String) : String :=
  String.ofList (originalUrl.toList.takeWhile (· ≠ '?'))

/-- A path that a regular expression starts with: its segments, where `none` is `[^/]+`. -/
abbrev Pattern := List (Option String)

/-- The segments are those of the pattern, and perhaps more. -/
def Pattern.starts : Pattern → List String → Bool
  | [], _ => true
  | _ :: _, [] => false
  | some name :: pattern, segment :: segments => name == segment && Pattern.starts pattern segments
  | none :: pattern, segment :: segments => segment != "" && Pattern.starts pattern segments

def Pattern.test (pattern : Pattern) (path : String) : Bool :=
  match splitAt '/' path with
  | "" :: segments => pattern.starts segments
  | _ => false

/-- `FORWARD_PATHS`; the optional segment in front of `password` makes two patterns. -/
def FORWARD_PATHS : List Pattern :=
  [["api", "tos"], ["api", "user", "accept-tos"], ["api", "user", "password"],
    ["api", "user", none, "password"], ["api", "directory-admin"], ["api", "agent", "enroll"],
    ["api", "agent", "nodes"], ["api", "agent", "join-keys"], ["api", "api-token"],
    ["api", "mesh", "clients"], ["api", "mesh", "exit-grants"], ["api", "mesh", "sites"],
    ["api", "mesh", "hub"], ["api", "v1", "agent", "mesh"]]

def NEVER_FORWARD : List Pattern :=
  [["api", "directory-admin", "site-promote"], ["api", "agent", "nodes", none, "command"]]

def shouldForward (path : String) : Bool :=
  !NEVER_FORWARD.any (·.test path) && FORWARD_PATHS.any (·.test path)

def MUTATING : List String := ["POST", "PUT", "PATCH", "DELETE"]

def commandPath (agent : String) : String := "/api/agent/nodes/" ++ agent ++ "/command"

/-! ## Requests -/

/-- A request with the headers that are read.  A header has no line break. -/
structure Request where
  method : String
  originalUrl : String
  authorization : Option String
  authToken : Option String
  forwardedUser : Option String
  forwardedSpoke : Option String
  forwardedTs : Option String
  forwardedMac : Option String
  commandRouted : Option String
  plain : ∀ header ∈ [forwardedUser, forwardedTs], ∀ text ∈ header, '\n' ∉ text.toList
  deriving DecidableEq

/-- The token of `Authorization: Bearer`. -/
def Request.bearer (request : Request) : Option String :=
  let authz := (request.authorization.getD "").toList
  if toLowerCase (String.ofList (authz.take 7)) = "bearer " then
    some (trim (String.ofList (authz.drop 7)))
  else none

def Request.path (request : Request) : String := absolutePath request.originalUrl

inductive Credential where
  | api (token : String)
  | service (token : String)
  | session (token : String)
  deriving DecidableEq, Repr

def isApiToken (token : String) : Bool := "sso_".toList.isPrefixOf token.toList

/-- The request comes with the credential. -/
def Request.Carries (request : Request) : Credential → Prop
  | .api token => request.bearer = some token ∧ isApiToken token = true
  | .service token => request.bearer = some token ∧ isApiToken token = false
  | .session token => request.authToken = some token

/-! ## Sites -/

structure SiteSpoke where
  endpoint : String
  siteSlug : String
  pushToken : String
  deriving DecidableEq, Repr

/-- A site: its configuration, its rows and what it looks up. -/
structure Site where
  isMaster : Bool
  masterUrl : String
  siteSlug : String
  replicationPushToken : String
  masterJoinKey : String
  spokes : List SiteSpoke
  /-- the `uid` of `User.get` -/
  user : String → Option String
  /-- the `uid` of `Auth.checkApiToken` -/
  checkApiToken : String → Option String
  /-- the `resource_id` of a valid `ServiceToken` -/
  serviceToken : String → Option String
  /-- the `uid` of `Auth.checkToken` -/
  checkToken : String → Option String

/-- Whom a credential stands for. -/
def Site.identify (site : Site) : Credential → Option String
  | .api token => site.checkApiToken token
  | .service token => site.serviceToken token
  | .session token => site.checkToken token

/-- A `uid` that is not empty, and how it came to be known. -/
structure Caller where
  uid : String
  credential : Credential
  deriving DecidableEq, Repr

def Site.session (site : Site) (request : Request) : Option Caller := do
  let token ← request.authToken
  let uid ← truthy (site.checkToken token)
  return ⟨uid, .session token⟩

/-- `resolveCaller`, for callers with a `uid`. -/
def Site.resolveCaller (site : Site) (request : Request) : Option Caller :=
  match request.bearer with
  | some token =>
      if isApiToken token then
        ((truthy (site.checkApiToken token)).map (⟨·, .api token⟩)).or (site.session request)
      else
        match site.serviceToken token with
        -- the first caller that is found is the one, with or without a `uid`
        | some uid => if uid = "" then none else some ⟨uid, .service token⟩
        | none => site.session request
  | none => site.session request

/-- A text that can be sent as a header. -/
def isHeader (text : String) : Bool :=
  text.toList.all fun char =>
    char = '\t' || 0x20 ≤ char.toNat && char.toNat ≤ 0x7e || 0x80 ≤ char.toNat && char.toNat ≤ 0xff

theorem isHeader_plain {text : String} (header : isHeader text = true) : '\n' ∉ text.toList := by
  intro member
  have here := List.all_eq_true.mp header _ member
  revert here
  decide

theorem toString_plain (number : Nat) : '\n' ∉ (toString number).toList :=
  Numerals.notMem_toString (by decide) number

/-- What becomes of a request in `spokeWriteProxy`. -/
inductive Proxied where
  | next
  | unavailable
  | sent (caller : Caller) (request : Request)

/-- The request that goes to the master. -/
def forwarded (hmac : Hmac) (site : Site) (now : Nat) (request : Request) (caller : Caller)
    (header : isHeader caller.uid = true) : Request where
  method := request.method
  originalUrl := request.originalUrl
  authorization := some ("Bearer " ++ site.replicationPushToken)
  authToken := none
  forwardedUser := some caller.uid
  forwardedSpoke := some (if site.siteSlug = "" then "spoke" else site.siteSlug)
  forwardedTs := some (toString now)
  forwardedMac := some (sign hmac site.replicationPushToken caller.uid (toString now) request.path)
  commandRouted := request.commandRouted
  plain := by
    simp only [List.mem_cons, List.not_mem_nil, or_false, forall_eq_or_imp, forall_eq,
      Option.mem_some_iff]
    exact ⟨fun _ same => same ▸ isHeader_plain header, fun _ same => same ▸ toString_plain now⟩

def Site.spokeWriteProxy (hmac : Hmac) (site : Site) (now : Nat) (request : Request) : Proxied :=
  if site.isMaster || !MUTATING.contains request.method || !shouldForward request.path then .next
  else if site.masterUrl.toList.rdropWhile (· = '/') = [] ∨ site.replicationPushToken = "" then
    .unavailable
  else
    match site.resolveCaller request with
    | none => .next
    | some caller =>
        -- `fetch` throws on a header that cannot be sent
        if header : isHeader caller.uid = true then
          .sent caller (forwarded hmac site now request caller header)
        else .unavailable

/-- Whom a request stands for: a user known by a credential, or on the word of a site. -/
inductive Origin where
  | forwarded (siteSlug : String)
  | credential (credential : Credential)
  deriving DecidableEq, Repr

structure Identity where
  uid : String
  origin : Origin
  deriving DecidableEq, Repr

/-- The site that a push token is shared with: its slug, and the token. -/
def Site.forwarder (site : Site) (token : String) : Option (String × String) :=
  if !site.isMaster && site.replicationPushToken != "" && site.replicationPushToken == token then
    some ("master", site.replicationPushToken)
  else (site.spokes.find? (·.pushToken == token)).map fun spoke => (spoke.siteSlug, spoke.pushToken)

/-- The branch of `auth` for forwarded requests. -/
inductive Forwarded where
  | identified (identity : Identity)
  | unauthorized
  | other

def Site.forwardedBy (hmac : Hmac) (site : Site) (now : Nat) (request : Request)
    (token fwdUser : String) : Forwarded :=
  match site.forwarder token with
  | none => .other
  | some (slug, key) =>
      let claimed := request.forwardedSpoke.getD ""
      if claimed = "" ∨ slug = "" ∨ claimed = slug then
        if key = "" ∨ verify hmac now key fwdUser (request.forwardedTs.getD "") request.path
            (request.forwardedMac.getD "") = false then .unauthorized
        else
          match truthy (site.user fwdUser) with
          | some uid => .identified ⟨uid, .forwarded (if slug = "" then "cluster" else slug)⟩
          | none => .other
      else .other

def Caller.identity (caller : Caller) : Identity := ⟨caller.uid, .credential caller.credential⟩

/-- `auth` beyond the branch for forwarded requests. -/
def Site.authenticate (site : Site) (request : Request) : Option Identity :=
  match request.bearer with
  | some token =>
      if isApiToken token then
        match site.checkApiToken token with
        | some uid =>
            if uid = "" then (site.session request).map Caller.identity
            else some ⟨uid, .credential (.api token)⟩
        | none => none
      else
        match site.serviceToken token with
        | some uid => some ⟨uid, .credential (.service token)⟩
        | none => (site.session request).map Caller.identity
  | none => (site.session request).map Caller.identity

/-- `auth`; `none` is a request that is refused. -/
def Site.auth (hmac : Hmac) (site : Site) (now : Nat) (request : Request) : Option Identity :=
  match request.bearer, truthy request.forwardedUser with
  | some token, some fwdUser =>
      match site.forwardedBy hmac now request token fwdUser with
      | .identified identity => some identity
      | .unauthorized => none
      | .other => site.authenticate request
  | _, _ => site.authenticate request

/-! ## The cluster -/

/-- A signature that a site has made, for a caller that it knows by a credential. -/
structure Signed where
  node : Nat
  token : String
  uid : String
  time : Nat
  path : String
  credential : Credential
  deriving DecidableEq, Repr

/-- A request that a site acts on. -/
structure Accepted where
  node : Nat
  request : Request
  identity : Identity
  time : Nat
  deriving DecidableEq

structure Cluster where
  clock : Nat
  nodes : List Site
  signed : List Signed
  accepted : List Accepted

/-- A request may come from anyone. -/
inductive Event where
  | elapse (time : Nat)
  | configure (node : Nat) (site : Site)
  | receive (node : Nat) (request : Request)
  | dispatch (accepted : Nat) (agent : String) (spoke : Nat)

/-- The last time that a `Date` tells. -/
def MAX_TIME : Nat := 8640000000000000

def Cluster.receive (hmac : Hmac) (cluster : Cluster) (node : Nat) (request : Request) : Cluster :=
  match cluster.nodes[node]? with
  | none => cluster
  | some site =>
      match site.spokeWriteProxy hmac cluster.clock request with
      | .unavailable => cluster
      | .sent caller _ =>
          { cluster with
            signed := cluster.signed ++ [⟨node, site.replicationPushToken, caller.uid, cluster.clock,
              request.path, caller.credential⟩] }
      | .next =>
          match site.auth hmac cluster.clock request with
          | none => cluster
          | some identity =>
              { cluster with
                accepted := cluster.accepted ++ [⟨node, request, identity, cluster.clock⟩] }

/-- The token that `dispatchCommandClusterWide` signs with: for the master, or for one spoke. -/
def Site.dispatchToken (site : Site) (spoke : Nat) : Option String :=
  if !site.isMaster && site.masterUrl != "" &&
      (site.replicationPushToken != "" || site.masterJoinKey != "") then
    some (if site.replicationPushToken = "" then site.masterJoinKey else site.replicationPushToken)
  else if site.isMaster then
    match site.spokes[spoke]? with
    | some row => if row.endpoint = "" ∨ row.pushToken = "" then none else some row.pushToken
    | none => none
  else none

/-- A command for an agent that is not connected here, unless it was forwarded already. -/
def Cluster.dispatch (cluster : Cluster) (index : Nat) (agent : String) (spoke : Nat) : Cluster :=
  match cluster.accepted[index]? with
  | none => cluster
  | some entry =>
      match entry.identity.origin, cluster.nodes[entry.node]? with
      | .credential credential, some site =>
          match site.dispatchToken spoke with
          | some token =>
              if entry.request.path = commandPath agent ∧ truthy entry.request.commandRouted = none ∧
                  entry.identity.uid ≠ "" ∧ isHeader entry.identity.uid = true then
                { cluster with
                  signed := cluster.signed ++ [⟨entry.node, token, entry.identity.uid, cluster.clock,
                    commandPath agent, credential⟩] }
              else cluster
          | none => cluster
      | _, _ => cluster

def Cluster.apply (hmac : Hmac) : Event → Cluster → Cluster
  | .elapse time, cluster => { cluster with clock := min (cluster.clock + time) MAX_TIME }
  | .configure node site, cluster => { cluster with nodes := cluster.nodes.set node site }
  | .receive node request, cluster => cluster.receive hmac node request
  | .dispatch index agent spoke, cluster => cluster.dispatch index agent spoke

def Cluster.start (nodes : List Site) : Cluster := ⟨0, nodes, [], []⟩

end ThetaDirectory.Forwarding
