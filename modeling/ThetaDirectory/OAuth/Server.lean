import ThetaDirectory.Library.Interleaving
import ThetaDirectory.Library.Spending
import ThetaDirectory.OAuth.Patterns

/-!
# The authorization server

The authorize, token, userinfo and revoke endpoints of `routes/oauth.js` over the rows of
`models/oauth_code.js`, as calls that take one turn for each operation they wait for.  A client is
what `OAuthClient.get` maps its resource to, and the credentials of a request are what
`parseClientAuth` reads.
-/

namespace ThetaDirectory.OAuth

open Library Library.Interleaving

/-! ## Rows -/

structure TokenLifetime where
  access_token : Nat
  refresh_token : Nat
  deriving DecidableEq, Repr

structure OAuthClient where
  client_id : String
  client_secret_hash : String
  redirect_uris : List String
  scopes : List String
  allowed_groups : List String
  token_lifetime : TokenLifetime
  is_valid : Bool
  is_public : Bool
  deriving DecidableEq, Repr

/-- An `OAuthCode` row. -/
structure OAuthCode where
  token : String
  is_valid : Bool
  client_id : String
  redirect_uri : String
  scope : String
  username : String
  code_challenge : String
  code_challenge_method : String
  expires_at : Nat
  deriving DecidableEq, Repr

/-- An `OAuthAccessToken` or `OAuthRefreshToken` row. -/
structure OAuthToken where
  token : String
  is_valid : Bool
  client_id : String
  username : String
  scope : String
  expires_at : Nat
  deriving DecidableEq, Repr

def OAuthCode.isExpired (now : Nat) (row : OAuthCode) : Bool := row.expires_at < now

def OAuthToken.isExpired (now : Nat) (row : OAuthToken) : Bool := row.expires_at < now

/-- `row.update({ is_valid: false })` -/
def OAuthCode.invalidate (row : OAuthCode) : OAuthCode := { row with is_valid := false }

def OAuthToken.invalidate (row : OAuthToken) : OAuthToken := { row with is_valid := false }

abbrev CodeTable : Type := Table OAuthCode [OAuthCode.token]

abbrev TokenTable : Type := Table OAuthToken [OAuthToken.token]

inductive TokenKind where
  | access
  | refresh
  deriving DecidableEq, Repr

structure Store where
  clients : List OAuthClient
  codes : CodeTable
  access : TokenTable
  refresh : TokenTable

def Store.tokens (store : Store) : TokenKind → TokenTable
  | .access => store.access
  | .refresh => store.refresh

def Store.setTokens (store : Store) (rows : TokenTable) : TokenKind → Store
  | .access => { store with access := rows }
  | .refresh => { store with refresh := rows }

def Store.client (store : Store) (client_id : String) : Option OAuthClient :=
  store.clients.find? fun client => client.client_id == client_id

def Store.code (store : Store) (token : Option String) : Option OAuthCode :=
  token.bind fun token => store.codes.rows.find? fun row => row.token == token

def Store.token (store : Store) (kind : TokenKind) (token : Option String) : Option OAuthToken :=
  token.bind fun token => (store.tokens kind).rows.find? fun row => row.token == token

/-! ## Helpers -/

/-- The libraries and the configuration that the endpoints use. -/
structure Server where
  issuer : String
  /-- `new RegExp(pattern)` beyond the core -/
  engine : String → Option (String → Bool)
  /-- `bcrypt.compare(secret, hash)` -/
  compare : String → String → Bool
  /-- The S256 challenge of a verifier. -/
  challenge : String → String

structure Refusal where
  error : String
  error_description : String
  status : Nat
  deriving DecidableEq, Repr

def Server.verifyPKCE (server : Server) (verifier challenge method : String) : Bool :=
  method == "S256" && server.challenge verifier == challenge

/-- The claims read of an LDAP user. -/
structure User where
  uid : String
  givenName : String
  sn : String
  mail : String
  deriving DecidableEq, Repr

structure Claims where
  sub : String
  name : Option String
  given_name : Option String
  family_name : Option String
  preferred_username : Option String
  email : Option String
  groups : Option (List String)
  deriving DecidableEq, Repr

def userClaims (user : User) (scope : String) (groups : List String) : Claims :=
  let scopes := splitAt ' ' scope
  let profile := scopes.contains "profile"
  { sub := user.uid
    name := if profile then some (user.givenName ++ " " ++ user.sn) else none
    given_name := if profile then some user.givenName else none
    family_name := if profile then some user.sn else none
    preferred_username := if profile then some user.uid else none
    email := if scopes.contains "email" then some user.mail else none
    groups := if scopes.contains "groups" then some groups else none }

structure IdToken where
  iss : String
  aud : String
  iat : Nat
  exp : Nat
  claims : Claims
  deriving DecidableEq, Repr

/-- The claims that `buildIdToken` signs. -/
def Server.buildIdToken (server : Server) (user : User) (client : OAuthClient) (scope : String)
    (now : Nat) (groups : List String) : IdToken where
  iss := server.issuer
  aud := client.client_id
  iat := now / 1000
  exp := now / 1000 +
    if client.token_lifetime.access_token = 0 then 3600 else client.token_lifetime.access_token
  claims := { userClaims user scope groups with preferred_username := some user.uid }

/-- The scopes asked for that the client is registered for. -/
def grantedScope (client : OAuthClient) (scope : Option String) : String :=
  let words := ((splitAt ' ' ((truthy scope).getD "openid")).filter (· ≠ "")).filter
    client.scopes.contains
  (truthy (some (" ".intercalate words))).getD "openid"

/-! ## Calls -/

/-- What the environment supplies to a turn. -/
structure Outcome where
  /-- The operation succeeds. -/
  ok : Bool
  error : String
  now : Nat
  uuid : String
  /-- What `User.get` finds. -/
  user : User
  /-- What `Group.list` finds. -/
  groups : List String
  /-- Which of the two tokens that are added at once is settled now. -/
  kind : TokenKind

structure AuthorizeRequest where
  uid : String
  response_type : Option String
  client_id : Option String
  redirect_uri : Option String
  scope : Option String
  code_challenge : Option String
  code_challenge_method : Option String
  deriving DecidableEq, Repr

inductive Authorizing where
  | fetching
  | grouping (client : OAuthClient)
  | adding (client : OAuthClient) (groups : List String)
  | issued (client : OAuthClient) (groups : List String) (row : OAuthCode)
  | refused (refusal : Refusal)
  | thrown (error : String)
  deriving DecidableEq, Repr

def invalidClient (description : String) : Refusal := ⟨"InvalidClient", description, 400⟩

/-- The checks of the authorize endpoint up to the first wait behind them. -/
def AuthorizeRequest.check (server : Server) (request : AuthorizeRequest) (client : OAuthClient) :
    Authorizing :=
  if !client.is_valid then .refused (invalidClient "Client is disabled.")
  else if !redirectUriAllowed server.engine client.redirect_uris request.redirect_uri then
    .refused ⟨"InvalidRedirectURI", "redirect_uri is not registered for this client.", 400⟩
  else if client.is_public && (truthy request.code_challenge).isNone then
    .refused ⟨"InvalidRequest",
      "This client is registered as public, so code_challenge (PKCE) is required.", 400⟩
  else if client.allowed_groups = [] then .adding client []
  else .grouping client

def AuthorizeRequest.newCode (request : AuthorizeRequest) (client : OAuthClient) (now : Nat)
    (uuid : String) : OAuthCode where
  token := uuid
  is_valid := true
  client_id := request.client_id.getD ""
  redirect_uri := request.redirect_uri.getD ""
  scope := grantedScope client request.scope
  username := request.uid
  code_challenge := request.code_challenge.getD ""
  code_challenge_method := (truthy request.code_challenge_method).getD "S256"
  expires_at := now + 600000

def AuthorizeRequest.turn (server : Server) (request : AuthorizeRequest) (outcome : Outcome)
    (store : Store) : Authorizing → Store × Authorizing
  | .fetching =>
      match if outcome.ok then request.client_id.bind store.client else none with
      | some client => (store, request.check server client)
      | none => (store, .refused (invalidClient "Unknown client_id."))
  | .grouping client =>
      -- a lookup that fails counts as no groups
      let groups := if outcome.ok then outcome.groups else []
      if client.allowed_groups.any groups.contains then (store, .adding client groups)
      else (store, .refused ⟨"AccessDenied",
        "You are not a member of a group permitted to use this application.", 403⟩)
  | .adding client groups =>
      let row := request.newCode client outcome.now outcome.uuid
      match if outcome.ok then store.codes.insert row else none with
      | some codes => ({ store with codes }, .issued client groups row)
      | none => (store, .thrown outcome.error)
  | .issued client groups row => (store, .issued client groups row)
  | .refused refusal => (store, .refused refusal)
  | .thrown error => (store, .thrown error)

/-- The body of a token request with the client's credentials. -/
structure TokenRequest where
  client_id : Option String
  client_secret : Option String
  grant_type : Option String
  code : Option String
  redirect_uri : Option String
  code_verifier : Option String
  refresh_token : Option String
  deriving DecidableEq, Repr

/-- What tokens are issued for. -/
inductive Grant where
  | code (row : OAuthCode)
  | refresh (row : OAuthToken)
  deriving DecidableEq, Repr

def Grant.token : Grant → String
  | .code row => row.token
  | .refresh row => row.token

def Grant.client_id : Grant → String
  | .code row => row.client_id
  | .refresh row => row.client_id

def Grant.username : Grant → String
  | .code row => row.username
  | .refresh row => row.username

def Grant.scope : Grant → String
  | .code row => row.scope
  | .refresh row => row.scope

structure TokenResponse where
  access : OAuthToken
  refresh : OAuthToken
  expires_in : Nat
  id_token : Option IdToken
  deriving DecidableEq, Repr

/-- What has come of the addition of a token. -/
inductive Added where
  | waiting
  | stored (row : OAuthToken)
  | failed (error : String)
  deriving DecidableEq, Repr

inductive Exchanging where
  | fetching
  | comparing (client : OAuthClient)
  | finding (client : OAuthClient) (now : Nat)
  | consuming (client : OAuthClient) (now : Nat) (grant : Grant)
  | reading (client : OAuthClient) (now : Nat) (grant : Grant)
  | issuing (client : OAuthClient) (now : Nat) (grant : Grant) (user : User) (access refresh : Added)
  | signing (client : OAuthClient) (now : Nat) (grant : Grant) (user : User)
      (access refresh : OAuthToken)
  | answered (client : OAuthClient) (grant : Grant) (response : TokenResponse)
  | rejected (refusal : Refusal)
  | thrown (error : String)
  deriving DecidableEq, Repr

def invalidGrant (description : String) : Exchanging :=
  .rejected ⟨"invalid_grant", description, 400⟩

/-- Behind the authentication of the client. -/
def TokenRequest.start (request : TokenRequest) (client : OAuthClient) (now : Nat) : Exchanging :=
  if request.grant_type = some "authorization_code" ∨ request.grant_type = some "refresh_token" then
    .finding client now
  else .rejected ⟨"unsupported_grant_type",
    "grant_type '" ++ request.grant_type.getD "undefined" ++ "' is not supported.", 400⟩

def TokenRequest.authenticate (request : TokenRequest) (client : OAuthClient) (now : Nat) :
    Exchanging :=
  if !client.is_valid then
    .rejected ⟨"invalid_client", "Client authentication failed.", 401⟩
  else if client.is_public then
    match truthy request.client_secret with
    | some _ => .rejected ⟨"invalid_client",
        "This client is registered as public and must not send a client_secret.", 401⟩
    | none => request.start client now
  else
    match truthy request.client_secret with
    | some _ => .comparing client
    | none => .rejected ⟨"invalid_request", "client_id and client_secret are required.", 400⟩

/-- The checks of an authorization code. -/
def TokenRequest.checkCode (server : Server) (request : TokenRequest) (client : OAuthClient)
    (now : Nat) (outcome : Outcome) (authCode : OAuthCode) : Exchanging :=
  if !authCode.is_valid || authCode.isExpired outcome.now then
    invalidGrant "Authorization code has expired or been used."
  else if some authCode.client_id ≠ request.client_id then
    invalidGrant "Code was not issued to this client."
  else if some authCode.redirect_uri ≠ request.redirect_uri then
    invalidGrant "redirect_uri does not match."
  else if authCode.code_challenge = "" then
    if client.is_public then
      invalidGrant "This code was issued without PKCE and cannot be redeemed by a public client."
    else .consuming client now (.code authCode)
  else if authCode.code_challenge_method ≠ "S256" then invalidGrant "PKCE verification failed."
  else
    match request.code_verifier with
    -- the hash of `undefined` throws
    | none => .thrown outcome.error
    | some verifier =>
        if server.verifyPKCE verifier authCode.code_challenge authCode.code_challenge_method then
          .consuming client now (.code authCode)
        else invalidGrant "PKCE verification failed."

/-- The checks of a refresh token. -/
def TokenRequest.checkRefresh (request : TokenRequest) (client : OAuthClient) (now : Nat)
    (outcome : Outcome) (oldRefreshToken : OAuthToken) : Exchanging :=
  if !oldRefreshToken.is_valid || oldRefreshToken.isExpired outcome.now then
    invalidGrant "Refresh token has expired or been revoked."
  else if some oldRefreshToken.client_id ≠ request.client_id then
    invalidGrant "Refresh token was not issued to this client."
  else .consuming client now (.refresh oldRefreshToken)

/-- Invalidate the row of a grant. -/
def Store.consume (store : Store) : Grant → Option Store
  | .code row => (store.codes.update (fun other => other.token == row.token)
      OAuthCode.invalidate).map fun codes => { store with codes }
  | .refresh row => (store.refresh.update (fun other => other.token == row.token)
      OAuthToken.invalidate).map fun refresh => { store with refresh }

/-- The row of a new token. -/
def TokenRequest.newToken (request : TokenRequest) (client : OAuthClient) (now : Nat) (grant : Grant)
    (uuid : String) (kind : TokenKind) : OAuthToken where
  token := uuid
  is_valid := true
  client_id := request.client_id.getD ""
  username := grant.username
  scope := grant.scope
  expires_at := now + 1000 *
    match kind with
    | .access => client.token_lifetime.access_token
    | .refresh => client.token_lifetime.refresh_token

/-- Add a token that is waited for. -/
def Added.turn (outcome : Outcome) (store : Store) (kind : TokenKind) (row : OAuthToken) :
    Added → Store × Added
  | .waiting =>
      match if outcome.ok then (store.tokens kind).insert row else none with
      | some rows => (store.setTokens rows kind, .stored row)
      | none => (store, .failed outcome.error)
  | settled => (store, settled)

/-- Behind one of the two additions. -/
def proceed (client : OAuthClient) (now : Nat) (grant : Grant) (user : User) :
    Added → Added → Exchanging
  | .stored access, .stored refresh =>
      if (splitAt ' ' grant.scope).contains "openid" then
        .signing client now grant user access refresh
      else .answered client grant ⟨access, refresh, client.token_lifetime.access_token, none⟩
  | .failed error, .stored _ => .thrown error
  | .failed error, .failed _ => .thrown error
  | .stored _, .failed error => .thrown error
  | access, refresh => .issuing client now grant user access refresh

def TokenRequest.turn (server : Server) (request : TokenRequest) (outcome : Outcome)
    (store : Store) : Exchanging → Store × Exchanging
  | .fetching =>
      match if outcome.ok then request.client_id.bind store.client else none with
      | some client => (store, request.authenticate client outcome.now)
      | none => (store, .rejected ⟨"invalid_client", "Unknown client.", 401⟩)
  | .comparing client =>
      if !outcome.ok then (store, .thrown outcome.error)
      else if server.compare (request.client_secret.getD "") client.client_secret_hash then
        (store, request.start client outcome.now)
      else (store, .rejected ⟨"invalid_client", "Client authentication failed.", 401⟩)
  | .finding client now =>
      if request.grant_type = some "authorization_code" then
        match if outcome.ok then store.code request.code else none with
        | some row => (store, request.checkCode server client now outcome row)
        | none => (store, invalidGrant "Authorization code not found.")
      else
        match if outcome.ok then store.token .refresh request.refresh_token else none with
        | some row => (store, request.checkRefresh client now outcome row)
        | none => (store, invalidGrant "Refresh token not found.")
  | .consuming client now grant =>
      match if outcome.ok then store.consume grant else none with
      | some store => (store, .reading client now grant)
      | none => (store, .thrown outcome.error)
  | .reading client now grant =>
      if outcome.ok then (store, .issuing client now grant outcome.user .waiting .waiting)
      else (store, .thrown outcome.error)
  | .issuing client now grant user access refresh =>
      let row := request.newToken client now grant outcome.uuid outcome.kind
      match outcome.kind with
      | .access =>
          let (store, access) := access.turn outcome store .access row
          (store, proceed client now grant user access refresh)
      | .refresh =>
          let (store, refresh) := refresh.turn outcome store .refresh row
          (store, proceed client now grant user access refresh)
  | .signing client now grant user access refresh =>
      if outcome.ok then
        let id_token := server.buildIdToken user client grant.scope now outcome.groups
        (store, .answered client grant
          ⟨access, refresh, client.token_lifetime.access_token, some id_token⟩)
      else (store, .thrown outcome.error)
  | .answered client grant response => (store, .answered client grant response)
  | .rejected refusal => (store, .rejected refusal)
  | .thrown error => (store, .thrown error)

inductive Informing where
  | finding
  | reading (row : OAuthToken)
  | gathering (row : OAuthToken) (user : User)
  | answered (row : OAuthToken) (claims : Claims)
  | rejected (refusal : Refusal)
  | thrown (error : String)
  deriving DecidableEq, Repr

/-- One turn of a userinfo request with a bearer token. -/
def Informing.turn (bearer : String) (outcome : Outcome) (store : Store) : Informing → Informing
  | .finding =>
      match if outcome.ok then store.token .access (some bearer) else none with
      | some row =>
          if !row.is_valid || row.isExpired outcome.now then
            .rejected ⟨"invalid_token", "Access token has expired.", 401⟩
          else .reading row
      | none => .rejected ⟨"invalid_token", "Access token not found.", 401⟩
  | .reading row =>
      if !outcome.ok then .thrown outcome.error
      else if (splitAt ' ' row.scope).contains "groups" then .gathering row outcome.user
      else .answered row (userClaims outcome.user row.scope [])
  | .gathering row user =>
      .answered row (userClaims user row.scope (if outcome.ok then outcome.groups else []))
  | .answered row claims => .answered row claims
  | .rejected refusal => .rejected refusal
  | .thrown error => .thrown error

structure RevokeRequest where
  client_id : Option String
  client_secret : Option String
  token : Option String
  token_type_hint : Option String
  deriving DecidableEq, Repr

inductive Revoking where
  | fetching
  | comparing (client : OAuthClient)
  | searching (kind : TokenKind) (others : List TokenKind)
  | marking (kind : TokenKind) (row : OAuthToken)
  | answered (revoked : Option (TokenKind × String))
  | rejected (refusal : Refusal)
  | thrown (error : String)
  deriving DecidableEq, Repr

/-- Where the token is searched, the kind that the hint names first. -/
def RevokeRequest.order (request : RevokeRequest) : List TokenKind :=
  if request.token_type_hint = some "access_token" then [.access, .refresh] else [.refresh, .access]

/-- Search the kinds that are left. -/
def Revoking.search : List TokenKind → Revoking
  | [] => .answered none
  | kind :: kinds => .searching kind kinds

/-- Behind the authentication of the client. -/
def RevokeRequest.start (request : RevokeRequest) : Revoking :=
  match truthy request.token with
  | some _ => .search request.order
  | none => .answered none

def RevokeRequest.turn (server : Server) (request : RevokeRequest) (outcome : Outcome)
    (store : Store) : Revoking → Store × Revoking
  | .fetching =>
      match if outcome.ok then request.client_id.bind store.client else none with
      | some client => (store, if client.is_public then request.start else .comparing client)
      | none => (store, .rejected ⟨"invalid_client", "Unknown client.", 401⟩)
  | .comparing client =>
      if !outcome.ok then (store, .thrown outcome.error)
      else if server.compare (request.client_secret.getD "") client.client_secret_hash then
        (store, request.start)
      else (store, .rejected ⟨"invalid_client", "Client authentication failed.", 401⟩)
  | .searching kind others =>
      match if outcome.ok then store.token kind request.token else none with
      | some row =>
          if some row.client_id ≠ request.client_id then (store, .search others)
          else if row.is_valid then (store, .marking kind row)
          else (store, .answered (some (kind, row.token)))
      | none => (store, .search others)
  | .marking kind row =>
      match if outcome.ok then
        (store.tokens kind).update (fun other => other.token == row.token) OAuthToken.invalidate
        else none with
      | some rows => (store.setTokens rows kind, .answered (some (kind, row.token)))
      | none => (store, .thrown outcome.error)
  | .answered revoked => (store, .answered revoked)
  | .rejected refusal => (store, .rejected refusal)
  | .thrown error => (store, .thrown error)

inductive Input where
  | authorize (request : AuthorizeRequest)
  | token (request : TokenRequest)
  | userinfo (bearer : String)
  | revoke (request : RevokeRequest)
  /-- Clients are registered, changed or removed. -/
  | setClients (clients : List OAuthClient)

inductive Call where
  | authorize (request : AuthorizeRequest) (phase : Authorizing)
  | token (request : TokenRequest) (phase : Exchanging)
  | userinfo (bearer : String) (phase : Informing)
  | revoke (request : RevokeRequest) (phase : Revoking)
  | done
  deriving DecidableEq, Repr

def missingClient : Refusal := ⟨"invalid_request", "client_id is required.", 400⟩

def Server.oauth (server : Server) : Protocol Store Call Input Outcome where
  call
    | .authorize request, store =>
        (store, .authorize request
          (if request.response_type = some "code" then .fetching
          else .refused ⟨"UnsupportedResponseType", "Only response_type=code is supported.", 400⟩))
    | .token request, store =>
        (store, .token request
          (if (truthy request.client_id).isSome then .fetching else .rejected missingClient))
    | .userinfo bearer, store => (store, .userinfo bearer .finding)
    | .revoke request, store =>
        (store, .revoke request
          (if (truthy request.client_id).isSome then .fetching else .rejected missingClient))
    | .setClients clients, store => ({ store with clients }, .done)
  turn outcome store
    | .authorize request phase =>
        let (store, next) := request.turn server outcome store phase
        (store, .authorize request next)
    | .token request phase =>
        let (store, next) := request.turn server outcome store phase
        (store, .token request next)
    | .userinfo bearer phase => (store, .userinfo bearer (phase.turn bearer outcome store))
    | .revoke request phase =>
        let (store, next) := request.turn server outcome store phase
        (store, .revoke request next)
    | .done => (store, .done)

/-- A server with clients that has issued nothing yet. -/
def start (clients : List OAuthClient) : Pool Store Call := ⟨⟨clients, .empty, .empty, .empty⟩, []⟩

end ThetaDirectory.OAuth
