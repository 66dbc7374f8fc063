import ThetaDirectory.Library.Interleaving
import ThetaDirectory.Text

/-!
# The spoke registry

Registration (`POST /api/site/spokes`), the adoption of an inherited roster (`adoptRows` of
`utils/site_promote.js`) and removal (`DELETE /api/site/spokes/:id`), each turn from one await
to the next.  Registration and adoption run under the lock `site-spoke-register`, which one
call at a time holds; removal does not.

The database can fail any operation.  `indexed` tells whether the unique index on
`ldapServerId` of `models/index.js` is in place, which then refuses a row with a taken id.
-/

namespace ThetaDirectory.Spokes

open Library.Interleaving

/-- A `SiteSpoke` row. -/
structure SiteSpoke where
  id : String
  endpoint : String
  siteSlug : Option String
  pushToken : String
  noInbound : Bool
  meshIp : String
  publicHost : String
  ldapServerId : Option Nat
  deriving DecidableEq, Repr

def MAX_LDAP_SERVER_ID : Nat := 4094

/-- An id that counts as one. -/
def assignedId (id : Option Nat) : Option Nat := id.filter (· ≠ 0)

/-- The ids of all rows that have one. -/
def serverIds (rows : List SiteSpoke) : List Nat :=
  rows.filterMap fun row => assignedId row.ldapServerId

def nextFreeLdapServerId (rows : List SiteSpoke) : Option Nat :=
  (List.range' 2 (MAX_LDAP_SERVER_ID - 1)).find? fun id => id ∉ serverIds rows

/-- The text of the error it throws. -/
def idSpaceExhausted : String :=
  "LDAP server ID space exhausted (max " ++ toString MAX_LDAP_SERVER_ID ++ " spokes)"

def trimSlash (url : String) : String := String.ofList (url.toList.rdropWhile (· == '/'))

/-! ## Writes -/

/-- The columns an update sets. -/
structure Patch where
  endpoint : Option String
  siteSlug : Option String
  pushToken : Option String
  noInbound : Option Bool
  meshIp : Option String
  publicHost : Option String
  ldapServerId : Option (Option Nat)
  deriving DecidableEq, Repr

def Patch.onto (patch : Patch) (row : SiteSpoke) : SiteSpoke where
  id := row.id
  endpoint := patch.endpoint.getD row.endpoint
  siteSlug := patch.siteSlug
  pushToken := patch.pushToken.getD row.pushToken
  noInbound := patch.noInbound.getD row.noInbound
  meshIp := patch.meshIp.getD row.meshIp
  publicHost := patch.publicHost.getD row.publicHost
  ldapServerId := patch.ldapServerId.getD row.ldapServerId

/-- How the database answers: whether it carries an operation out, what it says if not, and the
random values a row is made with. -/
structure Outcome where
  ok : Bool
  error : String
  uuid : String
  token : String
  deriving DecidableEq, Repr

/-- The index admits a row with the id beside the others. -/
def admits (indexed : Bool) (id : Option Nat) (others : List SiteSpoke) : Bool :=
  match assignedId id with
  | some id => !indexed || id ∉ serverIds others
  | none => true

/-- Insert a row; the keys of rows differ. -/
def create (indexed : Bool) (row : SiteSpoke) (rows : List SiteSpoke) :
    Option (List SiteSpoke) :=
  if (rows.all fun other => other.id != row.id) && admits indexed row.ldapServerId rows then
    some (rows ++ [row])
  else none

/-- Change the row with a key; without one nothing happens. -/
def update (indexed : Bool) (id : String) (patch : Patch) (rows : List SiteSpoke) :
    Option (List SiteSpoke) :=
  match rows.findIdx? fun row => row.id == id with
  | none => some rows
  | some index =>
      if admits indexed (patch.ldapServerId.getD none) (rows.eraseIdx index) then
        some (rows.modify index patch.onto)
      else none

/-! ## Calls -/

/-- What a spoke sends. -/
structure Request where
  endpoint : String
  siteSlug : Option String
  noInbound : Option Bool
  meshIp : Option String
  publicHost : Option String
  deriving DecidableEq, Repr

inductive Refusal where
  | endpointRequired
  | lockTimeout
  | database (error : String)
  | exhausted (error : String)
  deriving DecidableEq, Repr

inductive Registering where
  | queued
  | byEndpoint
  | bySlug (siteSlug : String)
  | updating (row : SiteSpoke)
  | allocating
  | creating (ldapServerId : Nat)
  | registered (row : SiteSpoke)
  | refused (refusal : Refusal)
  deriving DecidableEq, Repr

/-- A row of the roster a demoted master hands over. -/
structure Inherited where
  endpoint : String
  siteSlug : Option String
  pushToken : Option String
  noInbound : Bool
  meshIp : Option String
  publicHost : Option String
  ldapServerId : Option Nat
  deriving DecidableEq, Repr

/-- What `adoptRows` returns. -/
structure Report where
  adopted : Nat
  results : List (String × String)
  pending : List (String × String)
  deriving DecidableEq, Repr

/-- The loop of `adoptRows` at one inherited row. -/
structure Adoption where
  localSpokes : List SiteSpoke
  used : List Nat
  endpoint : String
  inherited : Inherited
  rest : List Inherited
  report : Report
  deriving DecidableEq, Repr

inductive Adopting where
  | queued
  | listing
  | assigning (loop : Adoption)
  | writing (loop : Adoption) (ldapServerId : Option Nat)
  | finished (report : Report)
  | timedOut
  deriving DecidableEq, Repr

inductive Removing where
  | finding
  | deleting
  | ended (found : Bool)
  deriving DecidableEq, Repr

inductive Call where
  | registration (request : Request) (phase : Registering)
  | adoption (inheritedSpokes : List Inherited) (selfUrl : String) (phase : Adopting)
  | removal (id : String) (phase : Removing)
  deriving DecidableEq, Repr

structure Registry where
  rows : List SiteSpoke
  /-- A call holds `site-spoke-register`. -/
  locked : Bool
  deriving DecidableEq, Repr

/-! ## Registration -/

namespace Request

/-- The endpoint is a web address. -/
def valid (request : Request) : Bool :=
  "http://".toList.isPrefixOf request.endpoint.toList ||
    "https://".toList.isPrefixOf request.endpoint.toList

def cleanEndpoint (request : Request) : String := trimSlash request.endpoint

/-- Only what the caller sent, with the slug the row has. -/
def patch (request : Request) (row : Option SiteSpoke) : Patch where
  endpoint := none
  siteSlug := (truthy request.siteSlug).or (truthy (row.bind (·.siteSlug)))
  pushToken := none
  noInbound := request.noInbound
  meshIp := request.meshIp
  publicHost := request.publicHost
  ldapServerId := none

/-- The patch for a row that was found. -/
def refresh (request : Request) (row : SiteSpoke) (token : String) : Patch :=
  { request.patch (some row) with
    endpoint := some request.cleanEndpoint
    pushToken := if row.pushToken = "" then some token else none }

/-- The row of a spoke not known yet. -/
def row (request : Request) (ldapServerId : Nat) (outcome : Outcome) : SiteSpoke :=
  (request.patch none).onto {
    id := outcome.uuid
    endpoint := request.cleanEndpoint
    siteSlug := none
    pushToken := outcome.token
    noInbound := false
    meshIp := ""
    publicHost := ""
    ldapServerId := some ldapServerId }

end Request

/-- The end of the section: the lock is released. -/
def Registry.leave {β : Type} (rows : List SiteSpoke) (result : β) : Registry × β :=
  (⟨rows, false⟩, result)

/-- A registration from one await to the next; while it is queued, `ok` tells whether its wait
has not timed out. -/
def Request.turn (indexed : Bool) (request : Request) (outcome : Outcome) (registry : Registry) :
    Registering → Registry × Registering
  | .queued =>
      if outcome.ok = false then (registry, .refused .lockTimeout)
      else if registry.locked then (registry, .queued)
      else ({ registry with locked := true }, .byEndpoint)
  | .byEndpoint =>
      if outcome.ok then
        match registry.rows.find? fun row => row.endpoint == request.cleanEndpoint with
        | some row => (registry, .updating row)
        | none =>
            match truthy request.siteSlug with
            | some siteSlug => (registry, .bySlug siteSlug)
            | none => (registry, .allocating)
      else Registry.leave registry.rows (.refused (.database outcome.error))
  | .bySlug siteSlug =>
      if outcome.ok then
        match registry.rows.find? fun row => row.siteSlug == some siteSlug with
        | some row => (registry, .updating row)
        | none => (registry, .allocating)
      else Registry.leave registry.rows (.refused (.database outcome.error))
  | .updating row =>
      match (if outcome.ok then
        update indexed row.id (request.refresh row outcome.token) registry.rows else none) with
      | some rows =>
          Registry.leave rows (.registered ((request.refresh row outcome.token).onto row))
      | none => Registry.leave registry.rows (.refused (.database outcome.error))
  | .allocating =>
      if outcome.ok then
        match nextFreeLdapServerId registry.rows with
        | some id => (registry, .creating id)
        | none => Registry.leave registry.rows (.refused (.exhausted idSpaceExhausted))
      else Registry.leave registry.rows (.refused (.database outcome.error))
  | .creating id =>
      match (if outcome.ok then
        create indexed (request.row id outcome) registry.rows else none) with
      | some rows => Registry.leave rows (.registered (request.row id outcome))
      | none => Registry.leave registry.rows (.refused (.database outcome.error))
  | .registered row => (registry, .registered row)
  | .refused refusal => (registry, .refused refusal)

/-! ## Adoption -/

/-- Step past the ids claimed in the loop. -/
def stepPast (used : List Nat) : Nat → Nat → Nat
  | 0, id => id
  | steps + 1, id => if id ∈ used then stepPast used steps (id + 1) else id

/-- The inherited id, if it is free. -/
def Inherited.keptId (used : List Nat) (inherited : Inherited) : Option Nat :=
  (assignedId inherited.ldapServerId).filter (· ∉ used)

/-- Claim an id for the row at hand and go on to its write. -/
def Adoption.claim (loop : Adoption) (id : Option Nat) : Adopting :=
  .writing { loop with used := id.toList ++ loop.used } id

/-- The loop up to its next await. -/
def advance (localSpokes : List SiteSpoke) (used : List Nat) (selfUrl : String)
    (report : Report) : List Inherited → Adopting
  | [] => .finished report
  | inherited :: rest =>
      let endpoint := trimSlash inherited.endpoint
      let self := trimSlash selfUrl
      if endpoint = "" ∨ self ≠ "" ∧ endpoint = self then
        advance localSpokes used selfUrl report rest
      else
        let loop := Adoption.mk localSpokes used endpoint inherited rest report
        match inherited.keptId used with
        | some id => loop.claim (some id)
        | none => .assigning loop

/-- The loop holds the lock until its last row. -/
def Registry.afterLoop (rows : List SiteSpoke) (phase : Adopting) : Registry × Adopting :=
  match phase with
  | .finished report => Registry.leave rows (.finished report)
  | phase => (⟨rows, true⟩, phase)

namespace Adoption

def patch (loop : Adoption) (ldapServerId : Option Nat) (token : String) : Patch where
  endpoint := none
  siteSlug := truthy loop.inherited.siteSlug
  pushToken := some ((truthy loop.inherited.pushToken).getD token)
  noInbound := some loop.inherited.noInbound
  meshIp := some ((truthy loop.inherited.meshIp).getD "")
  publicHost := some ((truthy loop.inherited.publicHost).getD "")
  ldapServerId := some ldapServerId

/-- Update the local row of the endpoint, or create one. -/
def write (indexed : Bool) (loop : Adoption) (ldapServerId : Option Nat) (outcome : Outcome)
    (rows : List SiteSpoke) : Option (List SiteSpoke) :=
  let patch := loop.patch ldapServerId outcome.token
  match loop.localSpokes.find? fun row => trimSlash row.endpoint == loop.endpoint with
  | some row => update indexed row.id patch rows
  | none => create indexed (patch.onto ⟨outcome.uuid, loop.endpoint, none, "", false, "", "", none⟩)
      rows

/-- The report behind the write. -/
def reported (loop : Adoption) (written : Bool) (outcome : Outcome) : Report :=
  if written then
    { adopted := loop.report.adopted + 1
      results := loop.report.results ++ [(loop.endpoint, "adopted")]
      pending := loop.report.pending ++
        [(loop.endpoint, (truthy loop.inherited.pushToken).getD outcome.token)] }
  else
    { loop.report with
      results := loop.report.results ++ [(loop.endpoint, "adoption failed: " ++ outcome.error)] }

end Adoption

/-- An adoption from one await to the next.  The list of local rows and the search for a free
id count as empty when the database fails. -/
def Adopting.turn (indexed : Bool) (inheritedSpokes : List Inherited) (selfUrl : String)
    (outcome : Outcome) (registry : Registry) : Adopting → Registry × Adopting
  | .queued =>
      if outcome.ok = false then (registry, .timedOut)
      else if registry.locked then (registry, .queued)
      else if inheritedSpokes.isEmpty then (registry, .finished ⟨0, [], []⟩)
      else ({ registry with locked := true }, .listing)
  | .listing =>
      let localSpokes := if outcome.ok then registry.rows else []
      Registry.afterLoop registry.rows
        (advance localSpokes (1 :: serverIds localSpokes) selfUrl ⟨0, [], []⟩ inheritedSpokes)
  | .assigning loop =>
      let free := if outcome.ok then nextFreeLdapServerId registry.rows else none
      (registry, loop.claim (free.map (stepPast loop.used loop.used.length)))
  | .writing loop ldapServerId =>
      let written := if outcome.ok then loop.write indexed ldapServerId outcome registry.rows
        else none
      Registry.afterLoop (written.getD registry.rows)
        (advance loop.localSpokes loop.used selfUrl (loop.reported written.isSome outcome) loop.rest)
  | .finished report => (registry, .finished report)
  | .timedOut => (registry, .timedOut)

/-! ## Removal -/

def Removing.turn (id : String) (outcome : Outcome) (registry : Registry) :
    Removing → Registry × Removing
  | .finding =>
      if outcome.ok && registry.rows.any (·.id == id) then (registry, .deleting)
      else (registry, .ended false)
  | .deleting =>
      if outcome.ok then
        ({ registry with rows := registry.rows.filter (·.id != id) }, .ended true)
      else (registry, .ended false)
  | .ended found => (registry, .ended found)

/-! ## The protocol -/

inductive Input where
  | register (request : Request)
  | adopt (inheritedSpokes : List Inherited) (selfUrl : String)
  | remove (id : String)
  deriving DecidableEq, Repr

def protocol (indexed : Bool) : Protocol Registry Call Input Outcome where
  call input registry :=
    match input with
    | .register request =>
        (registry, .registration request
          (if request.valid then .queued else .refused .endpointRequired))
    | .adopt inheritedSpokes selfUrl => (registry, .adoption inheritedSpokes selfUrl .queued)
    | .remove id => (registry, .removal id .finding)
  turn outcome registry call :=
    match call with
    | .registration request phase =>
        let (after, next) := request.turn indexed outcome registry phase
        (after, .registration request next)
    | .adoption inheritedSpokes selfUrl phase =>
        let (after, next) := phase.turn indexed inheritedSpokes selfUrl outcome registry
        (after, .adoption inheritedSpokes selfUrl next)
    | .removal id phase =>
        let (after, next) := phase.turn id outcome registry
        (after, .removal id next)

/-- A registry before its first request. -/
def start (rows : List SiteSpoke) : Pool Registry Call := ⟨⟨rows, false⟩, []⟩

end ThetaDirectory.Spokes
