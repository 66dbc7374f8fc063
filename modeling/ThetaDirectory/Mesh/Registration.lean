import ThetaDirectory.Mesh.Roster
import ThetaDirectory.Spokes.ServerIds

/-!
# Registry and roster of a master

Registration of a spoke (`POST /api/site/spokes`) with the mirror of its gateway in the roster,
`publishLocalSite` and `syncFromSpokes` of `utils/mesh_roster.js` and the removal of a spoke
(`DELETE /api/site/spokes/:id`), each turn from one await to the next.  A null that is sent
counts as the empty text.
-/

namespace ThetaDirectory.Mesh.Registration

open Library Library.Interleaving

/-- What a registration sends about the gateway of its site. -/
structure Gateway where
  gatewayPublicKey : Option String
  gatewayEndpoint : Option String
  gatewayExitPublicKey : Option String
  exitOpen : Option Bool
  country : Option String
  city : Option String
  lan168 : Option String
  lan172 : Option String
  dnsHost : Option String
  deriving DecidableEq, Repr

/-- The columns that the mirror writes. -/
def Gateway.fields (gateway : Gateway) (spoke : Spokes.SiteSpoke) : SiteFields where
  slug := some (spoke.siteSlug.getD "")
  name := some (some (spoke.siteSlug.getD ""))
  gatewayPublicKey := gateway.gatewayPublicKey
  gatewayEndpoint := some (gateway.gatewayEndpoint.getD "")
  gatewayExitPublicKey := gateway.gatewayExitPublicKey.map fun key => truthy (some key)
  isHub := none
  exitOpen := gateway.exitOpen
  country := gateway.country.map fun country => truthy (some country)
  city := gateway.city.map fun city => truthy (some city)
  lan168 := gateway.lan168
  lan172 := gateway.lan172
  dnsHost := gateway.dnsHost.map fun host => truthy (some host)

/-- The columns of a row made for a spoke that has published nothing. -/
def identity (spoke : Spokes.SiteSpoke) : SiteFields where
  slug := some (spoke.siteSlug.getD "")
  name := some (some (spoke.siteSlug.getD ""))
  gatewayPublicKey := none
  gatewayEndpoint := none
  gatewayExitPublicKey := none
  isHub := none
  exitOpen := none
  country := none
  city := none
  lan168 := some SHADOW_DEFAULT_168
  lan172 := some SHADOW_DEFAULT_172
  dnsHost := none

/-! ## Calls -/

inductive Registering where
  /-- The section under `site-spoke-register`, and the refusals. -/
  | entering (phase : Spokes.Registering)
  /-- `bySiteId` of the mirror -/
  | looking (spoke : Spokes.SiteSpoke) (siteId : Nat)
  /-- The update or creation of the mirror. -/
  | recording (spoke : Spokes.SiteSpoke) (siteId : Nat) (existing : Option MeshSite)
  | registered (spoke : Spokes.SiteSpoke)
  deriving DecidableEq, Repr

inductive Syncing where
  /-- `SiteSpoke.list` -/
  | listing
  /-- `bySiteId` for a spoke; the rest comes after it. -/
  | looking (siteId : Nat) (spoke : Spokes.SiteSpoke) (rest : List (Nat × Spokes.SiteSpoke))
      (created : Nat)
  | creating (siteId : Nat) (spoke : Spokes.SiteSpoke) (rest : List (Nat × Spokes.SiteSpoke))
      (created : Nat)
  | returned (created : Nat)
  | thrown (error : String)
  deriving DecidableEq, Repr

inductive Call where
  | registration (request : Spokes.Request) (gateway : Gateway) (phase : Registering)
  | publication (phase : Roster.Phase)
  | sync (phase : Syncing)
  | removal (id : String) (phase : Spokes.Removing)
  deriving DecidableEq, Repr

structure Cluster where
  registry : Spokes.Registry
  sites : Sites

/-- The mirror of a registered spoke, if there is something to mirror. -/
def Gateway.mirror (gateway : Gateway) (spoke : Spokes.SiteSpoke) : Registering :=
  match Spokes.assignedId spoke.ldapServerId, truthy gateway.gatewayPublicKey with
  | some siteId, some _ => .looking spoke siteId
  | _, _ => .registered spoke

/-- Behind the section. -/
def Gateway.behind (gateway : Gateway) : Spokes.Registering → Registering
  | .registered spoke => gateway.mirror spoke
  | phase => .entering phase

/-- The write of the mirror. -/
def Gateway.record (gateway : Gateway) (spoke : Spokes.SiteSpoke) (siteId : Nat) (uuid : String)
    (sites : Sites) : Option MeshSite → Option Sites
  | some existing => some (updateSite existing.id (gateway.fields spoke) sites)
  | none => createSite ((gateway.fields spoke).published false) uuid siteId sites

/-- A registration from one await to the next.  What fails in the mirror is swallowed. -/
def Registering.turn (indexed : Bool) (request : Spokes.Request) (gateway : Gateway)
    (outcome : Spokes.Outcome) (cluster : Cluster) : Registering → Cluster × Registering
  | .entering phase =>
      let (registry, next) := request.turn indexed outcome cluster.registry phase
      (⟨registry, cluster.sites⟩, gateway.behind next)
  | .looking spoke siteId =>
      if outcome.ok then (cluster, .recording spoke siteId (bySiteId cluster.sites.rows siteId))
      else (cluster, .registered spoke)
  | .recording spoke siteId existing =>
      match (if outcome.ok then
        gateway.record spoke siteId outcome.uuid cluster.sites existing else none) with
      | some sites => (⟨cluster.registry, sites⟩, .registered spoke)
      | none => (cluster, .registered spoke)
  | .registered spoke => (cluster, .registered spoke)

/-- The spokes with an id inside the mesh. -/
def inMesh (spokes : List Spokes.SiteSpoke) : List (Nat × Spokes.SiteSpoke) :=
  spokes.filterMap fun spoke =>
    ((Spokes.assignedId spoke.ldapServerId).filter (· ≤ MAX_SITE_ID)).map fun siteId =>
      (siteId, spoke)

def syncNext (created : Nat) : List (Nat × Spokes.SiteSpoke) → Syncing
  | [] => .returned created
  | (siteId, spoke) :: rest => .looking siteId spoke rest created

/-- `syncFromSpokes` from one await to the next. -/
def Syncing.turn (outcome : Spokes.Outcome) (cluster : Cluster) : Syncing → Cluster × Syncing
  | .listing =>
      if outcome.ok then (cluster, syncNext 0 (inMesh cluster.registry.rows))
      else (cluster, .thrown outcome.error)
  | .looking siteId spoke rest created =>
      if outcome.ok then
        match bySiteId cluster.sites.rows siteId with
        | some _ => (cluster, syncNext created rest)
        | none => (cluster, .creating siteId spoke rest created)
      else (cluster, .thrown outcome.error)
  | .creating siteId spoke rest created =>
      match (if outcome.ok then
        createSite (identity spoke) outcome.uuid siteId cluster.sites else none) with
      | some sites => (⟨cluster.registry, sites⟩, syncNext (created + 1) rest)
      | none => (cluster, .thrown outcome.error)
  | .returned created => (cluster, .returned created)
  | .thrown error => (cluster, .thrown error)

/-! ## The protocol -/

/-- The calls, with what `localSiteId`, the configured slug and `isMaster` are when they are
made. -/
inductive Input where
  | register (request : Spokes.Request) (gateway : Gateway)
  | publishLocalSite (own : Option Nat) (siteSlug : String) (patch : Publication)
  | syncFromSpokes (isMaster : Bool)
  | remove (isMaster : Bool) (id : String)

def Input.start : Input → Call
  | .register request gateway =>
      .registration request gateway
        (.entering (if request.valid then .queued else .refused .endpointRequired))
  | .publishLocalSite own siteSlug patch =>
      .publication (Roster.Input.publishLocalSite own siteSlug patch).start
  | .syncFromSpokes isMaster => .sync (if isMaster then .listing else .returned 0)
  | .remove isMaster id => .removal id (if isMaster then .finding else .ended false)

def Call.turn (indexed : Bool) (outcome : Spokes.Outcome) (cluster : Cluster) :
    Call → Cluster × Call
  | .registration request gateway phase =>
      let (after, next) := phase.turn indexed request gateway outcome cluster
      (after, .registration request gateway next)
  | .publication phase =>
      let (sites, next) :=
        Roster.roster.turn ⟨outcome.ok, outcome.error, outcome.uuid⟩ cluster.sites phase
      (⟨cluster.registry, sites⟩, .publication next)
  | .sync phase =>
      let (after, next) := phase.turn outcome cluster
      (after, .sync next)
  | .removal id phase =>
      let (registry, next) := phase.turn id outcome cluster.registry
      (⟨registry, cluster.sites⟩, .removal id next)

def mesh (indexed : Bool) : Protocol Cluster Call Input Spokes.Outcome where
  call input cluster := (cluster, input.start)
  turn := Call.turn indexed

/-- A master before its first spoke. -/
def start (sites : Sites) : Pool Cluster Call := ⟨⟨⟨[], false⟩, sites⟩, []⟩

end ThetaDirectory.Mesh.Registration
