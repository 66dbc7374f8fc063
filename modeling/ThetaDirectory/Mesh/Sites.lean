import ThetaDirectory.Library.Table
import ThetaDirectory.Mesh.Addressing
import ThetaDirectory.Text

/-!
# Sites of the mesh

The rows of `models/mesh_site.js`, and the columns that a gateway's publication and an adopted
row of another roster write to them (`publishLocalSite` and `adoptRoster` of
`utils/mesh_roster.js`).  The times `publishedAt` and `lastSeenAt` are left out.
-/

namespace ThetaDirectory.Mesh

open Library

/-- A `MeshSite` row. -/
structure MeshSite where
  id : String
  siteId : Nat
  slug : Option String
  name : Option String
  gatewayPublicKey : Option String
  gatewayEndpoint : Option String
  gatewayExitPublicKey : Option String
  isHub : Bool
  exitOpen : Bool
  country : Option String
  city : Option String
  lan168 : Option String
  lan172 : Option String
  dnsHost : Option String
  deriving DecidableEq, Repr

/-- The unique column `siteId`. -/
def MeshSite.key (site : MeshSite) : String := toString site.siteId

abbrev Sites : Type := Table MeshSite [MeshSite.id, MeshSite.key]

def SHADOW_DEFAULT_168 : String := "192.168.1.0/24"

def SHADOW_DEFAULT_172 : String := "172.16.0.0/24"

/-- The columns that a write sets. -/
structure SiteFields where
  slug : Option String
  name : Option (Option String)
  gatewayPublicKey : Option String
  gatewayEndpoint : Option String
  gatewayExitPublicKey : Option (Option String)
  isHub : Option Bool
  exitOpen : Option Bool
  country : Option (Option String)
  city : Option (Option String)
  lan168 : Option String
  lan172 : Option String
  dnsHost : Option (Option String)
  deriving DecidableEq, Repr

def SiteFields.onto (fields : SiteFields) (site : MeshSite) : MeshSite where
  id := site.id
  siteId := site.siteId
  slug := fields.slug.or site.slug
  name := fields.name.getD site.name
  gatewayPublicKey := fields.gatewayPublicKey.or site.gatewayPublicKey
  gatewayEndpoint := fields.gatewayEndpoint.or site.gatewayEndpoint
  gatewayExitPublicKey := fields.gatewayExitPublicKey.getD site.gatewayExitPublicKey
  isHub := fields.isHub.getD site.isHub
  exitOpen := fields.exitOpen.getD site.exitOpen
  country := fields.country.getD site.country
  city := fields.city.getD site.city
  lan168 := fields.lan168.or site.lan168
  lan172 := fields.lan172.or site.lan172
  dnsHost := fields.dnsHost.getD site.dnsHost

/-- A row made with these columns, the rest by default. -/
def SiteFields.made (fields : SiteFields) (id : String) (siteId : Nat) : MeshSite :=
  fields.onto ⟨id, siteId, none, none, none, none, none, false, true, none, none, none, none, none⟩

/-- What a gateway publishes about its site. -/
structure Publication where
  slug : Option String
  name : Option String
  gatewayPublicKey : Option String
  gatewayEndpoint : Option String
  gatewayExitPublicKey : Option String
  exitOpen : Option Bool
  country : Option String
  city : Option String
  lan168 : Option String
  lan172 : Option String
  dnsHost : Option String
  dnsHostDetected : Option String
  deriving DecidableEq, Repr

/-- The columns a publication writes: those supplied, and a resolver that was found only while
there is none. -/
def Publication.fields (patch : Publication) (siteSlug : String) (existing : Option MeshSite) :
    SiteFields where
  slug := some (((truthy patch.slug).or (existing.bind fun site => truthy site.slug)).getD siteSlug)
  name := some (patch.name.or (match existing with
    | some site => site.name
    | none => some siteSlug))
  gatewayPublicKey := patch.gatewayPublicKey
  gatewayEndpoint := patch.gatewayEndpoint
  gatewayExitPublicKey := patch.gatewayExitPublicKey.map some
  isHub := none
  exitOpen := patch.exitOpen
  country := patch.country.map some
  city := patch.city.map some
  lan168 := patch.lan168
  lan172 := patch.lan172
  dnsHost := (patch.dnsHost.or (if (existing.bind fun site => truthy site.dnsHost).isSome then none
    else truthy patch.dnsHostDetected)).map some

/-- The columns of the row that a first publication makes. -/
def SiteFields.published (fields : SiteFields) (isHub : Bool) : SiteFields :=
  { fields with
    isHub := some isHub
    lan168 := some (fields.lan168.getD SHADOW_DEFAULT_168)
    lan172 := some (fields.lan172.getD SHADOW_DEFAULT_172) }

/-- The columns taken from a row of another roster. -/
def MeshSite.adopted (row : MeshSite) : SiteFields where
  slug := some (row.slug.getD "")
  name := some (some (row.name.getD ""))
  gatewayPublicKey := some (row.gatewayPublicKey.getD "")
  gatewayEndpoint := some (row.gatewayEndpoint.getD "")
  gatewayExitPublicKey := some (some (row.gatewayExitPublicKey.getD ""))
  isHub := some row.isHub
  exitOpen := some row.exitOpen
  country := some (some (row.country.getD ""))
  city := some (some (row.city.getD ""))
  lan168 := some (row.lan168.getD "")
  lan172 := some (row.lan172.getD "")
  dnsHost := some (some (row.dnsHost.getD ""))

/-- The rows `adoptRoster` takes over: it skips the node's own site and ids outside the mesh. -/
def adoptable (own : Option Nat) (meshSites : List MeshSite) : List MeshSite :=
  meshSites.filter fun row => row.siteId != 0 && row.siteId ≤ MAX_SITE_ID &&
    own.all fun own => own == 0 || row.siteId != own

def bySiteId (sites : List MeshSite) (siteId : Nat) : Option MeshSite :=
  sites.find? fun site => site.siteId == siteId

/-! ## Writes -/

def createSite (fields : SiteFields) (id : String) (siteId : Nat) (sites : Sites) : Option Sites :=
  sites.insert (fields.made id siteId)

theorem onto_keeps (fields : SiteFields) :
    ∀ column ∈ [MeshSite.id, MeshSite.key], ∀ site, column (fields.onto site) = column site := by
  intro column listed site
  simp only [List.mem_cons, List.not_mem_nil, or_false] at listed
  rcases listed with rfl | rfl <;> rfl

/-- Write columns of the row with an id, which leaves the unique ones alone. -/
def updateSite (id : String) (fields : SiteFields) (sites : Sites) : Sites :=
  sites.map (fun site => if site.id = id then fields.onto site else site) (by
    intro column listed site
    split
    · exact onto_keeps fields column listed site
    · rfl)

variable {sites after : Sites} {fields : SiteFields} {id : String} {siteId : Nat} {site : MeshSite}

theorem mem_updateSite : site ∈ (updateSite id fields sites).rows ↔
    ∃ old ∈ sites.rows, (if old.id = id then fields.onto old else old) = site :=
  List.mem_map

theorem mem_createSite (created : createSite fields id siteId sites = some after) :
    site ∈ after.rows ↔ site ∈ sites.rows ∨ site = fields.made id siteId :=
  Table.mem_insert created

theorem eq_of_siteId {other : MeshSite} (member : site ∈ sites.rows) (memberOther : other ∈ sites.rows)
    (same : site.siteId = other.siteId) : site = other :=
  Table.eq_of_column MeshSite.key (by simp) member memberOther (congrArg toString same)

theorem eq_of_id {other : MeshSite} (member : site ∈ sites.rows) (memberOther : other ∈ sites.rows)
    (same : site.id = other.id) : site = other :=
  Table.eq_of_column MeshSite.id (by simp) member memberOther same

/-! ## Copies of rows -/

/-- A row with the id and the site of a copy is there. -/
def Known (sites : List MeshSite) (copy : MeshSite) : Prop :=
  ∃ site ∈ sites, site.id = copy.id ∧ site.siteId = copy.siteId

variable {copy : MeshSite}

theorem known_updateSite (known : Known sites.rows copy) :
    Known (updateSite id fields sites).rows copy := by
  obtain ⟨site, member, same, sameSite⟩ := known
  refine ⟨if site.id = id then fields.onto site else site, mem_updateSite.mpr ⟨site, member, rfl⟩, ?_⟩
  split
  · exact ⟨same, sameSite⟩
  · exact ⟨same, sameSite⟩

theorem known_createSite {new : Nat} (created : createSite fields id new sites = some after)
    (known : Known sites.rows copy) : Known after.rows copy := by
  obtain ⟨site, member, same⟩ := known
  exact ⟨site, (mem_createSite created).mpr (Or.inl member), same⟩

theorem known_of_bySiteId (found : bySiteId sites.rows siteId = some site) :
    Known sites.rows site ∧ site.siteId = siteId := by
  have same := List.find?_some found
  exact ⟨⟨site, List.mem_of_find?_eq_some found, rfl, rfl⟩, eq_of_beq same⟩

end ThetaDirectory.Mesh
