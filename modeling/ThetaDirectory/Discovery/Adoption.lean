import ThetaDirectory.Discovery.Reconcile

/-!
# Adopting a host

What a bound agent's discovery does to the catalogue: `applyDiscoveryToDirectory` of
`utils/agent_manager.js` with the helpers of `utils/agent_binding.js`.  A placeholder
host gives its children to the host it turns out to be, and goes.
-/

namespace ThetaDirectory.Discovery

open Library Catalog

/-- What an agent reports; `facts` holds what is only stored. -/
structure AgentDiscovery where
  hostname : Option String
  macAddress : Option String
  ipAddresses : List String
  facts : Metadata

/-! ## Host names -/

def dropLead (leads : List String) (text : List Char) : List Char :=
  match leads.find? fun lead => lead.toList.isPrefixOf text with
  | some lead => text.drop lead.length
  | none => text

def dropTail (tails : List String) (text : List Char) : List Char :=
  match tails.find? fun tail => tail.toList.isSuffixOf text with
  | some tail => text.take (text.length - tail.length)
  | none => text

def dropPort (text : List Char) : List Char :=
  let front := text.rdropWhile Char.isDigit
  if front.length < text.length ∧ front.getLast? = some ':' then front.dropLast else text

/-- Drop a dash and this many hexadecimal digits from the end. -/
def dropHexTail (digits : Nat) (text : List Char) : List Char :=
  let tail := text.drop (text.length - (digits + 1))
  if tail.length = digits + 1 ∧ tail.head? = some '-' ∧ tail.tail.all isHexDigit then
    text.take (text.length - (digits + 1))
  else text

/-- Host names and slugs without their usual prefixes and suffixes. -/
def normalizeHost (name : Option String) : String :=
  let text := (toLowerCase (name.getD "")).toList
  let text := dropPort (dropLead ["https://", "http://"] text)
  let text := dropLead ["lxc-", "vm-", "host-", "host_", "pve-node-", "pve-"] text
  let text := dropHexTail 8 (dropHexTail 12 text)
  let text := text.filter fun char => isSlugChar char || char == '_' || char == '-'
  String.ofList (dropTail
    (["local", "lan", "internal", "home"].flatMap fun word => ["_" ++ word, "-" ++ word]) text)

/-! ## The service an agent is bound to -/

def isAgentService (row : Resource) : Bool :=
  row.kind == "service" && (row.metadata.field "subType").isStr "theta-agent"

def agentServiceSlug (hostSlug : String) : String :=
  let slug := if hostSlug = "" then "host" else hostSlug
  "svc-" ++ String.ofList (dropLead ["host-"] slug.toList) ++ "-theta-agent"

def findAgentService (store : Store) (hostId : String) : Option Resource :=
  (store.edges.filter fun edge => edge.parentId == hostId).findSome? fun edge =>
    (store.find edge.childId).filter isAgentService

/-- The agent service of a host; a missing one is created under it. -/
def ensureAgentService (env : Env) (store : Store) (host : Resource) :
    Except String (Resource × Store) :=
  match findAgentService store host.id with
  | some service => .ok (service, store)
  | none => do
      let (service, store) ← store.create (env.hex 0) ⟨env.uuid 0, "service", "Theta Agent",
        agentServiceSlug host.slug,
        ((∅ : Metadata).insert "subType" (.str "theta-agent")).insert "managed" (.bool true)⟩
      return (service, { store with
        edges := store.edges ++ [⟨env.uuid 1, host.id, service.id, "hosts", none⟩] })

/-- The host the agent's service hangs under. -/
def hostForAgent (store : Store) (resourceId : Option String) : Option Resource := do
  let service ← ((truthy resourceId).bind store.find).filter isAgentService
  (store.edges.filter fun edge => edge.childId == service.id).findSome? fun edge =>
    (store.find edge.parentId).filter fun row => row.kind == "host"

/-! ## The host it turns out to be -/

/-- Walk up to the nearest site; each call adds an end of an edge to `visited`. -/
def findAncestorSiteSlug (store : Store) : Nat → String → List String → Option String × List String
  | 0, _, visited => (none, visited)
  | depth + 1, id, visited =>
      if id = "" ∨ id ∈ visited then (none, visited)
      else
        (store.edges.filter fun edge => edge.childId == id).foldl
          (fun (state : Option String × List String) edge =>
            if state.1.isSome then state
            else
              match (store.find edge.parentId).filter fun row => row.kind == "site" with
              | some site => (some site.slug, state.2)
              | none =>
                  let upstream := findAncestorSiteSlug store depth edge.parentId state.2
                  (truthy upstream.1, upstream.2))
          (none, id :: visited)

def siteSlugOf (store : Store) (id : String) : Option String :=
  (findAncestorSiteSlug store (store.edges.length + 2) id []).1

/-- The host the placeholder stands for: by MAC, then by IP, and by name where the
agent reported neither. -/
def findRealHost (store : Store) (placeholder : Resource) (discovery : AgentDiscovery) :
    Option Resource :=
  let allHosts := store.resources.filter fun row => row.kind == "host" && row.id != placeholder.id
  let incomingMacs := macsOf
    (discovery.macAddress.elim ∅ fun mac => (∅ : Metadata).insert "macAddress" (.str mac))
  let incomingIps := discovery.ipAddresses.filter (· ≠ "")
  let inputName := normalizeHost discovery.hostname
  let scope : Scope := ⟨siteSlugOf store, siteSlugOf store placeholder.id⟩
  let byName :=
    if incomingMacs.isEmpty && incomingIps.isEmpty && inputName != "" then
      allHosts.find? fun row => !hasStrongIdentity row && scope.admits row.id &&
        ((row.name != "" && normalizeHost (some row.name) == inputName) ||
          (row.slug != "" && normalizeHost (some row.slug) == inputName))
    else none
  (matchByMac incomingMacs allHosts).or ((matchByIp (incomingIps.map .str) allHosts scope).or byName)

/-- Give the children of the placeholder to the real host, the agent's old service
apart, and take the placeholder out of the graph. -/
def moveChildren (placeholderId realId : String) (oldServiceId : Option String)
    (edges : List EdgeRow) : List EdgeRow :=
  let moved := edges.filterMap fun edge =>
    if edge.parentId = placeholderId then
      if oldServiceId = some edge.childId then none else some { edge with parentId := realId }
    else some edge
  moved.filter fun edge => edge.childId ≠ placeholderId

/-- The child's `hostId` follows the host it is moved to. -/
def moveHostId (placeholderId realId : String) (movedIds : List String) (row : Resource) : Resource :=
  if movedIds.contains row.id && (row.metadata.field "hostId").isStr placeholderId then
    { row with metadata := row.metadata.insert "hostId" (.str realId) }
  else row

def touch (env : Env) (row : Resource) : Resource :=
  { row with metadata := row.metadata.insert "last_seen" (.num env.now) }

/-- The real host takes over the placeholder; the result is the agent's new service. -/
def adoptHost (env : Env) (store : Store) (placeholder realHost : Resource)
    (resourceId : Option String) : Except String (String × Store) := do
  let oldServiceId := ((truthy resourceId).bind store.find).map (·.id)
  let (newService, store) ← ensureAgentService env store realHost
  let movedIds := ((store.edges.filter fun edge => edge.parentId == placeholder.id &&
    oldServiceId != some edge.childId)).map (·.childId)
  let resources := (store.update newService.id (touch env)).resources.map
    (moveHostId placeholder.id realHost.id movedIds)
  return (newService.id, { store with
    resources := resources.filter fun row => row.id ≠ placeholder.id ∧
      (oldServiceId = some row.id → row.id = newService.id)
    edges := moveChildren placeholder.id realHost.id oldServiceId store.edges })

/-- The facts a bound agent writes to its host. -/
def hostMetadata (env : Env) (discovery : AgentDiscovery) : Metadata :=
  let withText (metadata : Metadata) (key : String) (value : Option String) : Metadata :=
    match truthy value with
    | some text => metadata.insert key (.str text)
    | none => metadata
  let metadata := withText discovery.facts "ip" discovery.ipAddresses.head?
  (withText metadata "macAddress" discovery.macAddress).insert "last_seen" (.num env.now)

/-- The host's metadata with what the agent reports. -/
def withDiscovery (env : Env) (metadata : Metadata) (discovery : AgentDiscovery) : Metadata :=
  let merged := metadata.spread (hostMetadata env discovery)
  withSources merged (sourcesOf merged ++ ["theta-agent"]).eraseDups

/-- The catalogue after a bound agent's discovery; an exception is caught and leaves
the catalogue as it was. -/
def applyDiscovery (env : Env) (resourceId : Option String) (discovery : AgentDiscovery)
    (store : Store) : Store :=
  match hostForAgent store resourceId with
  | none => store
  | some placeholder =>
      let adopted : Except String (Resource × Option String × Store) :=
        match findRealHost store placeholder discovery with
        | none => .ok (placeholder, resourceId, store)
        | some realHost => do
            let (serviceId, store) ← adoptHost env store placeholder realHost resourceId
            return (realHost, some serviceId, store)
      match adopted with
      | .error _ => store
      | .ok (host, serviceId, store) =>
          let store := store.update (serviceId.getD "") (touch env)
          store.update host.id fun row =>
            { row with metadata := withDiscovery env host.metadata discovery }

end ThetaDirectory.Discovery
