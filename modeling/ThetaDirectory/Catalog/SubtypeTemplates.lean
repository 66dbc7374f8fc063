import ThetaDirectory.Catalog.Resource

/-!
# What a resource of a given kind and subtype gets

`services/subtype_templates.js`: the template cache, the hardcoded tables that
answer before it is loaded, and the questions the rest of the directory asks.
-/

namespace ThetaDirectory.Catalog

open Library

/-- A row an operator can edit. -/
structure SubtypeTemplate where
  slug : String
  targetKind : String
  identityClass : Option String
  sshCapable : Bool
  inheritsHostAccess : Bool

/-- What the cache keeps of a row. -/
structure CachedTemplate where
  identityClass : String
  sshCapable : Bool
  inheritsHost : Bool
  deriving DecidableEq, Repr

/-- The cache is absent until the first refresh completes. -/
abbrev TemplateCache := Option (JsMap CachedTemplate)

def refreshTemplateCache (rows : List SubtypeTemplate) : TemplateCache :=
  some <| rows.foldl (fun next row => next.insert (toLowerCase row.slug)
    { identityClass := (truthy row.identityClass).getD row.targetKind
      sshCapable := row.sshCapable
      inheritsHost := row.inheritsHostAccess }) ∅

def cachedTemplate (cache : TemplateCache) (subType : String) : Option CachedTemplate :=
  cache.bind fun templates => templates.lookup subType

def sshCapableHostSubtypes : List String :=
  ["linux", "lxc", "vm", "proxmox", "hypervisor", "debian", "ubuntu", "server", ""]

def neverSshSubtypes : List String :=
  ["ilo", "bmc", "idrac", "switch", "ap", "printer", "camera"]

def agentServiceSubtypes : List String :=
  ["theta-agent", "port-forward", "systemd", "docker", "podman", "process", "openrc",
    "systemd-timer", "cron"]

/-- The answers of `templateFor`. -/
structure Template where
  sshCapable : Bool
  ownGroups : Bool
  inheritsHost : Bool
  deriving DecidableEq, Repr

def templateFor (cache : TemplateCache) (resource : Resource) : Template :=
  let subType := resource.subType
  let template := cachedTemplate cache subType
  if resource.kind = "host" then
    if neverSshSubtypes.contains subType then ⟨false, true, false⟩
    else
      let sshCapable := match template with
        | some template => template.sshCapable
        | none => sshCapableHostSubtypes.contains subType
      ⟨sshCapable, true, false⟩
  else if resource.kind = "service" ∨ resource.kind = "container" then
    let agentManaged := match template with
      | some template => template.inheritsHost
      | none => agentServiceSubtypes.contains subType
    ⟨false, !agentManaged, agentManaged⟩
  else ⟨false, true, false⟩

def bmcSubtypes : List String := ["bmc", "ilo", "idrac"]

/-- The class within which discovery may merge rows. -/
def identityClassFor (cache : TemplateCache) (kind subType : String) : String :=
  let byKind :=
    if bmcSubtypes.contains subType then "bmc"
    else if kind = "container" then "service"
    else if kind = "template" ∨ kind = "bmc" ∨ kind = "network_device" then
      if kind = "bmc" then "bmc" else "host"
    else if kind = "" then "host"
    else kind
  match cachedTemplate cache subType with
  | some template => if template.identityClass = "" then byKind else template.identityClass
  | none => byKind

/-- The host has a child among the enrolled agents' services. -/
def hasLiveAgent (resource : Resource) (agentServiceIds : List String)
    (edges : List ResourceEdge) : Bool :=
  resource.kind == "host" &&
    edges.any fun edge => edge.parentId == some resource.id &&
      agentServiceIds.any fun id => edge.childId == some id

end ThetaDirectory.Catalog
