import ThetaDirectory.Discovery.Adoption

/-!
# The services an agent reports

`reconcileServicesFromTelemetry`, `pruneServicesNotReported` and
`handleServiceUnregistration` of `utils/agent_manager.js`: each service of a bound agent
has a row under its host, and one the agent no longer reports loses it.
-/

namespace ThetaDirectory.Discovery

open Library Catalog

/-- A service as the agent names it. -/
structure AgentService where
  name : Option String
  subtype : Option String
  deriving DecidableEq, Repr

/-- What stays the same over the services of one report. -/
structure HostServices where
  env : Env
  host : Resource
  childIds : List String

/-- The list `allServices` holds the rows with the known ids. -/
structure ServiceRun where
  store : Store
  known : List String
  reported : List String
  draws : Nat

namespace ServiceRun

def allServices (run : ServiceRun) : List Resource :=
  run.store.resources.filter fun row => run.known.contains row.id

end ServiceRun

def isChildOfHost (context : HostServices) (row : Resource) : Bool :=
  (row.metadata.field "hostId").isStr context.host.id || context.childIds.contains row.id

def serviceSlug (hostSlug subtype name : String) : String :=
  "svc-" ++ String.ofList (dropLead ["host-"] hostSlug.toList) ++ "-" ++ subtype ++ "-" ++
    String.ofList ((toLowerCase name).toList.map fun char =>
      if isSlugChar char || char == '_' || char == '-' then char else '-')

/-- The row that stands for the service already. -/
def findService (context : HostServices) (run : ServiceRun) (subtype name : String) :
    Option Resource :=
  run.allServices.find? fun row =>
    isChildOfHost context row && (row.slug == serviceSlug context.host.slug subtype name ||
      ((row.metadata.field "subType").isStr subtype &&
        ((row.metadata.field "serviceName").isStr name ||
          (row.metadata.field "dockerContainer").isStr name ||
          (row.metadata.field "systemdService").isStr name || row.name == name)))

/-- The metadata of a new service row. -/
def newServiceMetadata (context : HostServices) (subtype name : String) : Metadata :=
  let metadata := ((∅ : Metadata).insert "subType" (.str subtype)).insert "serviceName" (.str name)
  let metadata :=
    if subtype = "docker" then metadata.insert "dockerContainer" (.str name) else metadata
  let metadata := (metadata.insert "hostId" (.str context.host.id)).insert "managed" (.bool true)
  (withSources metadata ["theta-agent"]).insert "last_seen" (.num context.env.now)

/-- The metadata of a service row that is reported again. -/
def seenServiceMetadata (context : HostServices) (subtype name : String) (metadata : Metadata) :
    Metadata :=
  let seen := withSources metadata (sourcesOf metadata ++ ["theta-agent"]).eraseDups
  let seen := seen.insert "last_seen" (.num context.env.now)
  let seen :=
    if subtype = "docker" && !(Metadata.field seen "dockerContainer").isTruthy then
      seen.insert "dockerContainer" (.str name)
    else seen
  if (Metadata.field seen "serviceName").isTruthy then seen else seen.insert "serviceName" (.str name)

/-- Put a service under the host unless it has a parent. -/
def parentService (context : HostServices) (run : ServiceRun) (serviceId : String) : ServiceRun :=
  if run.store.edges.any fun edge => edge.childId == serviceId then run
  else { run with
    store := { run.store with
      edges := run.store.edges ++
        [⟨context.env.uuid run.draws, context.host.id, serviceId, "hosts", none⟩] }
    draws := run.draws + 1 }

/-- One reported service.  A create that fails is skipped. -/
def reportService (context : HostServices) (run : ServiceRun) (service : AgentService) :
    ServiceRun :=
  match truthy service.name with
  | none => run
  | some name =>
      let subtype := (truthy service.subtype).getD "systemd"
      let run := { run with reported := run.reported ++ [subtype ++ "/" ++ name] }
      match findService context run subtype name with
      | some row =>
          let store := run.store.update row.id fun old =>
            { old with metadata := seenServiceMetadata context subtype name row.metadata }
          parentService context { run with store } row.id
      | none =>
          match run.store.create (context.env.hex run.draws) ⟨context.env.uuid run.draws, "service",
              name, serviceSlug context.host.slug subtype name,
              newServiceMetadata context subtype name⟩ with
          | .error _ => run
          | .ok (row, store) =>
              parentService context { run with
                store
                known := run.known ++ [row.id]
                draws := run.draws + 1 } row.id

/-! ## What the agent no longer reports -/

def reportsTo (source : String) (row : Resource) : Bool := (sourcesOf row.metadata).contains source

/-- The name a service row goes by. -/
def serviceName (row : Resource) : String :=
  (((row.metadata.textAt "serviceName").or (row.metadata.textAt "dockerContainer")).or
    (row.metadata.textAt "systemdService")).getD row.name

/-- The row is one of this agent's services and was not reported. -/
def isUnreported (context : HostServices) (reported : List String) (row : Resource) :
    Bool :=
  isChildOfHost context row && !isAgentService row && reportsTo "theta-agent" row &&
    serviceName row != "" &&
      !reported.contains ((row.metadata.textAt "subType").getD "systemd" ++ "/" ++ serviceName row)

/-- Delete a service no other source knows, with its edges; another one loses the source. -/
def pruneService (context : HostServices) (reported : List String) (store : Store)
    (row : Resource) : Store :=
  if !isUnreported context reported row then store
  else
    let sources := (sourcesOf row.metadata).filter (· ≠ "theta-agent")
    if sources ≠ [] then
      store.update row.id fun old => { old with metadata := withSources row.metadata sources }
    else
      { store with
        resources := store.resources.filter (·.id ≠ row.id)
        edges := store.edges.filter fun edge => edge.childId ≠ row.id ∧ edge.parentId ≠ row.id }

def pruneServicesNotReported (context : HostServices) (run : ServiceRun) : Store :=
  run.allServices.foldl (pruneService context run.reported) run.store

def hostServices (env : Env) (store : Store) (host : Resource) : HostServices :=
  ⟨env, host, (store.edges.filter fun edge => edge.parentId == host.id).map (·.childId)⟩

/-- The loop over the reported services. -/
def serviceRun (env : Env) (services : List AgentService) (store : Store) (host : Resource) :
    ServiceRun :=
  let known := (store.resources.filter fun row => row.kind == "service").map (·.id)
  services.foldl (reportService (hostServices env store host)) ⟨store, known, [], 0⟩

/-- The catalogue after a report of the agent bound to a service row. -/
def reconcileServicesFromTelemetry (env : Env) (resourceId : Option String)
    (services : List AgentService) (prune : Bool) (store : Store) : Store :=
  match hostForAgent store resourceId with
  | none => store
  | some host =>
      let run := serviceRun env services store host
      if prune then pruneServicesNotReported (hostServices env store host) run else run.store

/-! ## Unregistering a service -/

/-- The service row an agent names. -/
def findRegistered (store : Store) (resourceId : Option String) (name : String) : Option Resource :=
  store.resources.find? fun row => row.kind == "service" &&
    (row.metadata.field "serviceName").isStr name &&
      match hostForAgent store resourceId with
      | some host => (row.metadata.field "hostId").isStr host.id
      | none => true

/-- Delete a service with the edges that lead to it. -/
def handleServiceUnregistration (resourceId : Option String) (service : Option String)
    (store : Store) : Except String Store :=
  match truthy service with
  | none => .error "unregister_service: missing service name"
  | some name =>
      match findRegistered store resourceId name with
      | none => .ok store
      | some target => .ok { store with
          resources := store.resources.filter (·.id ≠ target.id)
          edges := store.edges.filter fun edge => edge.childId ≠ target.id }

end ThetaDirectory.Discovery
