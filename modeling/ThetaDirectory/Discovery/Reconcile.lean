import ThetaDirectory.Catalog.SubtypeTemplates
import ThetaDirectory.Discovery.Matching
import ThetaDirectory.Discovery.Sites
import ThetaDirectory.Library.Reach

/-!
# Reconciling a discovery report

`reconcile` of `services/discovery_reconciler.js`, as it runs on the directory that
holds the catalogue: the resources of the payload are merged or created, its edges
linked, resources it gives no parent filed under the site, and what its source no
longer reports is pruned.
-/

namespace ThetaDirectory.Discovery

open Library Catalog

/-- An edge as a discovery source reports it. -/
structure ItemEdge where
  parentSlug : Option String
  childSlug : Option String
  relation : Option String
  deriving DecidableEq, Repr

structure Payload where
  resources : List Item
  edges : List ItemEdge

/-- What stays the same over the loops of one run. -/
structure Context where
  env : Env
  cache : TemplateCache
  sourceName : String
  incomingSiteId : Option String

/-- A resource of the payload with the slug it came with and its row. -/
structure Reported where
  originalSlug : Option String
  actualId : String
  deriving DecidableEq, Repr

/-- The state of the loop over the resources.  The list `allRes` of the source is the
table itself: every write goes to both. -/
structure Run where
  store : Store
  siteOf : JsMap (Option String)
  reported : List Reported
  draws : Nat

/-! ## Graph walks -/

/-- The candidate is at or below the root.  A child is visited once, so the depth-first
walk takes at most one round for each edge and one for the root. -/
def isDescendant (candidateId rootId : String) (edges : List EdgeRow) : Bool :=
  Reach.search (fun id => (edges.filter fun edge => edge.parentId == id).map (·.childId))
    candidateId (edges.length + 1) [] [rootId]

/-! ## Merging -/

def sourcesOf (metadata : Metadata) : List String :=
  (metadata.field "discovery_sources").items.filterMap Json.str?

def withSources (metadata : Metadata) (sources : List String) : Metadata :=
  metadata.insert "discovery_sources" (.arr (sources.map .str))

/-- Keep a copy of what a source reported under its name
(`utils/fact_sources.js`). -/
def recordFactSources (now : Int) (metadata : Metadata) (sourceName : String)
    (fields : Metadata) : Metadata :=
  let excluded := ["discovery_sources", "last_seen", "facts_by_source"]
  let echoed := (fields.entries.map fun entry => (entry.1, entry.2)).filter fun entry =>
    !excluded.contains entry.1
  if sourceName = "" || echoed.isEmpty then metadata
  else
    let stamped := Json.spread (.obj echoed) (.obj [("observed_at", .num now)])
    metadata.insert "facts_by_source"
      (Json.spread (metadata.field "facts_by_source") (.obj [(sourceName, stamped)]))

def sameInterface (incoming stored : Json) : Bool :=
  (match incoming.textAt "mac", stored.textAt "mac" with
    | some mac, some other => toLowerCase other == toLowerCase mac
    | _, _ => false) ||
  (match incoming.textAt "ip", stored.textAt "ip" with
    | some ip, some other => other == ip
    | _, _ => false)

def mergeInterface (interfaces : List Json) (incoming : Json) : List Json :=
  match interfaces.findIdx? (sameInterface incoming) with
  | some index => interfaces.modify index fun stored => stored.spread incoming
  | none => interfaces ++ [incoming]

def mergeMetadata (context : Context) (existing incoming : Metadata) : Metadata :=
  let merged := existing.spread incoming
  let merged :=
    if (incoming.field "interfaces").isTruthy then
      merged.insert "interfaces"
        (.arr ((interfacesOf incoming).foldl mergeInterface (interfacesOf existing)))
    else merged
  let merged := withSources merged (sourcesOf merged ++ [context.sourceName]).eraseDups
  let merged := merged.insert "last_seen" (.num context.env.now)
  recordFactSources context.env.now merged context.sourceName incoming

def isIp (text : String) : Bool :=
  let parts := splitAt '.' text
  parts.length == 4 && parts.all fun part =>
    1 ≤ part.length && part.length ≤ 3 && part.toList.all Char.isDigit

def isMac (text : String) : Bool :=
  let chars := (trim text).toList
  chars.length == 17 && chars.zipIdx.all fun (char, index) =>
    if index % 3 = 2 then char == ':' || char == '-' else isHexDigit char.toLower

/-- A name is better than an address, and an address than a MAC or nothing. -/
def nameRank (name : String) : Nat :=
  if trim name = "" || isMac name then 0 else if isIp name then 1 else 2

def bestName (existing : String) (incoming : Option String) : String :=
  match truthy incoming with
  | some name =>
      if nameRank name > nameRank existing ||
        (nameRank name == nameRank existing && jsLength name > jsLength existing) then name
      else existing
  | none => existing

/-- The update of the row an item was matched to. -/
def mergeRow (context : Context) (existing : Resource) (item : Item) (row : Resource) : Resource :=
  { row with
    name := bestName existing.name item.name
    description := (truthy item.description).or existing.description
    metadata := mergeMetadata context existing.metadata item.metadata }

/-! ## The loop over the resources -/

def classOf (cache : TemplateCache) (row : Resource) : String :=
  identityClassFor cache row.kind row.subType

def classOfItem (cache : TemplateCache) (item : Item) : String :=
  let subType := item.metadata.field "subType"
  identityClassFor cache (item.kind.getD "")
    (toLowerCase (if subType.isTruthy then subType.text else ""))

/-- Rows of the same identity class; a placeholder of an earlier discovery goes with
anything. -/
def isCandidate (cache : TemplateCache) (item : Item) (row : Resource) : Bool :=
  classOf cache row == "unmanaged_device" || classOfItem cache item == "unmanaged_device" ||
    classOf cache row == classOfItem cache item

/-- The data a new row is created with. -/
def newResource (context : Context) (draws : Nat) (item : Item) : NewResource :=
  let metadata := withSources item.metadata [context.sourceName]
  let metadata := metadata.insert "last_seen" (.num context.env.now)
  let slug := (truthy item.slug).getD
    (item.kind.getD "undefined" ++ "-" ++ context.env.hex draws)
  { id := (truthy item.id).getD (context.env.uuid draws)
    kind := (truthy item.kind).getD "unmanaged_device"
    name := (truthy item.name).getD slug
    slug := slug
    metadata := recordFactSources context.env.now metadata context.sourceName metadata }

def matchOf (context : Context) (run : Run) (item : Item) : Option Resource :=
  findExistingMatch item (run.store.resources.filter (isCandidate context.cache item))
    ⟨fun id => (run.siteOf.lookup id).join, context.incomingSiteId⟩

/-- Merge a resource into the row it matches or create one. -/
def placeItem (context : Context) (run : Run) (item : Item) : Except String Run :=
  match matchOf context run item with
  | some existing => .ok
      { run with
        store := run.store.update existing.id (mergeRow context existing item)
        reported := run.reported ++ [⟨item.slug, existing.id⟩] }
  | none => do
      let (row, store) ← run.store.create (context.env.hex (run.draws + 1))
        (newResource context run.draws item)
      return {
        store
        siteOf := run.siteOf.insert row.id context.incomingSiteId
        reported := run.reported ++ [⟨item.slug, row.id⟩]
        draws := run.draws + 2 }

/-- The loop; an exception ends it with what was written so far. -/
def placeAll (context : Context) : List Item → Run → Run × Option String
  | [], run => (run, none)
  | item :: items, run =>
      match placeItem context run item with
      | .ok next => placeAll context items next
      | .error error => (run, some error)

/-! ## The loop over the edges -/

/-- The edge table with the sets `parentedSlugs` and `currentEdgeKeys`. -/
structure Linking where
  edges : List EdgeRow
  parentedSlugs : List (Option String)
  currentEdgeKeys : List String
  draws : Nat

def edgeKey (parentId childId : String) (relation : Option String) : String :=
  parentId ++ "|" ++ childId ++ "|" ++ relation.getD "undefined"

/-- The row a slug of the payload stands for. -/
def resolveSlug (run : Run) (slug : Option String) : Option String :=
  match run.reported.find? fun item => item.originalSlug == slug with
  | some item => some item.actualId
  | none => (run.store.resources.find? fun row => some row.slug == slug).map (·.id)

def isSite (resources : List Resource) (id : String) : Bool :=
  match resources.find? fun row => row.id == id with
  | some row => row.kind == "site"
  | none => false

/-- Add an edge unless it is there; it replaces the row of the same relation that a
discovery source gave the child before. -/
def addEdge (context : Context) (linking : Linking) (parentId childId : String)
    (relation : Option String) : Linking :=
  if linking.edges.any fun edge => edge.parentId == parentId && edge.childId == childId &&
      some edge.relation == relation then linking
  else
    let prior := linking.edges.find? fun edge => edge.childId == childId &&
      some edge.relation == relation && (truthy edge.source).isSome
    let kept := match prior with
      | some prior => linking.edges.filter (· ≠ prior)
      | none => linking.edges
    { linking with
      edges := kept ++ [⟨context.env.uuid linking.draws, parentId, childId,
        relation.getD "hosts", some context.sourceName⟩]
      draws := linking.draws + 1 }

/-- Drop the edges from sites to a child that now has a nearer parent. -/
def dropSiteEdges (resources : List Resource) (parentId childId : String)
    (edges : List EdgeRow) : List EdgeRow :=
  edges.filter fun edge => !(edge.childId == childId && edge.relation == "hosts" &&
    edge.parentId != parentId && isSite resources edge.parentId)

/-- Link one reported edge.  An edge to itself, one that would close a cycle and one
whose ends are unknown are dropped. -/
def linkEdge (context : Context) (run : Run) (linking : Linking) (edge : ItemEdge) : Linking :=
  match resolveSlug run edge.parentSlug, resolveSlug run edge.childSlug with
  | some parentId, some childId =>
      if parentId = childId then linking
      else if isDescendant parentId childId linking.edges then linking
      else
        let linking := addEdge context linking parentId childId edge.relation
        { linking with
          edges :=
            if edge.relation = some "hosts" then
              dropSiteEdges run.store.resources parentId childId linking.edges
            else linking.edges
          parentedSlugs := linking.parentedSlugs ++ [edge.childSlug]
          currentEdgeKeys := linking.currentEdgeKeys ++ [edgeKey parentId childId edge.relation] }
  | _, _ => linking

/-- File a resource the payload gave no parent under the site of the run. -/
def fileUnderSite (context : Context) (siteId : String) (linking : Linking) (item : Reported) :
    Linking :=
  if item.actualId = siteId ∨ linking.parentedSlugs.contains item.originalSlug then linking
  else
    let linking :=
      if linking.edges.any fun edge => edge.childId == item.actualId then linking
      else { linking with
        edges := linking.edges ++ [⟨context.env.uuid linking.draws, siteId, item.actualId, "hosts",
          some context.sourceName⟩]
        draws := linking.draws + 1 }
    { linking with
      currentEdgeKeys := linking.currentEdgeKeys ++ [edgeKey siteId item.actualId (some "hosts")] }

/-! ## What the source no longer reports -/

/-- The edges the source wrote before and does not report now. -/
def pruneEdges (sourceName : String) (linking : Linking) : List EdgeRow :=
  linking.edges.filter fun edge => !(edge.source == some sourceName &&
    !linking.currentEdgeKeys.contains (edgeKey edge.parentId edge.childId (some edge.relation)))

/-- The row was made or claimed by a person, or is a site. -/
def isManual (row : Resource) : Bool :=
  (truthy row.createdBy).isSome || (sourcesOf row.metadata).contains "manual" || row.kind == "site"

/-- Take the source off a row it no longer reports; a row no one else knows has
vanished. -/
def retire (sourceName : String) (hasEdges : Bool) (reportedIds : List String) (store : Store)
    (row : Resource) : Store :=
  let sources := sourcesOf row.metadata
  if !sources.contains sourceName || reportedIds.contains row.id then store
  else
    let otherSources := sources.filter (· ≠ sourceName)
    if otherSources ≠ [] ∨ isManual row then
      store.update row.id fun old => { old with metadata := withSources row.metadata otherSources }
    else if hasEdges then store.purge row.id
    else store

/-! ## The run -/

def promote (options : Options) (item : Item) : Item :=
  if options.autoPromote then
    { item with metadata := item.metadata.insert "managed" (.bool true) }
  else item

/-- The edges after the loop over the edges and the filing under the site. -/
def linkAll (context : Context) (payload : Payload) (run : Run) : Linking :=
  let linking := payload.edges.foldl (linkEdge context run) ⟨run.store.edges, [], [], run.draws⟩
  match context.incomingSiteId with
  | some siteId => run.reported.foldl (fileUnderSite context siteId) linking
  | none => linking

/-- The phases after all resources have their rows. -/
def settle (context : Context) (payload : Payload) (run : Run) : Store :=
  let linking := linkAll context payload run
  let edges := if payload.edges.isEmpty then linking.edges else
    pruneEdges context.sourceName linking
  let store := { run.store with edges }
  if payload.resources.isEmpty then store
  else
    store.resources.foldl
      (retire context.sourceName (!payload.edges.isEmpty) (run.reported.map (·.actualId))) store

/-- The catalogue after a run, and what the run throws. -/
def reconcile (env : Env) (cache : TemplateCache) (sourceName : String) (payload : Payload)
    (options : Options) (store : Store) : Store × Option String :=
  match resolveTarget env options store with
  | (.refused, store) => (store, none)
  | (.site targetSite, store) =>
      let context := ⟨env, cache, sourceName, targetSite.map (·.id)⟩
      match placeAll context (payload.resources.map (promote options))
          ⟨store, siteMap store, [], 2⟩ with
      | (run, some error) => (run.store, some error)
      | (run, none) => (settle context payload run, none)

end ThetaDirectory.Discovery
