import ThetaDirectory.Discovery.Store

/-!
# Importing the master's catalogue

`importDirectory` of `utils/site_join.js`: the rows of the master's export are matched by
slug, its edges follow in local ids, then edges and rows the master no longer has are
removed.  The import is the list of its store writes, so that it can be stopped after any
of them; a write that breaks a constraint is dropped.
-/

namespace ThetaDirectory.Replication

open Catalog Discovery Library

/-- The provenance marker of a row that came from the master. -/
def replicatedFrom : String := "__replicatedFrom"

/-- The sticky marker of a row that was here before. -/
def locallyOwned : String := "__locallyOwned"

def isReplicated (row : Resource) : Bool := (row.metadata.field replicatedFrom).isTruthy

def isMarkedLocal (row : Resource) : Bool := (row.metadata.field locallyOwned).isTrue

/-- Was the row here before replication touched it? -/
def isLocallyOwned (row : Resource) : Bool := isMarkedLocal row || !isReplicated row

/-- An edge as the master exports it. -/
structure ExportEdge where
  parentId : Option String
  childId : Option String
  relation : Option String
  deriving DecidableEq, Repr

/-- What the master exports: the rows of its resource table, each with a slug of its own,
and its edges. -/
structure Export where
  siteSlug : Option String
  resources : List Resource
  edges : List ExportEdge
  ids : (resources.map (·.id)).Nodup
  slugs : (resources.map (·.slug)).Nodup
  slugged : ∀ row ∈ resources, trim row.slug ≠ ""

/-- The export of a master without resources. -/
def Export.empty (siteSlug : Option String) : Export where
  siteSlug
  resources := []
  edges := []
  ids := List.nodup_nil
  slugs := List.nodup_nil
  slugged := fun _ member => absurd member List.not_mem_nil

def Export.origin (exportData : Export) : String := (truthy exportData.siteSlug).getD "master"

/-! ## Writes -/

inductive Write where
  | updateRow (row : Resource)
  | createRow (suffix : String) (row : Resource)
  | createEdge (edge : EdgeRow)
  | deleteEdge (edge : EdgeRow)
  | deleteRow (id : String)

/-- The row `Resource.create` writes for the columns given. -/
def createdRow (store : Store) (suffix : String) (row : Resource) : Resource :=
  { store.rowOf suffix ⟨row.id, row.kind, row.name, row.slug, row.metadata⟩ with
    description := row.description
    createdBy := row.createdBy }

namespace Write

def apply : Write → Store → Store
  | .updateRow row, store => store.update row.id fun _ => row
  | .createRow suffix row, store =>
      let created := createdRow store suffix row
      if store.resources.any fun old => old.id == created.id || old.slug == created.slug then store
      else { store with resources := store.resources ++ [created] }
  | .createEdge edge, store => { store with edges := store.edges ++ [edge] }
  | .deleteEdge edge, store => { store with edges := store.edges.filter (· ≠ edge) }
  | .deleteRow id, store => { store with resources := store.resources.filter (·.id ≠ id) }

def applyAll (writes : List Write) (store : Store) : Store :=
  writes.foldl (fun store write => write.apply store) store

theorem applyAll_append (first second : List Write) (store : Store) :
    applyAll (first ++ second) store = applyAll second (applyAll first store) :=
  List.foldl_append

end Write

/-! ## Rows -/

/-- The scalar columns of an exported row. -/
def scalarResource (row : Resource) : Resource :=
  { row with description := truthy row.description, createdBy := truthy row.createdBy }

/-- What the master's row makes of a local one.  A row that was here before keeps its own
metadata; another one takes the master's and is stamped. -/
def mergedRow (origin : String) (incoming existing : Resource) : Resource :=
  let scalar := scalarResource incoming
  if isLocallyOwned existing then
    { scalar with
      id := existing.id
      metadata := ((scalar.metadata.spread existing.metadata).insert locallyOwned
        (.bool true)).erase replicatedFrom }
  else
    { scalar with
      id := existing.id
      metadata := scalar.metadata.insert replicatedFrom (.str origin) }

/-- The columns of a row the master has and the spoke does not. -/
def stampedRow (origin : String) (incoming : Resource) : Resource :=
  { scalarResource incoming with
    metadata := incoming.metadata.insert replicatedFrom (.str origin) }

/-- The write for one exported row. -/
def importRow (env : Env) (origin : String) (store : Store) (incoming : Resource) : List Write :=
  if incoming.slug = "" then []
  else
    match store.resources.find? fun row => row.slug == incoming.slug with
    | some existing => [.updateRow (mergedRow origin incoming existing)]
    | none => [.createRow (env.hex 0) (stampedRow origin incoming)]

def importRows (env : Env) (origin : String) : List Resource → Store → List Write
  | [], _ => []
  | incoming :: rows, store =>
      let writes := importRow env origin store incoming
      writes ++ importRows env origin rows (Write.applyAll writes store)

/-! ## Edges -/

structure DesiredEdge where
  parentId : String
  childId : String
  relation : String
  deriving DecidableEq, Repr

/-- An edge by what it means. -/
def edgeKey (parentId childId relation : String) : String :=
  parentId ++ "|" ++ childId ++ "|" ++ if relation = "" then "runs_on" else relation

def DesiredEdge.key (edge : DesiredEdge) : String := edgeKey edge.parentId edge.childId edge.relation

def keyOf (edge : EdgeRow) : String := edgeKey edge.parentId edge.childId edge.relation

/-- The local id of the row with the slug that the master has under an id. -/
def localIdFor (exportData : Export) (rows : List Resource) (masterId : String) : Option String := do
  let incoming ← exportData.resources.find? fun row =>
    row.id == masterId && row.id != "" && row.slug != ""
  let row ← rows.find? fun row => row.slug == incoming.slug
  return row.id

/-- An exported edge in local ids; one whose ends are not known here is skipped. -/
def localEdge (exportData : Export) (rows : List Resource) (edge : ExportEdge) :
    Option DesiredEdge := do
  let parentId ← localIdFor exportData rows (← truthy edge.parentId)
  let childId ← localIdFor exportData rows (← truthy edge.childId)
  return ⟨← truthy (some parentId), ← truthy (some childId),
    (truthy edge.relation).getD "runs_on"⟩

/-- Set an edge in the map of desired edges, in place where its key is there. -/
def setDesired (desired : List DesiredEdge) (edge : DesiredEdge) : List DesiredEdge :=
  if desired.any (·.key == edge.key) then
    desired.map fun other => if other.key == edge.key then edge else other
  else desired ++ [edge]

def desiredEdges (exportData : Export) (rows : List Resource) : List DesiredEdge :=
  (exportData.edges.filterMap (localEdge exportData rows)).foldl setDesired []

def isDesired (exportData : Export) (row : Resource) : Bool :=
  exportData.resources.any fun incoming => incoming.slug != "" && incoming.slug == row.slug

/-- The master has the row, or had it. -/
def isGoverned (exportData : Export) (row : Resource) : Bool :=
  isDesired exportData row || (isReplicated row && !isMarkedLocal row)

def governs (exportData : Export) (rows : List Resource) (id : String) : Bool :=
  rows.any fun row => row.id == id && isGoverned exportData row

/-- The edges to add. -/
def addedEdges (env : Env) (exportData : Export) (store : Store) : List EdgeRow :=
  ((desiredEdges exportData store.resources).filter fun edge =>
    !store.edges.any fun row => keyOf row == edge.key).zipIdx.map fun (edge, index) =>
      ⟨env.uuid index, edge.parentId, edge.childId, edge.relation, none⟩

/-- The edges to remove: those the master does not have between rows it governs. -/
def removedEdges (exportData : Export) (store : Store) : List EdgeRow :=
  store.edges.filter fun edge =>
    !(desiredEdges exportData store.resources).any (·.key == keyOf edge) &&
      governs exportData store.resources edge.parentId &&
        governs exportData store.resources edge.childId

/-- The rows to delete: those the master no longer has of the ones it stamped. -/
def removedRows (exportData : Export) (store : Store) : List Resource :=
  store.resources.filter fun row => !isDesired exportData row && isReplicated row

/-! ## The import -/

/-- What the import reports. -/
structure ImportResult where
  created : Nat
  updated : Nat
  resourcesRemoved : Nat
  edgeCount : Nat
  edgesRemoved : Nat
  edgesSkipped : Nat
  edgesKeptLocal : Nat
  locallyOwned : List String
  deriving DecidableEq, Repr

section Phases

variable (env : Env) (exportData : Export) (store : Store)

def rowWrites : List Write := importRows env exportData.origin exportData.resources store

/-- The catalogue after the rows. -/
def rowsImported : Store := Write.applyAll (rowWrites env exportData store) store

def edgeWrites : List Write :=
  let store := rowsImported env exportData store
  (addedEdges env exportData store).map .createEdge ++
    (removedEdges exportData store).map .deleteEdge

def deleteWrites : List Write :=
  (removedRows exportData (rowsImported env exportData store)).map fun row => .deleteRow row.id

/-- Every store write of the import, in order. -/
def importWrites : List Write :=
  rowWrites env exportData store ++ edgeWrites env exportData store ++
    deleteWrites env exportData store

/-- The catalogue after the import. -/
def importDirectory : Store := Write.applyAll (importWrites env exportData store) store

/-- The report of the import. -/
def importResult : ImportResult :=
  let imported := rowsImported env exportData store
  let desired := desiredEdges exportData imported.resources
  let ends := exportData.edges.filter fun edge =>
    (truthy edge.parentId).isSome && (truthy edge.childId).isSome
  { created := imported.resources.length - store.resources.length
    updated := (exportData.resources.filter fun incoming => incoming.slug != "" &&
      store.resources.any fun row => row.slug == incoming.slug).length
    resourcesRemoved := (removedRows exportData imported).length
    edgeCount := desired.length
    edgesRemoved := (removedEdges exportData imported).length
    edgesSkipped := ends.length -
      (ends.filter fun edge => (localEdge exportData imported.resources edge).isSome).length
    edgesKeptLocal := (imported.edges.filter fun edge =>
      !desired.any (·.key == keyOf edge) && !(governs exportData imported.resources edge.parentId &&
        governs exportData imported.resources edge.childId)).length
    locallyOwned := (exportData.resources.filter fun incoming => incoming.slug != "" &&
      store.resources.any fun row => row.slug == incoming.slug && isLocallyOwned row).map
        (·.slug) }

end Phases

end ThetaDirectory.Replication
