import ThetaDirectory.Bubbling.Graph

/-!
# Climbs through the graph

What `withResolvedAddress` and `withCatalogStatus` of `models/resource.js` read of the graph: its
resources as `getGraph` gives them, and the parents on the edges.
-/

namespace ThetaDirectory.Climbing

open Catalog Library
open Bubbling (getGraph bubble forall₂_getGraph field_withBubbled displayName)

/-- What a climb reads of a resource. -/
structure Node where
  id : String
  kind : String
  name : String
  status : Json
  address : Option Json

/-- The address of a row, or else its ip. -/
def addressOf (row : Resource) : Option Json :=
  let address := row.metadata.field "address"
  let ip := row.metadata.field "ip"
  if address.isTruthy then some address else if ip.isTruthy then some ip else none

def nodeOf (row : Resource) : Node where
  id := row.id
  kind := row.kind
  name := displayName row
  status := row.metadata.field "status"
  address := addressOf row

/-- The resources of the graph. -/
def graphNodes (rows : List Resource) (edges : List ResourceEdge) : List Node :=
  (getGraph rows edges).map nodeOf

/-- The parents of a resource in the order of the edges. -/
def parentIds (edges : List ResourceEdge) (id : String) : List String :=
  edges.filterMap fun edge => if edge.childId = some id then edge.parentId else none

def findNode (nodes : List Node) (id : String) : Option Node :=
  nodes.find? fun node => node.id == id

/-- What bubbles up changes nothing that a climb reads. -/
theorem graphNodes_eq (rows : List Resource) (edges : List ResourceEdge) :
    graphNodes rows edges = rows.map nodeOf := by
  have kept : List.Forall₂ (fun row out => nodeOf out = nodeOf row) rows (getGraph rows edges) := by
    apply forall₂_getGraph rows edges fun _ _ => True
    · trivial
    · intro done row rest caches _ _
      refine ⟨?_, trivial⟩
      unfold nodeOf addressOf bubble
      simp only [field_withBubbled, displayName]
      rfl
  unfold graphNodes
  generalize getGraph rows edges = graph at kept
  induction kept with
  | nil => rfl
  | cons same _ ih => rw [List.map_cons, List.map_cons, same, ih]

/-- An edge that no discovery source wrote. -/
def edgeTo (childId parentId : String) : ResourceEdge where
  parentId := some parentId
  childId := some childId
  relation := "runs-on"
  source := none

variable {nodes : List Node} {node : Node}

theorem findNode_eq_some (distinct : (nodes.map (·.id)).Nodup) {id : String} :
    findNode nodes id = some node ↔ node ∈ nodes ∧ node.id = id :=
  Keyed.find?_eq_some_iff distinct

theorem mem_of_findNode {id : String} (there : (findNode nodes id).isSome = true) :
    id ∈ nodes.map (·.id) := by
  obtain ⟨node, found⟩ := Option.isSome_iff_exists.mp there
  have same : node.id = id := by simpa using List.find?_some found
  exact same ▸ List.mem_map_of_mem (List.mem_of_find?_eq_some found)

end ThetaDirectory.Climbing
