import ThetaDirectory.Climbing.Nodes
import ThetaDirectory.Library.Levels

/-!
# Resolved addresses

`Resource.withResolvedAddress` climbs depth-first: it goes up all the way through the first parent
before it asks the second one, so the address it finds first need not be the nearest.
-/

namespace ThetaDirectory.Climbing

open Catalog Library

section Climb

variable (nodes : List Node) (edges : List ResourceEdge)

/-- The parents of a stored resource. -/
def upward (id : String) : List String :=
  if (findNode nodes id).isSome then parentIds edges id else []

def addressAt (id : String) : Option Json := (findNode nodes id).bind (·.address)

/-- The recursion `resolve`. -/
def resolve (id : String) : Option Json :=
  (DepthFirst.visit (upward nodes edges) (addressAt nodes) (nodes.length + 1) id []).1

end Climb

/-- The resources with the address each is reached at. -/
def withResolvedAddress (rows : List Resource) (edges : List ResourceEdge)
    (resources : List Resource) : List (Resource × Option Json) :=
  resources.map fun row => (row, resolve (graphNodes rows edges) edges row.id)

/-! ## The nearest address -/

section Nearest

variable (nodes : List Node) (edges : List ResourceEdge)

/-- The ancestor is the resource or above it, through stored resources. -/
def Above (node ancestor : Node) : Prop :=
  ancestor ∈ nodes ∧
    Relation.ReflTransGen (DepthFirst.Step (upward nodes edges)) node.id ancestor.id

/-- None that has an address is nearer than the ancestor. -/
def Nearest (node ancestor : Node) : Prop :=
  Above nodes edges node ancestor ∧
    ∀ other, Above nodes edges node other → other.address.isSome = true →
      Levels.Nearer (upward nodes edges) node.id ancestor.id other.id

/-- The address is the resource's own, or that of a nearest ancestor with one. -/
structure Resolved (node : Node) (address : Option Json) : Prop where
  own : ∀ value, node.address = some value → address = some value
  above : node.address = none → ∀ value, address = some value →
    ∃ ancestor, Nearest nodes edges node ancestor ∧ ancestor.address = some value
  none : address = none → ∀ ancestor, Above nodes edges node ancestor → ancestor.address = none

/-- The resources at or above one in the order of a depth-first climb. -/
def climbOrder (node : Node) : List String :=
  DepthFirst.order (upward nodes edges) (nodes.length + 1) node.id

/-- The first address in the order of the climb is that of a nearest ancestor. -/
def FirstNearest (node : Node) : Prop :=
  ∀ before far after, climbOrder nodes edges node = before ++ far :: after →
    (∀ id ∈ before, addressAt nodes id = none) → ∀ value, addressAt nodes far = some value →
      ∃ ancestor, Nearest nodes edges node ancestor ∧ ancestor.address = some value

end Nearest

variable {nodes : List Node} {edges : List ResourceEdge} {node ancestor : Node}

theorem mem_of_upward (id : String) (climbs : upward nodes edges id ≠ []) :
    id ∈ nodes.map (·.id) := by
  unfold upward at climbs
  split at climbs
  · rename_i there
    exact mem_of_findNode there
  · exact absurd rfl climbs

theorem addressAt_node (distinct : (nodes.map (·.id)).Nodup) (member : node ∈ nodes) :
    addressAt nodes node.id = node.address := by
  unfold addressAt
  rw [(findNode_eq_some distinct).mpr ⟨member, rfl⟩]
  rfl

theorem mem_climbOrder_iff {id : String} : id ∈ climbOrder nodes edges node ↔
    Relation.ReflTransGen (DepthFirst.Step (upward nodes edges)) node.id id := by
  apply DepthFirst.mem_order_iff mem_of_upward
  rw [List.length_map]
  exact Nat.lt_succ_self _

/-- The climb finds the first address in its order. -/
theorem resolve_eq (id : String) : resolve nodes edges id =
    (DepthFirst.order (upward nodes edges) (nodes.length + 1) id).findSome? (addressAt nodes) := by
  obtain ⟨fresh, walked, first, -⟩ :=
    @DepthFirst.visit_spec String Json _ (upward nodes edges) (addressAt nodes) (nodes.length + 1) id []
  rw [resolve, first, DepthFirst.order, walked, List.append_nil]

theorem nearest_self (member : node ∈ nodes) : Nearest nodes edges node node := by
  refine ⟨⟨member, .refl⟩, fun other _ _ steps _ => ?_⟩
  exact @Levels.Within.mono _ _ _ _ 0 steps rfl (Nat.zero_le _)

theorem resolved_iff (distinct : (nodes.map (·.id)).Nodup) (member : node ∈ nodes) :
    Resolved nodes edges node (resolve nodes edges node.id) ↔ FirstNearest nodes edges node := by
  have own := @addressAt_node nodes node distinct member
  have starts : climbOrder nodes edges node = node.id :: (climbOrder nodes edges node).tail :=
    DepthFirst.order_eq_cons _ _
  have found : resolve nodes edges node.id =
      (climbOrder nodes edges node).findSome? (addressAt nodes) := resolve_eq node.id
  rw [found]
  constructor
  · intro resolved before far after split silent value answers
    have first : (climbOrder nodes edges node).findSome? (addressAt nodes) = some value :=
      List.findSome?_eq_some_iff.mpr ⟨before, far, after, split, answers, silent⟩
    cases isOwn : node.address with
    | none => exact resolved.above isOwn value first
    | some address =>
        have same := (resolved.own address isOwn).symm.trans first
        exact ⟨node, nearest_self member, isOwn.trans same⟩
  · intro firstNearest
    constructor
    · intro value isOwn
      rw [starts, List.findSome?_cons, own, isOwn]
    · intro _ value first
      obtain ⟨before, far, after, split, answers, silent⟩ := List.findSome?_eq_some_iff.mp first
      exact firstNearest before far after split silent value answers
    · intro nothing other above
      have silent := List.findSome?_eq_none_iff.mp nothing other.id (mem_climbOrder_iff.mpr above.2)
      rwa [addressAt_node distinct above.1] at silent

/-- A row with an address, or with none where it is empty. -/
def addressed (name address : String) : Resource where
  id := name
  kind := "host"
  name := name
  slug := name
  description := none
  createdBy := none
  metadata := AList.insert "address" (.str address) ∅

/-- A service on a guest without an address and on a machine with one. -/
def detour : List Resource :=
  [addressed "service" "", addressed "guest" "", addressed "cluster" "10.0.0.1",
    addressed "machine" "10.0.0.2"]

def detourEdges : List ResourceEdge :=
  [edgeTo "service" "guest", edgeTo "guest" "cluster", edgeTo "service" "machine"]

end ThetaDirectory.Climbing
