import ThetaDirectory.Library.Upsert
import ThetaDirectory.Text

/-!
# Mesh clients and exit grants

The rows of `models/mesh_client.js`, and how a site takes over those of another's export:
`adoptClients` of `utils/mesh_clients.js`.
-/

namespace ThetaDirectory.Mesh

open Library

/-- A `MeshClient` row. -/
structure MeshClient where
  id : String
  uid : String
  name : String
  siteId : Nat
  assignedIp : String
  publicKey : String
  exitSiteId : Option Nat
  source : String
  agentId : Option String
  deriving DecidableEq, Repr

/-- A `MeshExitGrant` row. -/
structure MeshExitGrant where
  id : String
  uid : String
  siteId : Nat
  grantedBy : String
  deriving DecidableEq, Repr

/-- The client table, with the unique columns of its model. -/
abbrev Clients : Type := Table MeshClient [MeshClient.id, MeshClient.assignedIp, MeshClient.publicKey]

abbrev Grants : Type := Table MeshExitGrant [MeshExitGrant.id]

/-! ## Adoption -/

/-- The columns taken from an exported row. -/
def MeshClient.fields (row : MeshClient) : MeshClient :=
  { row with
    source := (truthy (some row.source)).getD "manual"
    agentId := truthy row.agentId }

/-- The local row of an exported one: the one with its id, else with its key. -/
def matchedClient (existing : List MeshClient) (row : MeshClient) : Option MeshClient :=
  ((truthy (some row.id)).bind fun id => existing.reverse.find? fun other => other.id == id).or
    (existing.reverse.find? fun other => other.publicKey == row.publicKey)

/-- The client loop of `adoptClients`; `uuid` makes the ids that are missing. -/
def clientUpsert (uuid : Nat → String) : Upsert MeshClient
    [MeshClient.id, MeshClient.assignedIp, MeshClient.publicKey] where
  id := MeshClient.id
  skips row := row.publicKey == "" || row.assignedIp == "" || row.siteId == 0
  target existing _ row := matchedClient existing row
  onto incoming row := { incoming.fields with id := row.id }
  made count row := some { row.fields with id := (truthy (some row.id)).getD (uuid count) }

/-- The grant loop of `adoptClients`. -/
def grantUpsert (uuid : Nat → String) : Upsert MeshExitGrant [MeshExitGrant.id] where
  id := MeshExitGrant.id
  skips row := row.uid == "" || row.siteId == 0
  target existing _ row :=
    existing.reverse.find? fun other => other.uid == row.uid && other.siteId == row.siteId
  onto incoming row := { incoming with id := row.id }
  made count row := some { row with id := (truthy (some row.id)).getD (uuid count) }

structure Adopted where
  clients : Upserted MeshClient [MeshClient.id, MeshClient.assignedIp, MeshClient.publicKey]
  grants : Upserted MeshExitGrant [MeshExitGrant.id]

/-- What `adoptClients` does; a refused client ends it before the grants. -/
def adoptClients (uuid : Nat → String) (meshClients : List MeshClient)
    (meshExitGrants : List MeshExitGrant) (clients : Clients) (grants : Grants) : Adopted :=
  let adopted := (clientUpsert uuid).all meshClients clients
  if adopted.failed then ⟨adopted, ⟨grants, [], true⟩⟩
  else ⟨adopted, (grantUpsert uuid).all meshExitGrants grants⟩

/-- An exported row stands for the same device: it has its id or its key. -/
def SameClient (row other : MeshClient) : Prop :=
  row.id = other.id ∨ row.publicKey = other.publicKey

def SameGrant (row other : MeshExitGrant) : Prop :=
  row.uid = other.uid ∧ row.siteId = other.siteId

theorem sameClient_of_matched {existing : List MeshClient} {row other : MeshClient}
    (found : matchedClient existing row = some other) :
    other ∈ existing ∧ SameClient row other := by
  unfold matchedClient at found
  rcases Option.or_eq_some_iff.mp found with byId | ⟨-, byKey⟩
  · obtain ⟨id, own, found⟩ := Option.bind_eq_some_iff.mp byId
    have same := (Option.mem_filter_iff.mp (Option.mem_def.mpr own)).1
    cases same
    have equal := List.find?_some found
    exact ⟨List.mem_reverse.mp (List.mem_of_find?_eq_some found), Or.inl (eq_of_beq equal).symm⟩
  · have equal := List.find?_some byKey
    exact ⟨List.mem_reverse.mp (List.mem_of_find?_eq_some byKey),
      Or.inr (eq_of_beq equal).symm⟩

theorem lawful_clientUpsert (uuid : Nat → String) : (clientUpsert uuid).Lawful SameClient where
  listed := List.mem_cons_self
  id_onto := fun _ _ => rfl
  target := by
    intro start table incoming row found
    obtain ⟨member, same⟩ := sameClient_of_matched found
    refine ⟨fun other memberOther sameId => ?_, fun _ _ => Or.inr rfl⟩
    rwa [Table.eq_of_column MeshClient.id List.mem_cons_self memberOther member sameId]
  made := by
    intro count incoming row made
    cases made
    exact Or.inr rfl

theorem lawful_grantUpsert (uuid : Nat → String) : (grantUpsert uuid).Lawful SameGrant where
  listed := List.mem_cons_self
  id_onto := fun _ _ => rfl
  target := by
    intro start table incoming row found
    have equal := List.find?_some found
    rw [Bool.and_eq_true] at equal
    have same : SameGrant incoming row := ⟨(eq_of_beq equal.1).symm, (eq_of_beq equal.2).symm⟩
    have member := List.mem_reverse.mp (List.mem_of_find?_eq_some found)
    refine ⟨fun other memberOther sameId => ?_, fun _ _ => ⟨rfl, rfl⟩⟩
    rwa [Table.eq_of_column MeshExitGrant.id List.mem_cons_self memberOther member sameId]
  made := by
    intro count incoming row made
    cases made
    exact ⟨rfl, rfl⟩

end ThetaDirectory.Mesh
