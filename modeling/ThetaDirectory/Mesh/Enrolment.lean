import ThetaDirectory.Agents.Agent
import ThetaDirectory.Library.Runs
import ThetaDirectory.Mesh.Addressing
import ThetaDirectory.Mesh.Clients

/-!
# Enrolling devices

`nextFreeIp` and `enroll` of `utils/mesh_clients.js`, the enrolment of an agent's device
(`POST /mesh/enroll`) and the deletion of one, at the nodes of a cluster that adopt each other's
clients.  The times `createdAt` and `lastSeenAt` are left out.
-/

namespace ThetaDirectory.Mesh

open Library

/-- A thrown error, with the response status that it carries. -/
structure Failure where
  message : String
  status : Option Nat
  deriving DecidableEq, Repr

/-- What a call gets from outside: the generated keys and id, and what the database says when it
refuses a row. -/
structure Generated where
  publicKey : String
  privateKey : String
  uuid : String
  error : String
  deriving DecidableEq, Repr

structure Enrolment where
  uid : String
  name : String
  siteId : Nat
  publicKey : Option String
  source : Option String
  agentId : Option String
  deriving DecidableEq, Repr

/-- The class `[A-Za-z0-9+/]`. -/
def isBase64 (char : Char) : Bool := char.isAlphanum || char == '+' || char == '/'

/-- The form of a WireGuard public key. -/
def isPublicKey (key : String) : Bool :=
  key.toList.length == 44 && (key.toList.take 42).all isBase64 &&
    (key.toList.drop 42).all fun char => isBase64 char || char == '='

/-- The key a device is enrolled with, and its private half if both are made here. -/
def Enrolment.keys (enrolment : Enrolment) (generated : Generated) :
    Except Failure (String × Option String) := do
  if enrolment.uid = "" then throw ⟨"uid is required", some 400⟩
  if enrolment.name = "" then throw ⟨"a device name is required", some 400⟩
  let _ ← (assertSiteId enrolment.siteId).mapError fun message => ⟨message, none⟩
  let pub := trim (enrolment.publicKey.getD "")
  if pub = "" then return (generated.publicKey, some generated.privateKey)
  if !isPublicKey pub then throw ⟨"publicKey is not a valid WireGuard public key", some 400⟩
  return (pub, none)

/-- The addresses of a site's clients. -/
def taken (siteId : Nat) (clients : List MeshClient) : List String :=
  (clients.filter fun client => client.siteId == siteId).map MeshClient.assignedIp

/-- The loop of `nextFreeIp`, from an index on for so many rounds. -/
def firstFree (siteId : Nat) (taken : List String) (i : Nat) : Nat → Except Failure String
  | 0 => throw ⟨"client address pool exhausted for site " ++ toString siteId, some 507⟩
  | rounds + 1 => do
      let ip ← (clientIp siteId i).mapError fun message => ⟨message, none⟩
      if ip ∉ taken then return ip
      firstFree siteId taken (i + 1) rounds

def nextFreeIp (siteId : Nat) (clients : List MeshClient) : Except Failure String := do
  let _ ← (assertSiteId siteId).mapError fun message => ⟨message, none⟩
  firstFree siteId (taken siteId clients) 1 MAX_CLIENT_INDEX

structure Enrolled where
  client : MeshClient
  privateKey : Option String
  clients : Clients

/-- What `enroll` does; the lock keeps two calls from allocating at once. -/
def enroll (enrolment : Enrolment) (generated : Generated) (clients : Clients) :
    Except Failure Enrolled := do
  let (pub, privateKey) ← enrolment.keys generated
  if (clients.rows.find? fun client => client.publicKey == pub).isSome then
    throw ⟨"that public key is already enrolled", some 409⟩
  let assignedIp ← nextFreeIp enrolment.siteId clients.rows
  let client : MeshClient := {
    id := generated.uuid
    uid := enrolment.uid
    name := enrolment.name
    siteId := enrolment.siteId
    assignedIp
    publicKey := pub
    exitSiteId := none
    source := (truthy enrolment.source).getD (if privateKey.isSome then "manual" else "agent")
    agentId := truthy enrolment.agentId }
  match clients.insert client with
  | some after => return ⟨client, privateKey, after⟩
  | none => throw ⟨generated.error, none⟩

/-- An enrolment adds one client, with a key that was not there, the lowest free address and no
exit. -/
theorem enroll_eq_ok {enrolment : Enrolment} {generated : Generated} {clients : Clients}
    {enrolled : Enrolled}
    (done : enroll enrolment generated clients = .ok enrolled) :
    ∃ pub privateKey, enrolment.keys generated = .ok (pub, privateKey) ∧
      (∀ client ∈ clients.rows, client.publicKey ≠ pub) ∧
      nextFreeIp enrolment.siteId clients.rows = .ok enrolled.client.assignedIp ∧
      enrolled.client.siteId = enrolment.siteId ∧ enrolled.client.exitSiteId = none ∧
      clients.insert enrolled.client = some enrolled.clients := by
  unfold enroll at done
  cases keys : enrolment.keys generated with
  | error failure =>
      rw [keys] at done
      cases done
  | ok pair =>
      obtain ⟨pub, privateKey⟩ := pair
      rw [keys] at done
      simp only [bind, Except.bind] at done
      split at done
      · cases done
      · rename_i new
        cases found : nextFreeIp enrolment.siteId clients.rows with
        | error failure =>
            simp only [found] at done
            cases done
        | ok assignedIp =>
            simp only [found] at done
            split at done
            · rename_i inserted
              cases done
              refine ⟨pub, privateKey, rfl, ?_, rfl, rfl, rfl, inserted⟩
              intro client member
              rw [List.find?_isSome] at new
              exact fun same => new ⟨client, member, beq_iff_eq.mpr same⟩
            · cases done

/-! ## An agent's device -/

/-- The enrolment that an agent asks for. -/
def agentEnrolment (agent : Agents.Agent) (siteId : Nat) (publicKey : String) : Enrolment where
  uid := (truthy agent.enrolled_by).getD ("agent:" ++ agent.id)
  name := (truthy (some agent.name)).getD ("agent-" ++ String.ofList (agent.id.toList.take 8))
  siteId := siteId
  publicKey := some publicKey
  source := some "agent"
  agentId := some agent.id

def deviceForAgent (clients : List MeshClient) (agent : Agents.Agent) : Option MeshClient :=
  clients.find? fun client => client.agentId == some agent.id

/-- `POST /mesh/enroll` of an authenticated agent: a device that is there gets the new key. -/
def enrollAgent (agent : Agents.Agent) (publicKey : String) (localSiteId : Option Nat)
    (generated : Generated) (clients : Clients) : Except Failure Clients := do
  let publicKey := trim publicKey
  if publicKey = "" then throw ⟨"publicKey is required", some 400⟩
  match localSiteId.filter (· ≠ 0) with
  | none => throw ⟨"this node has no site id yet", some 409⟩
  | some siteId =>
      match deviceForAgent clients.rows agent with
      | some existing =>
          if existing.publicKey = publicKey then return clients
          match clients.update (fun client => client.id == existing.id)
              (fun client => { client with publicKey := publicKey }) with
          | some after => return after
          | none => throw ⟨generated.error, none⟩
      | none =>
          let enrolled ← enroll (agentEnrolment agent siteId publicKey) generated clients
          return enrolled.clients

/-- `DELETE /clients/:id` by someone who may. -/
def deleteClient (id : String) (clients : Clients) : Except Failure Clients :=
  if (clients.rows.find? fun client => client.id == id).isSome then
    .ok (clients.remove fun client => client.id == id)
  else .error ⟨"no such device", some 404⟩

/-! ## A cluster -/

/-- The tables of a node. -/
structure Node where
  clients : Clients
  grants : Grants

/-- The client tables that a node sends out with its export. -/
structure Export where
  meshClients : List MeshClient
  meshExitGrants : List MeshExitGrant

/-- The nodes, and all exports so far.  An export may be adopted late, more than once or never. -/
structure State where
  nodes : Nat → Node
  exported : List Export

inductive Event where
  | enroll (node : Nat) (enrolment : Enrolment) (generated : Generated)
  | enrollAgent (node : Nat) (agent : Agents.Agent) (publicKey : String) (localSiteId : Option Nat)
      (generated : Generated)
  | deleteClient (node : Nat) (id : String)
  | publish (node : Nat)
  | adopt (node index : Nat) (uuid : Nat → String)

def State.change (state : State) (node : Nat) (after : Node) : State :=
  { state with nodes := fun other => if other = node then after else state.nodes other }

/-- A call that throws leaves the clients as they were. -/
def State.store (state : State) (node : Nat) (result : Except Failure Clients) : State :=
  match result with
  | .ok clients => state.change node { state.nodes node with clients }
  | .error _ => state

def Event.apply : Event → State → State
  | .enroll node enrolment generated, state =>
      state.store node ((Mesh.enroll enrolment generated (state.nodes node).clients).map
        Enrolled.clients)
  | .enrollAgent node agent publicKey localSiteId generated, state =>
      state.store node
        (Mesh.enrollAgent agent publicKey localSiteId generated (state.nodes node).clients)
  | .deleteClient node id, state =>
      state.store node (Mesh.deleteClient id (state.nodes node).clients)
  | .publish node, state =>
      let ⟨clients, grants⟩ := state.nodes node
      { state with exported := state.exported ++ [⟨clients.rows, grants.rows⟩] }
  | .adopt node index uuid, state =>
      match state.exported[index]? with
      | some sent =>
          let ⟨clients, grants⟩ := state.nodes node
          let adopted := adoptClients uuid sent.meshClients sent.meshExitGrants clients grants
          state.change node ⟨adopted.clients.table, adopted.grants.table⟩
      | none => state

/-- No device is enrolled anywhere, and nothing has been sent out. -/
def start (grants : Nat → Grants) : State := ⟨fun node => ⟨.empty, grants node⟩, []⟩

end ThetaDirectory.Mesh
