import ThetaDirectory.Agents.Agent
import ThetaDirectory.Library.Runs
import ThetaDirectory.Mesh.Clients

/-!
# Replicated credentials

Agents, mesh clients and exit grants at a master and at a spoke that adopts the master's export
from time to time.  Adoption changes and creates rows and deletes none, unlike that of API tokens
and join keys: what the spoke holds from the master goes only where nothing has to go.
-/

namespace ThetaDirectory.Replication.Credentials

open Library Agents Mesh

/-- The credential tables of a node. -/
structure Tables where
  agents : AgentTable
  clients : Clients
  grants : Grants

/-- What is created and deleted at a node. -/
inductive Change where
  | createAgent (agent : Agent)
  | deleteAgent (id : String)
  | createClient (client : MeshClient)
  | deleteClient (id : String)
  | grantExit (grant : MeshExitGrant)
  | revokeExit (uid : String) (siteId : Nat)
  deriving DecidableEq, Repr

def grantOf (grants : Grants) (uid : String) (siteId : Nat) : Option MeshExitGrant :=
  grants.rows.find? fun grant => grant.uid == uid && grant.siteId == siteId

/-- The devices that use a revoked exit fall back to local breakout. -/
def breakOut (uid : String) (siteId : Nat) (client : MeshClient) : MeshClient :=
  if client.uid = uid ∧ client.exitSiteId = some siteId then { client with exitSiteId := none }
  else client

theorem breakOut_keeps (uid : String) (siteId : Nat) :
    ∀ column ∈ [MeshClient.id, MeshClient.assignedIp, MeshClient.publicKey],
      ∀ client, column (breakOut uid siteId client) = column client := by
  intro column member client
  unfold breakOut
  split
  · simp only [List.mem_cons, List.not_mem_nil, or_false] at member
    rcases member with rfl | rfl | rfl <;> rfl
  · rfl

def Tables.change (tables : Tables) : Change → Tables
  | .createAgent agent =>
      { tables with agents := (tables.agents.insert agent).getD tables.agents }
  | .deleteAgent id => { tables with agents := tables.agents.remove fun agent => agent.id == id }
  | .createClient client =>
      { tables with clients := (tables.clients.insert client).getD tables.clients }
  | .deleteClient id =>
      { tables with clients := tables.clients.remove fun client => client.id == id }
  | .grantExit grant =>
      match grantOf tables.grants grant.uid grant.siteId with
      | some _ => tables
      | none => { tables with grants := (tables.grants.insert grant).getD tables.grants }
  | .revokeExit uid siteId =>
      match grantOf tables.grants uid siteId with
      | some existing =>
          { tables with
            clients := tables.clients.map (breakOut uid siteId) (breakOut_keeps uid siteId)
            grants := tables.grants.remove fun grant => grant.id == existing.id }
      | none => tables

/-- The ids of the rows an adoption has written at the spoke. -/
structure Inherited where
  agents : List String
  clients : List String
  grants : List String
  deriving DecidableEq, Repr

structure State where
  master : Tables
  spoke : Tables
  inherited : Inherited

/-- A row that has gone from the spoke is not held from the master any longer. -/
def Inherited.among (inherited : Inherited) (tables : Tables) : Inherited where
  agents := inherited.agents.filter fun id => tables.agents.rows.any (·.id == id)
  clients := inherited.clients.filter fun id => tables.clients.rows.any (·.id == id)
  grants := inherited.grants.filter fun id => tables.grants.rows.any (·.id == id)

/-- The clients and grants that `adoptFromMaster` takes over. -/
def State.mesh (state : State) (uuid : Nat → String) : Adopted :=
  adoptClients uuid state.master.clients.rows state.master.grants.rows state.spoke.clients
    state.spoke.grants

/-- The agents that `adoptFromMaster` takes over. -/
def State.agents (state : State) : Upserted Agent [Agent.id] :=
  agentUpsert.all state.master.agents.rows state.spoke.agents

/-- No write of an adoption is refused. -/
def State.Succeeds (state : State) (uuid : Nat → String) : Prop :=
  (state.mesh uuid).clients.failed = false ∧ (state.mesh uuid).grants.failed = false ∧
    state.agents.failed = false

instance (state : State) (uuid : Nat → String) : Decidable (state.Succeeds uuid) := by
  unfold State.Succeeds
  infer_instance

def State.adoptFromMaster (state : State) (uuid : Nat → String) : State where
  master := state.master
  spoke :=
    { agents := state.agents.table
      clients := (state.mesh uuid).clients.table
      grants := (state.mesh uuid).grants.table }
  inherited :=
    { agents := state.inherited.agents ++ state.agents.written
      clients := state.inherited.clients ++ (state.mesh uuid).clients.written
      grants := state.inherited.grants ++ (state.mesh uuid).grants.written }

inductive Operation where
  | master (change : Change)
  | spoke (change : Change)
  | adopt (uuid : Nat → String)

def apply : Operation → State → State
  | .master change, state => { state with master := state.master.change change }
  | .spoke change, state =>
      { state with
        spoke := state.spoke.change change
        inherited := state.inherited.among (state.spoke.change change) }
  | .adopt uuid, state => state.adoptFromMaster uuid

/-- Two nodes before the first adoption. -/
def start (master spoke : Tables) : State := ⟨master, spoke, ⟨[], [], []⟩⟩

/-! ## What the spoke holds -/

/-- The rows the spoke holds from the master exist there. -/
structure Backed (state : State) : Prop where
  agents : ∀ agent ∈ state.spoke.agents.rows, agent.id ∈ state.inherited.agents →
    ∃ source ∈ state.master.agents.rows, SameAgent source agent
  clients : ∀ client ∈ state.spoke.clients.rows, client.id ∈ state.inherited.clients →
    ∃ source ∈ state.master.clients.rows, SameClient source client
  grants : ∀ grant ∈ state.spoke.grants.rows, grant.id ∈ state.inherited.grants →
    ∃ source ∈ state.master.grants.rows, SameGrant source grant

instance (state : State) : Decidable (Backed state) :=
  decidable_of_iff
    ((∀ agent ∈ state.spoke.agents.rows, agent.id ∈ state.inherited.agents →
        ∃ source ∈ state.master.agents.rows, source.id = agent.id) ∧
      (∀ client ∈ state.spoke.clients.rows, client.id ∈ state.inherited.clients →
        ∃ source ∈ state.master.clients.rows,
          source.id = client.id ∨ source.publicKey = client.publicKey) ∧
      ∀ grant ∈ state.spoke.grants.rows, grant.id ∈ state.inherited.grants →
        ∃ source ∈ state.master.grants.rows,
          source.uid = grant.uid ∧ source.siteId = grant.siteId)
    ⟨fun ⟨agents, clients, grants⟩ => ⟨agents, clients, grants⟩,
      fun ⟨agents, clients, grants⟩ => ⟨agents, clients, grants⟩⟩

/-- What has been deleted at the master is gone: the spoke holds only rows that exist there, and
a token resolves to no other agent of the master. -/
structure Revoked (hashToken : String → String) (state : State) : Prop where
  backed : Backed state
  tokens : ∀ rawToken agent,
    Agent.authenticate hashToken state.spoke.agents.rows rawToken = some agent →
      agent.id ∈ state.inherited.agents →
        ∃ source ∈ state.master.agents.rows, source.id = agent.id

theorem Backed.revoked {state : State} (backed : Backed state) (hashToken : String → String) :
    Revoked hashToken state where
  backed := backed
  tokens := fun _ agent authenticated inherited =>
    backed.agents agent (mem_of_authenticate authenticated).1 inherited

variable {state : State} {uuid : Nat → String}

/-- An adoption leaves deleted rows where they were. -/
theorem backed_adoptFromMaster (succeeds : state.Succeeds uuid) :
    Backed (state.adoptFromMaster uuid) ↔ Backed state := by
  obtain ⟨clientsOk, grantsOk, agentsOk⟩ := succeeds
  have agents := Upsert.matched_iff lawful_agentUpsert state.inherited.agents agentsOk
  have whole : (state.mesh uuid).clients = (clientUpsert uuid).all state.master.clients.rows
      state.spoke.clients := by
    unfold State.mesh adoptClients
    dsimp only
    split <;> rfl
  have rest : (state.mesh uuid).grants = (grantUpsert uuid).all state.master.grants.rows
      state.spoke.grants := by
    rw [whole] at clientsOk
    unfold State.mesh adoptClients
    dsimp only
    rw [if_neg (by rw [clientsOk]; exact Bool.false_ne_true)]
  rw [whole] at clientsOk
  rw [rest] at grantsOk
  have clients := Upsert.matched_iff (lawful_clientUpsert uuid) state.inherited.clients clientsOk
  have grants := Upsert.matched_iff (lawful_grantUpsert uuid) state.inherited.grants grantsOk
  rw [← whole] at clients
  rw [← rest] at grants
  exact ⟨fun after => ⟨agents.mp after.agents, clients.mp after.clients, grants.mp after.grants⟩,
    fun before => ⟨agents.mpr before.agents, clients.mpr before.clients,
      grants.mpr before.grants⟩⟩

/-- After a successful adoption what the master has deleted is gone exactly if nothing the spoke
holds from the master had been deleted there. -/
theorem revoked_iff_backed {hashToken : String → String} {master spoke : Tables}
    {operations : List Operation} :
    ∀ step ∈ Runs.steps apply operations (start master spoke), ∀ uuid,
      step.operation = .adopt uuid → step.before.Succeeds uuid →
        (Revoked hashToken step.after ↔ Backed step.before) := by
  intro step member uuid adopts succeeds
  have after := Runs.after_of_step member
  rw [after, adopts]
  exact ⟨fun revoked => (backed_adoptFromMaster succeeds).mp revoked.backed,
    fun backed => ((backed_adoptFromMaster succeeds).mpr backed).revoked hashToken⟩

private def nightly : Agent :=
  ⟨"a1", "nightly", none, "hash of secret", none, none, false, none, none, none⟩

private def tablet : MeshClient := ⟨"c1", "ada", "tablet", 1, "10.1.128.1", "key", none, "agent", none⟩

private def bare : Tables := ⟨Table.empty, Table.empty, Table.empty⟩

private def adoption : Operation := .adopt fun count => "uuid" ++ toString count

private def between : List Operation :=
  [.master (.createAgent nightly), .master (.createClient tablet), adoption,
    .master (.grantExit ⟨"g1", "ada", 2, "root"⟩), .spoke (.createAgent { nightly with id := "own" })]

/-- Two adoptions with nothing deleted between them. -/
theorem revoked_after_second_adoption :
    Revoked (fun rawToken => "hash of " ++ rawToken)
      (apply adoption (Runs.run apply between (start bare bare))) := by
  have member : (⟨Runs.run apply between (start bare bare), adoption,
      apply adoption (Runs.run apply between (start bare bare))⟩ : Runs.Step Operation State) ∈
      Runs.steps apply (between ++ [adoption]) (start bare bare) :=
    List.mem_cons_of_mem _ (List.mem_cons_of_mem _ (List.mem_cons_of_mem _
      (List.mem_cons_of_mem _ (List.mem_cons_of_mem _ List.mem_cons_self))))
  exact (revoked_iff_backed _ member _ rfl (by decide +kernel)).mpr (by decide +kernel)

/-- An agent deleted at the master keeps its token at the spoke. -/
theorem not_revoked_deleted_agent :
    (¬ ∀ (hashToken : String → String) (master spoke : Tables) (operations : List Operation),
      ∀ step ∈ Runs.steps apply operations (start master spoke), ∀ uuid,
        step.operation = .adopt uuid → step.before.Succeeds uuid → Revoked hashToken step.after) ∧
    Agent.authenticate (fun rawToken => "hash of " ++ rawToken)
      (Runs.run apply [.master (.createAgent nightly), adoption, .master (.deleteAgent "a1"),
        adoption] (start bare bare)).spoke.agents.rows "secret" =
      some { nightly with enrolled_by := some "replicated" } := by
  constructor
  · intro always
    have revoked := always id bare bare [.master (.createAgent nightly), adoption,
      .master (.deleteAgent "a1"), adoption] ⟨_, adoption, _⟩
      (List.mem_cons_of_mem _ (List.mem_cons_of_mem _ (List.mem_cons_of_mem _
        List.mem_cons_self))) _ rfl (by decide +kernel)
    have backed := revoked.backed
    revert backed
    decide +kernel
  · decide +kernel

end ThetaDirectory.Replication.Credentials
