import ThetaDirectory.Library.Upsert
import ThetaDirectory.Text

/-!
# Enrolled agents

The `Agent` rows of `models/agent.js`, how a token is resolved to one, and how a spoke takes
over those of the master's export in `adoptFromMaster`.  The hash is that of the Node crypto
module.
-/

namespace ThetaDirectory.Agents

open Library

/-- An `Agent` row. -/
structure Agent where
  id : String
  name : String
  description : Option String
  tokenHash : String
  tokenPrefix : Option String
  resourceId : Option String
  revoked : Bool
  enrolled_by : Option String
  version : Option String
  last_ip : Option String
  deriving DecidableEq, Repr

abbrev AgentTable : Type := Table Agent [Agent.id]

/-- The agent of a presented token, unless it is revoked. -/
def Agent.authenticate (hashToken : String → String) (agents : List Agent) (rawToken : String) :
    Option Agent :=
  if rawToken = "" then none
  else
    match agents.find? fun agent => agent.tokenHash == hashToken rawToken with
    | some agent => if agent.revoked then none else some agent
    | none => none

/-! ## Adoption -/

/-- The columns taken from an exported agent.  A missing hash leaves the one that is there. -/
def Agent.onto (incoming row : Agent) : Agent where
  id := row.id
  name := (truthy (some incoming.name)).getD "Unnamed Agent"
  description := truthy incoming.description
  tokenHash := (truthy (some incoming.tokenHash)).getD row.tokenHash
  tokenPrefix := truthy incoming.tokenPrefix
  resourceId := truthy incoming.resourceId
  revoked := incoming.revoked
  enrolled_by := some ((truthy incoming.enrolled_by).getD "replicated")
  version := truthy incoming.version
  last_ip := truthy incoming.last_ip

/-- The agent loop of `adoptFromMaster`: a row is found by its id, and made only with a hash. -/
def agentUpsert : Upsert Agent [Agent.id] where
  id := Agent.id
  skips incoming := incoming.id == ""
  target _ agents incoming := agents.rows.find? fun row => row.id == incoming.id
  onto := Agent.onto
  made _ incoming :=
    if incoming.tokenHash = "" then none else some (incoming.onto incoming)

def SameAgent (incoming row : Agent) : Prop := incoming.id = row.id

theorem lawful_agentUpsert : agentUpsert.Lawful SameAgent where
  listed := List.mem_cons_self
  id_onto := fun _ _ => rfl
  target := by
    intro start table incoming row found
    change table.rows.find? (fun row => row.id == incoming.id) = some row at found
    have equal := List.find?_some found
    have same : incoming.id = row.id := (eq_of_beq equal).symm
    exact ⟨fun other _ equal => same.trans equal.symm, fun other equal => same.trans equal.symm⟩
  made := by
    intro count incoming row made
    change (if incoming.tokenHash = "" then none else some (incoming.onto incoming)) = some row
      at made
    split at made
    · cases made
    · cases made
      rfl

theorem mem_of_authenticate {hashToken : String → String} {agents : List Agent}
    {rawToken : String} {agent : Agent}
    (authenticated : Agent.authenticate hashToken agents rawToken = some agent) :
    agent ∈ agents ∧ agent.revoked = false := by
  unfold Agent.authenticate at authenticated
  split at authenticated
  · cases authenticated
  · split at authenticated
    · rename_i found
      split at authenticated
      · cases authenticated
      · cases authenticated
        exact ⟨List.mem_of_find?_eq_some found, eq_false_of_ne_true ‹_›⟩
    · cases authenticated

end ThetaDirectory.Agents
