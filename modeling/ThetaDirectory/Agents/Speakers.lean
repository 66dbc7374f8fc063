import ThetaDirectory.Access.SiteOfHost
import ThetaDirectory.Agents.Agent

/-!
# The agent that speaks for a resource

Status evaluation asks `findAgentForResource` of `services/scheduler.js`, which climbs through all
hosts above a resource; commands are routed by `getAgentForResource` of `utils/agent_manager.js`,
which looks no further than the direct parents of a service or container.
-/

namespace ThetaDirectory.Agents

open Catalog Library Library.DepthFirst
open Discovery (findAgentService)
open Access (byId parentsOf)

section Lookups

variable (store : Discovery.Store) (agents : List Agent)

/-! ## Status evaluation -/

/-- The agent bound to a resource; of several the last. -/
def agentByResourceId (id : String) : Option Agent :=
  agents.reverse.find? fun agent => truthy agent.resourceId == some id

/-- The edges with both ends. -/
def endedEdges : List Discovery.EdgeRow :=
  store.edges.filter fun edge => edge.parentId != "" && edge.childId != ""

def childIdsOf (id : String) : List String :=
  ((endedEdges store).filter fun edge => edge.parentId == id).map (·.childId)

def parentIdsOf (id : String) : List String := parentsOf (endedEdges store) id

def isThetaAgent (row : Resource) : Bool := (row.metadata.field "subType").isStr "theta-agent"

/-- The agent bound to the row, or to a child of a host that is a theta-agent. -/
def ownAgent (row : Resource) : Option Agent :=
  (agentByResourceId agents row.id).or
    (if row.kind = "host" then
      (childIdsOf store row.id).findSome? fun id =>
        if (byId store.resources id).any isThetaAgent then agentByResourceId agents id else none
    else none)

/-- The agent of the row, or the first one met on the climb through the hosts above it. -/
def findAgentForResource : Nat → Resource → List String → Option Agent × List String
  | 0, _, visited => (none, visited)
  | depth + 1, row, visited =>
      if row.id ∈ visited then (none, visited)
      else
        match ownAgent store agents row with
        | some agent => (some agent, row.id :: visited)
        | none => (parentIdsOf store row.id).foldl
            (fun (state : Option Agent × List String) id =>
              if state.1.isSome then state
              else
                match (byId store.resources id).filter fun parent => parent.kind == "host" with
                | some parent => findAgentForResource depth parent state.2
                | none => state) (none, row.id :: visited)

/-- The agent status evaluation takes for the row. -/
def evaluatedAgent (row : Resource) : Option Agent :=
  (findAgentForResource store agents (store.edges.length + 2) row []).1

/-! ## Command routing -/

/-- The agent bound to a resource; of several the first. -/
def boundAgent (id : String) : Option Agent :=
  agents.find? fun agent => agent.resourceId == some id

/-- The agent commands for a resource are sent to. -/
def getAgentForResource (id : String) : Option Agent :=
  if id = "" then none
  else
    (boundAgent agents id).or
      (match store.find id with
      | none => none
      | some row =>
          if row.kind = "host" then
            (findAgentService store row.id).bind fun service => boundAgent agents service.id
          else if row.kind = "service" ∨ row.kind = "container" then
            (parentsOf store.edges id).findSome? fun parentId =>
              ((store.find parentId).filter fun parent => parent.kind == "host").bind fun parent =>
                (findAgentService store parent.id).bind fun service => boundAgent agents service.id
          else none)

/-! ## Where they agree -/

/-- The agents that are bound to a resource are one. -/
def SinglyBound (id : String) : Prop :=
  ∀ agent ∈ agents, ∀ other ∈ agents,
    agent.resourceId = some id → other.resourceId = some id → agent = other

def isBound (id : String) : Bool := agents.any fun agent => agent.resourceId == some id

/-- The first theta-agent child of a host that is bound. -/
def boundChild (hostId : String) : Option String :=
  (childIdsOf store hostId).find? fun id =>
    (byId store.resources id).any isThetaAgent && isBound agents id

/-- The bound resource through which a host speaks: itself, or a child. -/
def speaksThrough (hostId : String) : Option String :=
  if isBound agents hostId then some hostId else boundChild store agents hostId

/-- The parents of a resource that are stored hosts. -/
def hostsAbove (id : String) : List String :=
  (parentIdsOf store id).filter fun parentId =>
    (byId store.resources parentId).any fun parent => parent.kind == "host"

/-- The hosts above a resource, through hosts, in the order of the climb. -/
def climb (id : String) : List String :=
  (order (hostsAbove store) (store.edges.length + 2) id).tail

/-- The service of the first direct host parent whose first agent service is bound. -/
def parentService (id : String) : Option String :=
  (parentsOf store.edges id).findSome? fun parentId =>
    ((store.find parentId).filter fun parent => parent.kind == "host").bind fun parent =>
      ((findAgentService store parent.id).map (·.id)).filter (isBound agents)

/-- What has to hold for both lookups to take one agent.  Where the row itself is bound, only one
agent is bound to it; else the bound resource that is met first on the climb is the one the
router looks at, and only one agent is bound to it. -/
structure Agreed (row : Resource) : Prop where
  own : isBound agents row.id = true → SinglyBound agents row.id
  child : isBound agents row.id = false → row.kind = "host" →
    ∀ id, boundChild store agents row.id = some id →
      (findAgentService store row.id).map (·.id) = some id ∧ SinglyBound agents id
  aboveHost : isBound agents row.id = false → row.kind = "host" →
    boundChild store agents row.id = none →
      ∀ hostId ∈ climb store row.id, speaksThrough store agents hostId = none
  aboveService : isBound agents row.id = false → row.kind = "service" ∨ row.kind = "container" →
    ∀ id, (climb store row.id).findSome? (speaksThrough store agents) = some id →
      parentService store agents row.id = some id ∧ SinglyBound agents id
  aboveOther : isBound agents row.id = false → row.kind ∉ ["host", "service", "container"] →
    ∀ hostId ∈ climb store row.id, speaksThrough store agents hostId = none

/-- The bound resource status evaluation stops at. -/
def heard (row : Resource) : Option String :=
  (if isBound agents row.id then some row.id
    else if row.kind = "host" then boundChild store agents row.id else none).or
    ((climb store row.id).findSome? (speaksThrough store agents))

/-- The bound resource the router looks at. -/
def asked (row : Resource) : Option String :=
  if isBound agents row.id then some row.id
  else if row.kind = "host" then
    ((findAgentService store row.id).map (·.id)).filter (isBound agents)
  else if row.kind = "service" ∨ row.kind = "container" then parentService store agents row.id
  else none

end Lookups

variable {store : Discovery.Store} {agents : List Agent} {row : Resource} {id : String}

/-! ## Bindings -/

theorem boundAgent_eq_some {id : String} {agent : Agent} (found : boundAgent agents id = some agent) :
    agent ∈ agents ∧ agent.resourceId = some id :=
  ⟨List.mem_of_find?_eq_some found, by simpa using List.find?_some found⟩

theorem agentByResourceId_eq_some {id : String} {agent : Agent}
    (found : agentByResourceId agents id = some agent) :
    agent ∈ agents ∧ agent.resourceId = some id := by
  have listed := List.mem_reverse.mp (List.mem_of_find?_eq_some found)
  have bound : truthy agent.resourceId = some id := by simpa using List.find?_some found
  exact ⟨listed, (Option.filter_eq_some_iff.mp bound).1⟩

theorem boundAgent_isSome {id : String} : (boundAgent agents id).isSome = isBound agents id := by
  rw [boundAgent, List.isSome_find?]
  rfl

theorem agentByResourceId_isSome {id : String} (named : id ≠ "") :
    (agentByResourceId agents id).isSome = isBound agents id := by
  have filled (agent : Agent) :
      (truthy agent.resourceId == some id) = (agent.resourceId == some id) := by
    cases agent.resourceId with
    | none => rfl
    | some bound =>
        rw [truthy, Option.filter_some]
        split
        · rfl
        · rename_i blank
          have blank : bound = "" := by simpa using blank
          rw [blank]
          exact (beq_eq_false_iff_ne.mpr fun same => named (Option.some.inj same).symm).symm
  rw [agentByResourceId, List.isSome_find?, List.any_reverse, isBound, funext filled]

theorem SinglyBound.eq (single : SinglyBound agents id) {agent other : Agent}
    (last : agentByResourceId agents id = some agent) (first : boundAgent agents id = some other) :
    agent = other := by
  obtain ⟨inLast, bound⟩ := agentByResourceId_eq_some last
  obtain ⟨inFirst, alsoBound⟩ := boundAgent_eq_some first
  exact single agent inLast other inFirst bound alsoBound

/-- The last and the first agent bound to a resource are one only where no other is. -/
theorem singlyBound_of_eq {id : String} (named : id ≠ "") (distinct : agents.Nodup) {agent : Agent}
    (last : agentByResourceId agents id = some agent) (first : boundAgent agents id = some agent) :
    SinglyBound agents id := by
  obtain ⟨-, front, back, split, noneBefore⟩ := List.find?_eq_some_iff_append.mp first
  obtain ⟨-, back', front', split', noneAfter⟩ := List.find?_eq_some_iff_append.mp last
  have turned : agents = front'.reverse ++ agent :: back'.reverse := by
    have twice := congrArg List.reverse split'
    rwa [List.reverse_reverse, List.reverse_append, List.reverse_cons, List.append_assoc,
      List.singleton_append] at twice
  have fresh {front back : List Agent} (split : agents = front ++ agent :: back) : agent ∉ front := by
    rw [split] at distinct
    exact fun again => (List.nodup_append.mp distinct).2.2 agent again agent List.mem_cons_self rfl
  obtain ⟨-, sameBack⟩ := (Delimited.append_cons_inj_of_left (fresh split) (fresh turned)).mp
    (split.symm.trans turned)
  have only {other : Agent} (listed : other ∈ agents) (bound : other.resourceId = some id) :
      other = agent := by
    rw [split] at listed
    rcases List.mem_append.mp listed with before | after
    · have unbound := noneBefore other before
      simp [bound] at unbound
    · rcases List.mem_cons.mp after with same | behind
      · exact same
      · rw [sameBack] at behind
        have unbound := noneAfter other (List.mem_reverse.mp behind)
        simp [bound, truthy, named] at unbound
  intro one inOne other inOther bound alsoBound
  rw [only inOne bound, only inOther alsoBound]

/-- Two bound resources have one agent, the last and the first, only if they are one resource
with one agent. -/
theorem bind_eq_bind_iff {heard asked : Option String}
    (heardBound : ∀ id, heard = some id → id ≠ "" ∧ isBound agents id = true)
    (askedBound : ∀ id, asked = some id → isBound agents id = true) (distinct : agents.Nodup) :
    heard.bind (agentByResourceId agents) = asked.bind (boundAgent agents) ↔
      heard = asked ∧ ∀ id, heard = some id → SinglyBound agents id := by
  have spoken {id : String} (given : heard = some id) :
      ∃ agent, agentByResourceId agents id = some agent := by
    obtain ⟨named, bound⟩ := heardBound id given
    exact Option.isSome_iff_exists.mp ((agentByResourceId_isSome named).trans bound)
  have answered {id : String} (given : asked = some id) :
      ∃ agent, boundAgent agents id = some agent :=
    Option.isSome_iff_exists.mp (boundAgent_isSome.trans (askedBound id given))
  constructor
  · intro same
    cases given : heard with
    | none =>
        rw [given] at same
        cases looked : asked with
        | none => exact ⟨rfl, fun id none => nomatch none⟩
        | some id =>
            obtain ⟨agent, found⟩ := answered looked
            rw [looked, Option.bind_some, found] at same
            cases same
    | some id =>
        obtain ⟨agent, last⟩ := spoken given
        rw [given, Option.bind_some, last] at same
        cases looked : asked with
        | none =>
            rw [looked] at same
            cases same
        | some other =>
            rw [looked, Option.bind_some] at same
            have oneId : some id = some other := (agentByResourceId_eq_some last).2.symm.trans
              (boundAgent_eq_some same.symm).2
            cases oneId
            refine ⟨rfl, fun id' isId => ?_⟩
            cases isId
            exact singlyBound_of_eq (heardBound id given).1 distinct last same.symm
  · intro condition
    obtain ⟨rfl, single⟩ := condition
    cases given : heard with
    | none => rfl
    | some id =>
        obtain ⟨agent, last⟩ := spoken given
        obtain ⟨other, first⟩ := answered given
        rw [Option.bind_some, Option.bind_some, last, first, (single id given).eq last first]

/-! ## Status evaluation as a search -/

/-- What the code is promised by its tables: primary keys that are distinct and not empty. -/
structure Keys (store : Discovery.Store) (agents : List Agent) : Prop where
  ids : (store.resources.map (·.id)).Nodup
  named : ∀ row ∈ store.resources, row.id ≠ ""
  agents : agents.Nodup

theorem byId_row (keys : Keys store agents) (member : row ∈ store.resources) :
    byId store.resources row.id = some row :=
  (Access.byId_eq_some_iff keys.ids).mpr ⟨member, rfl⟩

/-- The bound resource through which a row speaks itself. -/
def through (store : Discovery.Store) (agents : List Agent) (row : Resource) : Option String :=
  if isBound agents row.id then some row.id
  else if row.kind = "host" then boundChild store agents row.id else none

theorem mem_childIdsOf {child : String} : child ∈ childIdsOf store id ↔
    child ≠ "" ∧ id ≠ "" ∧ ∃ edge ∈ store.edges, edge.parentId = id ∧ edge.childId = child := by
  simp only [childIdsOf, endedEdges, List.mem_map, List.mem_filter, Bool.and_eq_true, bne_iff_ne,
    beq_iff_eq]
  constructor
  · intro listed
    obtain ⟨edge, ⟨⟨member, parentNamed, childNamed⟩, rfl⟩, rfl⟩ := listed
    exact ⟨childNamed, parentNamed, edge, member, rfl, rfl⟩
  · intro listed
    obtain ⟨childNamed, parentNamed, edge, member, rfl, rfl⟩ := listed
    exact ⟨edge, ⟨⟨member, parentNamed, childNamed⟩, rfl⟩, rfl⟩

theorem boundChild_eq_some {child : String} (found : boundChild store agents id = some child) :
    child ∈ childIdsOf store id ∧ isBound agents child = true := by
  have passes := List.find?_some found
  exact ⟨List.mem_of_find?_eq_some found, (Bool.and_eq_true_iff.mp passes).2⟩

theorem through_bound (keys : Keys store agents) (member : row ∈ store.resources)
    (speaks : through store agents row = some id) : id ≠ "" ∧ isBound agents id = true := by
  unfold through at speaks
  split at speaks
  · rename_i bound
    cases speaks
    exact ⟨keys.named row member, bound⟩
  · split at speaks
    · obtain ⟨child, bound⟩ := boundChild_eq_some speaks
      exact ⟨(mem_childIdsOf.mp child).1, bound⟩
    · cases speaks

/-- A search for an answer behind a search: what is found first has an answer. -/
theorem findSome?_bind {α β γ : Type*} {items : List α} {first : α → Option β} {then' : β → Option γ}
    {both : α → Option γ} (splits : ∀ item ∈ items, both item = (first item).bind then')
    (answers : ∀ item ∈ items, ∀ value, first item = some value → (then' value).isSome = true) :
    items.findSome? both = (items.findSome? first).bind then' := by
  induction items with
  | nil => rfl
  | cons item items ih =>
      have rest := ih (fun other inRest => splits other (List.mem_cons_of_mem _ inRest))
        (fun other inRest => answers other (List.mem_cons_of_mem _ inRest))
      rw [List.findSome?_cons, List.findSome?_cons, splits item List.mem_cons_self, rest]
      cases found : first item with
      | none => rfl
      | some value =>
          have answered := answers item List.mem_cons_self value found
          obtain ⟨result, given⟩ := Option.isSome_iff_exists.mp answered
          simp only [Option.bind_some, given]

theorem ownAgent_eq (keys : Keys store agents) (member : row ∈ store.resources) :
    ownAgent store agents row = (through store agents row).bind (agentByResourceId agents) := by
  have known := @agentByResourceId_isSome agents row.id (keys.named row member)
  have children : ((childIdsOf store row.id).findSome? fun id =>
      if (byId store.resources id).any isThetaAgent then agentByResourceId agents id else none) =
        (boundChild store agents row.id).bind (agentByResourceId agents) := by
    rw [boundChild, List.find?_eq_findSome?_guard]
    apply findSome?_bind
    · intro child listed
      have known := @agentByResourceId_isSome agents child (mem_childIdsOf.mp listed).1
      rw [Option.guard]
      cases (byId store.resources child).any isThetaAgent with
      | false => rfl
      | true =>
          rw [if_pos rfl, Bool.true_and]
          cases bound : isBound agents child with
          | true => rfl
          | false =>
              rw [bound] at known
              exact Option.not_isSome_iff_eq_none.mp (Bool.eq_false_iff.mp known)
    · intro child listed found guarded
      obtain ⟨rfl, passes⟩ := Option.guard_eq_some_iff.mp guarded
      rw [agentByResourceId_isSome (mem_childIdsOf.mp listed).1]
      exact (Bool.and_eq_true_iff.mp passes).2
  unfold ownAgent through
  cases bound : isBound agents row.id with
  | true =>
      obtain ⟨agent, found⟩ := Option.isSome_iff_exists.mp (known.trans bound)
      rw [found, if_pos rfl, Option.bind_some, found]
      rfl
  | false =>
      rw [bound] at known
      rw [Option.not_isSome_iff_eq_none.mp (Bool.eq_false_iff.mp known), Option.none_or, children,
        if_neg Bool.false_ne_true]
      split <;> rfl

/-- What the search asks a stored row. -/
def answer (store : Discovery.Store) (agents : List Agent) (id : String) : Option Agent :=
  (byId store.resources id).bind (ownAgent store agents)

theorem findAgentForResource_eq (keys : Keys store agents) {depth : Nat} {visited : List String}
    (member : row ∈ store.resources) : findAgentForResource store agents depth row visited =
      visit (hostsAbove store) (answer store agents) depth row.id visited := by
  induction depth generalizing row visited with
  | zero => rfl
  | succ depth ih =>
      have isRow := byId_row keys member
      by_cases old : row.id ∈ visited
      · rw [visit_seen old, findAgentForResource, if_pos old]
      · rw [findAgentForResource, if_neg old]
        cases own : ownAgent store agents row with
        | some agent =>
            have answers : answer store agents row.id = some agent := by
              rw [answer, isRow, Option.bind_some, own]
            rw [visit_answer old answers]
        | none =>
            have silent : answer store agents row.id = none := by
              rw [answer, isRow, Option.bind_some, own]
            rw [visit_onward old silent, visitAll, hostsAbove, List.foldl_filter]
            dsimp only
            congr 1
            funext state parentId
            cases found : byId store.resources parentId with
            | none => simp
            | some parent =>
                obtain ⟨stored, rfl⟩ := (Access.byId_eq_some_iff keys.ids).mp found
                cases isHost : parent.kind == "host" with
                | false => simp [Option.filter_some, isHost]
                | true => simp [Option.filter_some, isHost, ih stored]

/-- A key on the climb is a stored host. -/
theorem host_of_mem_climb {hostId : String} (member : hostId ∈ climb store id) :
    ∃ host, byId store.resources hostId = some host ∧ host.kind = "host" := by
  obtain ⟨start, listed⟩ := exists_of_mem_tail_order member
  have isHost := (List.mem_filter.mp listed).2
  cases found : byId store.resources hostId with
  | none =>
      rw [found] at isHost
      cases isHost
  | some host =>
      rw [found] at isHost
      exact ⟨host, rfl, eq_of_beq isHost⟩

/-- A host on the climb speaks through a bound resource. -/
theorem speaksThrough_eq (keys : Keys store agents) {hostId : String}
    (onClimb : hostId ∈ climb store id) : ∃ host ∈ store.resources, host.id = hostId ∧
      speaksThrough store agents hostId = through store agents host := by
  obtain ⟨host, found, kind⟩ := host_of_mem_climb onClimb
  obtain ⟨stored, rfl⟩ := (Access.byId_eq_some_iff keys.ids).mp found
  refine ⟨host, stored, rfl, ?_⟩
  rw [speaksThrough, through, if_pos kind]

theorem heard_bound (keys : Keys store agents) (member : row ∈ store.resources)
    (given : heard store agents row = some id) : id ≠ "" ∧ isBound agents id = true := by
  rcases Option.or_eq_some_iff.mp given with own | ⟨-, above⟩
  · exact through_bound keys member own
  · obtain ⟨hostId, onClimb, speaks⟩ := List.exists_of_findSome?_eq_some above
    obtain ⟨host, stored, -, same⟩ := @speaksThrough_eq store agents row.id keys hostId onClimb
    exact through_bound keys stored (same.symm.trans speaks)

theorem evaluatedAgent_eq (keys : Keys store agents) (member : row ∈ store.resources) :
    evaluatedAgent store agents row =
      (heard store agents row).bind (agentByResourceId agents) := by
  have above : (climb store row.id).findSome? (answer store agents) =
      ((climb store row.id).findSome? (speaksThrough store agents)).bind
        (agentByResourceId agents) := by
    apply findSome?_bind
    · intro hostId onClimb
      obtain ⟨host, stored, rfl, same⟩ := @speaksThrough_eq store agents row.id keys hostId onClimb
      rw [answer, byId_row keys stored, Option.bind_some, ownAgent_eq keys stored, same]
    · intro hostId onClimb spoken given
      obtain ⟨host, stored, -, same⟩ := @speaksThrough_eq store agents row.id keys hostId onClimb
      obtain ⟨named, bound⟩ := through_bound keys stored (same.symm.trans given)
      rw [agentByResourceId_isSome named, bound]
  have own : answer store agents row.id =
      (through store agents row).bind (agentByResourceId agents) := by
    rw [answer, byId_row keys member, Option.bind_some, ownAgent_eq keys member]
  rw [evaluatedAgent, findAgentForResource_eq keys member, visit_nil, order_eq_cons,
    List.findSome?_cons, own]
  change _ = ((through store agents row).or
    ((climb store row.id).findSome? (speaksThrough store agents))).bind (agentByResourceId agents)
  cases speaks : through store agents row with
  | none => exact above
  | some spoken =>
      obtain ⟨named, bound⟩ := through_bound keys member speaks
      obtain ⟨agent, found⟩ :=
        Option.isSome_iff_exists.mp ((agentByResourceId_isSome named).trans bound)
      rw [Option.some_or, Option.bind_some, found]

/-! ## Command routing -/

theorem asked_bound (given : asked store agents row = some id) : isBound agents id = true := by
  unfold asked at given
  split at given
  · rename_i bound
    cases given
    exact bound
  · split at given
    · exact (Option.filter_eq_some_iff.mp given).2
    · split at given
      · obtain ⟨parentId, -, found⟩ := List.exists_of_findSome?_eq_some given
        obtain ⟨parent, -, found⟩ := Option.bind_eq_some_iff.mp found
        exact (Option.filter_eq_some_iff.mp found).2
      · cases given

/-- The agent of an agent service, if it has one. -/
theorem bind_boundAgent (service : Option Resource) :
    (service.bind fun service => boundAgent agents service.id) =
      ((service.map (·.id)).filter (isBound agents)).bind (boundAgent agents) := by
  cases service with
  | none => rfl
  | some service =>
      rw [Option.bind_some, Option.map_some, Option.filter_some]
      split
      · rfl
      · rename_i unbound
        have known := @boundAgent_isSome agents service.id
        rw [Bool.eq_false_iff.mpr unbound] at known
        exact Option.not_isSome_iff_eq_none.mp (Bool.eq_false_iff.mp known)

theorem getAgentForResource_eq (keys : Keys store agents) (member : row ∈ store.resources) :
    getAgentForResource store agents row.id =
      (asked store agents row).bind (boundAgent agents) := by
  have known := @boundAgent_isSome agents row.id
  have found : store.find row.id = some row :=
    (Access.find_eq_some_iff keys.ids).mpr ⟨member, rfl⟩
  rw [getAgentForResource, if_neg (keys.named row member), found, asked]
  cases bound : isBound agents row.id with
  | true =>
      obtain ⟨agent, first⟩ := Option.isSome_iff_exists.mp (known.trans bound)
      rw [if_pos rfl, Option.bind_some, first]
      rfl
  | false =>
      rw [bound] at known
      rw [Option.not_isSome_iff_eq_none.mp (Bool.eq_false_iff.mp known), Option.none_or,
        if_neg Bool.false_ne_true]
      dsimp only
      split
      · exact bind_boundAgent _
      · split
        · apply findSome?_bind
          · intro parentId _
            cases (store.find parentId).filter fun parent => parent.kind == "host" with
            | none => rfl
            | some parent => exact bind_boundAgent _
          · intro parentId _ service given
            obtain ⟨parent, -, given⟩ := Option.bind_eq_some_iff.mp given
            rw [boundAgent_isSome]
            exact (Option.filter_eq_some_iff.mp given).2
        · rfl

/-! ## Agreement -/

/-- A bound agent service of a host is among its bound theta-agent children. -/
theorem isSome_boundChild (keys : Keys store agents) (member : row ∈ store.resources)
    (service : ((findAgentService store row.id).map (·.id)).filter (isBound agents) = some id) :
    ∃ child, boundChild store agents row.id = some child := by
  obtain ⟨given, bound⟩ := Option.filter_eq_some_iff.mp service
  obtain ⟨child, isService, rfl⟩ := Option.map_eq_some_iff.mp given
  obtain ⟨edge, listed, found⟩ := List.exists_of_findSome?_eq_some isService
  obtain ⟨found, kind⟩ := Option.filter_eq_some_iff.mp found
  obtain ⟨stored, isChild⟩ := (Access.find_eq_some_iff keys.ids).mp found
  obtain ⟨inEdges, isParent⟩ := List.mem_filter.mp listed
  apply Option.isSome_iff_exists.mp
  rw [boundChild, List.find?_isSome]
  refine ⟨child.id, mem_childIdsOf.mpr ⟨keys.named child stored, keys.named row member,
    edge, inEdges, eq_of_beq isParent, isChild.symm⟩, ?_⟩
  rw [byId_row keys stored, bound, Bool.and_true]
  exact (Bool.and_eq_true_iff.mp kind).2

/-- A direct host parent of another row is met on the climb. -/
theorem mem_climb_of_parent (keys : Keys store agents) (member : row ∈ store.resources)
    (notHost : row.kind ≠ "host") {parent : Resource} (stored : parent ∈ store.resources)
    (isHost : parent.kind = "host") (isParent : parent.id ∈ parentsOf store.edges row.id) :
    parent.id ∈ climb store row.id := by
  have sources (id : String) (above : hostsAbove store id ≠ []) :
      id ∈ store.edges.map (·.childId) := by
    obtain ⟨parentId, listed⟩ := List.exists_mem_of_ne_nil _ above
    obtain ⟨edge, inEdges, -, isChild⟩ := Access.mem_parentsOf.mp (List.mem_filter.mp listed).1
    exact List.mem_map.mpr ⟨edge, (List.mem_filter.mp inEdges).1, isChild⟩
  have step : parent.id ∈ hostsAbove store row.id := by
    obtain ⟨edge, inEdges, parentEnd, childEnd⟩ := Access.mem_parentsOf.mp isParent
    have ended : edge ∈ endedEdges store := by
      rw [endedEdges, List.mem_filter, parentEnd, childEnd]
      exact ⟨inEdges, Bool.and_eq_true_iff.mpr ⟨bne_iff_ne.mpr (keys.named parent stored),
        bne_iff_ne.mpr (keys.named row member)⟩⟩
    refine List.mem_filter.mpr ⟨Access.mem_parentsOf.mpr ⟨edge, ended, parentEnd, childEnd⟩, ?_⟩
    rw [byId_row keys stored]
    exact beq_iff_eq.mpr isHost
  have enough : (store.edges.map (·.childId)).length < store.edges.length + 2 := by
    rw [List.length_map]
    omega
  have listed := (mem_order_iff sources enough).mpr (Relation.ReflTransGen.single step)
  rw [order_eq_cons] at listed
  refine (List.mem_cons.mp listed).resolve_left fun same => ?_
  have oneRow := (byId_row keys stored).symm.trans (same ▸ byId_row keys member)
  exact notHost (Option.some.inj oneRow ▸ isHost)

/-- Some host on the climb speaks where the router finds a service at a direct parent. -/
theorem exists_speaks (keys : Keys store agents) (member : row ∈ store.resources)
    (notHost : row.kind ≠ "host") (service : parentService store agents row.id = some id) :
    ∃ spoken, (climb store row.id).findSome? (speaksThrough store agents) = some spoken := by
  obtain ⟨parentId, isParent, found⟩ := List.exists_of_findSome?_eq_some service
  obtain ⟨parent, isHost, given⟩ := Option.bind_eq_some_iff.mp found
  obtain ⟨found, kind⟩ := Option.filter_eq_some_iff.mp isHost
  obtain ⟨stored, rfl⟩ := (Access.find_eq_some_iff keys.ids).mp found
  obtain ⟨child, bound⟩ := isSome_boundChild keys stored given
  have onClimb := mem_climb_of_parent keys member notHost stored (eq_of_beq kind) isParent
  apply Option.isSome_iff_exists.mp
  rw [List.findSome?_isSome_iff]
  refine ⟨parent.id, onClimb, ?_⟩
  rw [speaksThrough, bound]
  split <;> rfl

section Cases

/-- Both lookups stop at one resource, and it has one agent. -/
def SameBinding (store : Discovery.Store) (agents : List Agent) (row : Resource) : Prop :=
  heard store agents row = asked store agents row ∧
    ∀ id, heard store agents row = some id → SinglyBound agents id

theorem sameBinding_iff_of_bound (bound : isBound agents row.id = true) :
    SameBinding store agents row ↔ Agreed store agents row := by
  have hears : heard store agents row = some row.id := by
    rw [heard, if_pos bound, Option.some_or]
  have asks : asked store agents row = some row.id := by rw [asked, if_pos bound]
  have never : isBound agents row.id ≠ false := by
    rw [bound]
    exact Bool.noConfusion
  rw [SameBinding, hears, asks]
  constructor
  · intro same
    exact ⟨fun _ => same.2 row.id rfl, fun unbound => absurd unbound never,
      fun unbound => absurd unbound never, fun unbound => absurd unbound never,
      fun unbound => absurd unbound never⟩
  · intro agreed
    exact ⟨rfl, fun id given => Option.some.inj given ▸ agreed.own bound⟩

theorem sameBinding_iff_of_host (keys : Keys store agents) (member : row ∈ store.resources)
    (unbound : isBound agents row.id = false) (isHost : row.kind = "host") :
    SameBinding store agents row ↔ Agreed store agents row := by
  have notBound : ¬ isBound agents row.id = true := Bool.eq_false_iff.mp unbound
  have hears : heard store agents row = (boundChild store agents row.id).or
      ((climb store row.id).findSome? (speaksThrough store agents)) := by
    rw [heard, if_neg notBound, if_pos isHost]
  have asks : asked store agents row =
      ((findAgentService store row.id).map (·.id)).filter (isBound agents) := by
    rw [asked, if_neg notBound, if_pos isHost]
  have noService : ¬ (row.kind = "service" ∨ row.kind = "container") := by
    rw [isHost]
    decide
  have notOther : ¬ row.kind ∉ ["host", "service", "container"] := by
    rw [isHost]
    decide
  rw [SameBinding, hears, asks]
  cases child : boundChild store agents row.id with
  | some child =>
      have bound := (boundChild_eq_some child).2
      rw [Option.some_or]
      constructor
      · intro same
        obtain ⟨same, single⟩ := same
        refine ⟨fun bound => absurd bound notBound, ?_, ?_, fun _ service => absurd service noService,
          fun _ other => absurd other notOther⟩
        · intro _ _ id given
          cases child.symm.trans given
          exact ⟨(Option.filter_eq_some_iff.mp same.symm).1, single _ rfl⟩
        · intro _ _ given
          cases child.symm.trans given
      · intro agreed
        obtain ⟨service, single⟩ := agreed.child unbound isHost _ child
        rw [service, Option.filter_some, if_pos bound]
        exact ⟨rfl, fun id given => Option.some.inj given ▸ single⟩
  | none =>
      have noneAsked :
          ((findAgentService store row.id).map (·.id)).filter (isBound agents) = none := by
        apply Option.eq_none_iff_forall_ne_some.mpr
        intro id given
        obtain ⟨other, found⟩ := isSome_boundChild keys member given
        cases child.symm.trans found
      rw [noneAsked, Option.none_or, List.findSome?_eq_none_iff]
      constructor
      · intro same
        refine ⟨fun bound => absurd bound notBound, ?_, fun _ _ _ => same.1,
          fun _ service => absurd service noService, fun _ other => absurd other notOther⟩
        intro _ _ id given
        cases child.symm.trans given
      · intro agreed
        have silent := agreed.aboveHost unbound isHost child
        refine ⟨silent, fun id given => ?_⟩
        rw [List.findSome?_eq_none_iff.mpr silent] at given
        cases given

theorem sameBinding_iff_of_service (keys : Keys store agents) (member : row ∈ store.resources)
    (unbound : isBound agents row.id = false)
    (isService : row.kind = "service" ∨ row.kind = "container") :
    SameBinding store agents row ↔ Agreed store agents row := by
  have notBound : ¬ isBound agents row.id = true := Bool.eq_false_iff.mp unbound
  have notHost : row.kind ≠ "host" := by
    intro isHost
    rw [isHost] at isService
    exact absurd isService (by decide)
  have listed : row.kind ∈ ["host", "service", "container"] := by
    rcases isService with service | container
    · rw [service]
      decide
    · rw [container]
      decide
  have hears : heard store agents row =
      (climb store row.id).findSome? (speaksThrough store agents) := by
    rw [heard, if_neg notBound, if_neg notHost, Option.none_or]
  have asks : asked store agents row = parentService store agents row.id := by
    rw [asked, if_neg notBound, if_neg notHost, if_pos isService]
  rw [SameBinding, hears, asks]
  constructor
  · intro same
    refine ⟨fun bound => absurd bound notBound, fun _ isHost => absurd isHost notHost,
      fun _ isHost => absurd isHost notHost, ?_, fun _ other => absurd listed other⟩
    intro _ _ id given
    exact ⟨same.1.symm.trans given, same.2 id given⟩
  · intro agreed
    have spoken := agreed.aboveService unbound isService
    refine ⟨?_, fun id given => (spoken id given).2⟩
    cases found : (climb store row.id).findSome? (speaksThrough store agents) with
    | some id => exact (spoken id found).1.symm
    | none =>
        cases service : parentService store agents row.id with
        | none => rfl
        | some id =>
            obtain ⟨other, speaks⟩ := exists_speaks keys member notHost service
            cases found.symm.trans speaks

theorem sameBinding_iff_of_other (unbound : isBound agents row.id = false)
    (other : row.kind ∉ ["host", "service", "container"]) :
    SameBinding store agents row ↔ Agreed store agents row := by
  have notBound : ¬ isBound agents row.id = true := Bool.eq_false_iff.mp unbound
  simp only [List.mem_cons, List.not_mem_nil, or_false, not_or] at other
  obtain ⟨notHost, noService, noContainer⟩ := other
  have neither : ¬ (row.kind = "service" ∨ row.kind = "container") :=
    not_or.mpr ⟨noService, noContainer⟩
  have hears : heard store agents row =
      (climb store row.id).findSome? (speaksThrough store agents) := by
    rw [heard, if_neg notBound, if_neg notHost, Option.none_or]
  have asks : asked store agents row = none := by
    rw [asked, if_neg notBound, if_neg notHost, if_neg neither]
  rw [SameBinding, hears, asks, List.findSome?_eq_none_iff]
  constructor
  · intro same
    exact ⟨fun bound => absurd bound notBound, fun _ isHost => absurd isHost notHost,
      fun _ isHost => absurd isHost notHost, fun _ service => absurd service neither,
      fun _ _ => same.1⟩
  · intro agreed
    have silent := agreed.aboveOther unbound (by simp [notHost, noService, noContainer])
    refine ⟨silent, fun id given => ?_⟩
    rw [List.findSome?_eq_none_iff.mpr silent] at given
    cases given

end Cases

/-- Status evaluation and command routing take one agent exactly where the bindings agree. -/
theorem evaluatedAgent_eq_iff (keys : Keys store agents) (member : row ∈ store.resources) :
    evaluatedAgent store agents row = getAgentForResource store agents row.id ↔
      Agreed store agents row := by
  rw [evaluatedAgent_eq keys member, getAgentForResource_eq keys member,
    bind_eq_bind_iff (fun id given => heard_bound keys member given)
      (fun id given => asked_bound given) keys.agents]
  change SameBinding store agents row ↔ _
  cases bound : isBound agents row.id with
  | true => exact sameBinding_iff_of_bound bound
  | false =>
      by_cases isHost : row.kind = "host"
      · exact sameBinding_iff_of_host keys member bound isHost
      · by_cases isService : row.kind = "service" ∨ row.kind = "container"
        · exact sameBinding_iff_of_service keys member bound isService
        · apply sameBinding_iff_of_other bound
          rw [not_or] at isService
          simp [isHost, isService.1, isService.2]

/-- A hypervisor with an agent, and a guest without one. -/
def guestHost : Discovery.Store where
  resources := [⟨"h1", "host", "Hypervisor", "hypervisor", none, none, ∅⟩,
    ⟨"h2", "host", "Guest", "guest", none, none, ∅⟩,
    ⟨"s1", "service", "Theta Agent", "svc-agent", none, none,
      (∅ : Metadata).insert "subType" (.str "theta-agent")⟩]
  edges := [⟨"e1", "h1", "h2", "hosts", none⟩, ⟨"e2", "h1", "s1", "hosts", none⟩]
  groups := []

def hypervisorAgent : Agent :=
  ⟨"a1", "hypervisor", none, "hash", none, some "s1", false, none, none, none⟩

theorem keys_guestHost : Keys guestHost [hypervisorAgent] :=
  ⟨by decide, by decide, List.nodup_singleton _⟩

theorem evaluatedAgent_eq_iff_guestHost :
    evaluatedAgent guestHost [hypervisorAgent] ⟨"h1", "host", "Hypervisor", "hypervisor", none, none, ∅⟩ =
        getAgentForResource guestHost [hypervisorAgent] "h1" ↔
      Agreed guestHost [hypervisorAgent] ⟨"h1", "host", "Hypervisor", "hypervisor", none, none, ∅⟩ :=
  evaluatedAgent_eq_iff keys_guestHost (by simp [guestHost])

/-- The guest is judged by the agent of its hypervisor, to which no command for it goes. -/
theorem evaluatedAgent_guestHost : Keys guestHost [hypervisorAgent] ∧
    evaluatedAgent guestHost [hypervisorAgent] ⟨"h2", "host", "Guest", "guest", none, none, ∅⟩ =
      some hypervisorAgent ∧
    getAgentForResource guestHost [hypervisorAgent] "h2" = none :=
  ⟨keys_guestHost, by decide, by decide⟩

end ThetaDirectory.Agents
