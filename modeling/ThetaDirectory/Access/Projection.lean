import Mathlib.Data.List.Nodup
import ThetaDirectory.Access.Inheritance
import ThetaDirectory.Catalog.SubtypeTemplates
import ThetaDirectory.Groups.Naming

/-!
# Which resources a set of groups reaches

`accessibleResources` of `services/access_projection.js` adds ids to one set in
two passes: the resources reachable in their own right, then the services that
follow their host.  `Reached` states the same two rules without an order.
-/

namespace ThetaDirectory.Access

open Catalog Groups Library

/-- An enrolled agent and the service resource it is bound to. -/
structure Agent where
  resourceId : Option String
  revoked : Bool
  deriving DecidableEq, Repr

/-- What the caller holds. -/
structure AccessQuery where
  groupIds : List String
  grants : Option Grants
  nonInheriting : Option Grants
  memberOf : List String
  agents : List Agent

/-- A row that is catalogue content: neither retired nor discovered and never
promoted. -/
def inCatalog (resource : Resource) : Bool :=
  if (resource.metadata.field "lifecycle_state").isStr "archived" && !resource.managed then false
  else
    let isAuto := resource.discoverySources.isNonempty &&
      !resource.discoverySources.includes "manual"
    !(isAuto && !resource.managed)

/-- The rows the caller holds.  A bare set of ids is read as `access` grants. -/
def AccessQuery.direct (query : AccessQuery) : Grants :=
  match query.grants with
  | some grants => grants
  | none => query.groupIds.foldl (fun grants id => grants.insert id (some "access")) ∅

/-- The theta-agent services of agents that are still enrolled. -/
def agentServiceIds (all : List Resource) (agents : List Agent) : List String :=
  let enrolled := (agents.filter fun agent => !agent.revoked).filterMap fun agent =>
    truthy agent.resourceId
  (all.filter fun resource => resource.kind == "service" &&
    (resource.metadata.field "subType").isStr "theta-agent" &&
      enrolled.contains resource.id).map (·.id)

/-- The row with an id; of several the last. -/
def byId (all : List Resource) (id : String) : Option Resource :=
  all.reverse.find? fun resource => resource.id == id

/-- The parent on the first edge to a resource. -/
def parentOf (edges : List ResourceEdge) (id : String) : Option String :=
  (edges.find? fun edge => edge.childId == some id).bind (·.parentId)

/-- Walk first parents up to a site, for a bounded number of hops. -/
def walkToSite (all : List Resource) (edges : List ResourceEdge) :
    Nat → Option Resource → Option String
  | 0, _ => none
  | _, none => none
  | hops + 1, some current =>
      if current.kind = "site" then some current.slug
      else walkToSite all edges hops ((parentOf edges current.id).bind (byId all))

def siteSlugOf (all : List Resource) (edges : List ResourceEdge) (resource : Resource) :
    Option String :=
  walkToSite all edges 32 (some resource)

/-- The host a service belongs to: the id the agent wrote, else the first
parent.  An id that is not text names no resource. -/
def hostIdOf (edges : List ResourceEdge) (resource : Resource) : Option String :=
  let written := resource.metadata.field "hostId"
  if written.isTruthy then written.str? else truthy (parentOf edges resource.id)

section Passes

variable (cache : TemplateCache) (all : List Resource) (edges : List ResourceEdge)
  (query : AccessQuery)

def inherited : Grants :=
  effectiveGrants query.direct edges (query.nonInheriting.getD ∅)

/-- Granted by a row, directly or from above, or public. -/
def granted (resource : Resource) : Bool :=
  ((inherited edges query).lookup resource.id).isSome ||
    (resource.metadata.field "isPublic").isTruthy

/-- The first pass at one resource. -/
def reachResource (reachable : List String) (resource : Resource) :
    Except String (List String) :=
  if !inCatalog resource then .ok reachable
  else if granted edges query resource then .ok (reachable ++ [resource.id])
  else if resource.kind ≠ "host" ∨
      ¬ hasLiveAgent resource (agentServiceIds all query.agents) edges ∨
      ¬ (templateFor cache resource).sshCapable then .ok reachable
  else do
    let site := siteSlugOf all edges resource
    if ← hasPermission query.memberOf ⟨site, "host", some resource.slug⟩ "access" then
      return reachable ++ [resource.id]
    return reachable

/-- The second pass at one resource. -/
def followHost (reachable : List String) (resource : Resource) : List String :=
  if reachable.contains resource.id || !inCatalog resource ||
      !(templateFor cache resource).inheritsHost then reachable
  else match hostIdOf edges resource with
    | some hostId =>
        if reachable.contains hostId then reachable ++ [resource.id] else reachable
    | none => reachable

def accessibleResources : Except String (List Resource) := do
  let reachable ← all.foldlM (reachResource cache all edges query) []
  let reachable := all.foldl (followHost cache edges) reachable
  return all.filter fun resource => reachable.contains resource.id

/-! ## The rules -/

/-- A host reached through its agent: it may be logged into, one of its children
is a stored theta-agent service to which an agent that is not revoked is bound,
and the caller's groups give access to the host at its site. -/
def AgentHost (resource : Resource) : Prop :=
  resource.kind = "host" ∧ (templateFor cache resource).sshCapable = true ∧
    (∃ service ∈ all, service.kind = "service" ∧
      (service.metadata.field "subType").isStr "theta-agent" = true ∧
      (∃ edge ∈ edges, edge.parentId = some resource.id ∧ edge.childId = some service.id) ∧
      ∃ agent ∈ query.agents, agent.revoked = false ∧
        truthy agent.resourceId = some service.id) ∧
    hasPermission query.memberOf
      ⟨siteSlugOf all edges resource, "host", some resource.slug⟩ "access" = .ok true

/-- A catalogue row that is public, granted, or a host reached through its
agent. -/
def Admitted (resource : Resource) : Prop :=
  inCatalog resource = true ∧
    ((resource.metadata.field "isPublic").isTruthy = true ∨ resource.id ∈ inherited edges query ∨
      AgentHost cache all edges query resource)

/-- A catalogue row whose access follows the row with the given id. -/
def Follows (resource : Resource) (hostId : String) : Prop :=
  inCatalog resource = true ∧ (templateFor cache resource).inheritsHost = true ∧
    hostIdOf edges resource = some hostId

/-- The least set of rows closed under the two rules. -/
inductive Reached : Resource → Prop where
  | admitted {resource : Resource} (stored : resource ∈ all)
      (admitted : Admitted cache all edges query resource) : Reached resource
  | follows {resource host : Resource} (stored : resource ∈ all) (reached : Reached host)
      (follows : Follows cache edges resource host.id) : Reached resource

end Passes

/-- Catalogue content in the words of the rule. -/
theorem inCatalog_iff (resource : Resource) :
    inCatalog resource = true ↔
      ¬((resource.metadata.field "lifecycle_state").isStr "archived" = true ∧
          resource.managed = false) ∧
        ¬(resource.discoverySources.isNonempty = true ∧
          resource.discoverySources.includes "manual" = false ∧ resource.managed = false) := by
  unfold inCatalog
  cases (resource.metadata.field "lifecycle_state").isStr "archived" <;>
    cases resource.managed <;> cases resource.discoverySources.isNonempty <;>
    cases resource.discoverySources.includes "manual" <;> decide

section Proofs

variable {cache : TemplateCache} {all : List Resource} {edges : List ResourceEdge}
  {query : AccessQuery}

/-- Inheriting from a host is a matter of services. -/
theorem service_of_inheritsHost {resource : Resource}
    (inherits : (templateFor cache resource).inheritsHost = true) :
    resource.kind = "service" ∨ resource.kind = "container" := by
  unfold templateFor at inherits
  by_contra other
  simp only [if_neg other] at inherits
  split_ifs at inherits

theorem mem_agentServiceIds {id : String} :
    id ∈ agentServiceIds all query.agents ↔
      ∃ service ∈ all, service.id = id ∧ service.kind = "service" ∧
        (service.metadata.field "subType").isStr "theta-agent" = true ∧
        ∃ agent ∈ query.agents, agent.revoked = false ∧
          truthy agent.resourceId = some service.id := by
  simp only [agentServiceIds, List.mem_map, List.mem_filter, Bool.and_eq_true, beq_iff_eq,
    List.contains_iff_mem, List.mem_filterMap, Bool.not_eq_true']
  grind

/-- The agent test finds a child of the host among the enrolled services. -/
theorem hasLiveAgent_iff {resource : Resource} (host : resource.kind = "host") :
    hasLiveAgent resource (agentServiceIds all query.agents) edges = true ↔
      ∃ service ∈ all, service.kind = "service" ∧
        (service.metadata.field "subType").isStr "theta-agent" = true ∧
        (∃ edge ∈ edges, edge.parentId = some resource.id ∧ edge.childId = some service.id) ∧
        ∃ agent ∈ query.agents, agent.revoked = false ∧
          truthy agent.resourceId = some service.id := by
  simp only [hasLiveAgent, host, beq_self_eq_true, Bool.true_and, List.any_eq_true,
    Bool.and_eq_true, beq_iff_eq, mem_agentServiceIds]
  constructor
  · rintro ⟨edge, inEdges, parentEq, id, ⟨service, stored, rfl, isService, isAgent, bound⟩,
      childEq⟩
    exact ⟨service, stored, isService, isAgent, ⟨edge, inEdges, parentEq, childEq⟩, bound⟩
  · rintro ⟨service, stored, isService, isAgent, ⟨edge, inEdges, parentEq, childEq⟩, bound⟩
    exact ⟨edge, inEdges, parentEq, service.id,
      ⟨service, stored, rfl, isService, isAgent, bound⟩, childEq⟩

/-- The first pass never throws, and it adds the admitted resources. -/
theorem reachResource_eq (reachable : List String) (resource : Resource) :
    ∃ next, reachResource cache all edges query reachable resource = .ok next ∧
      ∀ id, id ∈ next ↔ id ∈ reachable ∨
        id = resource.id ∧ Admitted cache all edges query resource := by
  unfold reachResource
  by_cases catalogued : inCatalog resource = true
  · by_cases isGranted : granted edges query resource = true
    · refine ⟨reachable ++ [resource.id], by simp [catalogued, isGranted], fun id => ?_⟩
      have byRow : (resource.metadata.field "isPublic").isTruthy = true ∨
          resource.id ∈ inherited edges query := by
        simp only [granted, Bool.or_eq_true, AList.lookup_isSome] at isGranted
        exact isGranted.symm
      have admitted : Admitted cache all edges query resource :=
        ⟨catalogued, byRow.elim Or.inl fun granted => Or.inr (Or.inl granted)⟩
      simp [admitted]
    · have ungranted : ¬(resource.metadata.field "isPublic").isTruthy = true ∧
          resource.id ∉ inherited edges query := by
        simp only [granted, Bool.or_eq_true, AList.lookup_isSome, not_or] at isGranted
        exact isGranted.symm
      have admittedIff : Admitted cache all edges query resource ↔
          AgentHost cache all edges query resource := by
        simp [Admitted, catalogued, ungranted]
      by_cases candidate : resource.kind = "host" ∧
          hasLiveAgent resource (agentServiceIds all query.agents) edges = true ∧
          (templateFor cache resource).sshCapable = true
      · obtain ⟨host, live, ssh⟩ := candidate
        have asked : ResourceRef.HasKind
            ⟨siteSlugOf all edges resource, "host", some resource.slug⟩ .host := rfl
        have agentIff : AgentHost cache all edges query resource ↔
            hasPermission query.memberOf
              ⟨siteSlugOf all edges resource, "host", some resource.slug⟩ "access" =
                .ok true := by
          simp only [AgentHost, host, ssh, (hasLiveAgent_iff host).mp live, true_and]
        obtain ⟨allowed, answered⟩ : ∃ allowed, hasPermission query.memberOf
            ⟨siteSlugOf all edges resource, "host", some resource.slug⟩ "access" = .ok allowed :=
          ⟨_, hasPermission_eq asked query.memberOf "access"⟩
        rw [admittedIff, agentIff, answered]
        cases allowed with
        | true =>
            exact ⟨reachable ++ [resource.id], by
              simp [catalogued, isGranted, host, live, ssh, answered, bind, Except.bind, pure,
                Except.pure], fun id => by simp⟩
        | false =>
            exact ⟨reachable, by
              simp [catalogued, isGranted, host, live, ssh, answered, bind, Except.bind, pure,
                Except.pure], fun id => by simp⟩
      · refine ⟨reachable, ?_, fun id => ?_⟩
        · simp only [catalogued, isGranted, Bool.not_true, Bool.false_eq_true, if_false]
          rw [if_pos]
          by_contra both
          simp only [not_or, not_not, ne_eq] at both
          exact candidate both
        · have notAdmitted : ¬ Admitted cache all edges query resource := by
            rw [admittedIff]
            rintro ⟨host, ssh, bound, -⟩
            exact candidate ⟨host, (hasLiveAgent_iff host).mpr bound, ssh⟩
          simp [notAdmitted]
  · refine ⟨reachable, by simp [catalogued], fun id => ?_⟩
    have notAdmitted : ¬ Admitted cache all edges query resource :=
      fun admitted => catalogued admitted.1
    simp [notAdmitted]

theorem foldlM_reachResource (rows : List Resource) (reachable : List String) :
    ∃ next, rows.foldlM (reachResource cache all edges query) reachable = .ok next ∧
      ∀ id, id ∈ next ↔ id ∈ reachable ∨
        ∃ resource ∈ rows, id = resource.id ∧ Admitted cache all edges query resource := by
  induction rows generalizing reachable with
  | nil => exact ⟨reachable, rfl, by simp⟩
  | cons head rows ih =>
      obtain ⟨middle, first, memMiddle⟩ :=
        @reachResource_eq cache all edges query reachable head
      obtain ⟨next, rest, memNext⟩ := ih middle
      refine ⟨next, by simp [List.foldlM_cons, first, rest, bind, Except.bind], fun id => ?_⟩
      rw [memNext, memMiddle]
      simp [or_assoc]

/-- Every id the second pass holds was there before or belongs to a row that
follows an id already held. -/
theorem followHost_iff (reachable : List String) (resource : Resource) (id : String) :
    id ∈ followHost cache edges reachable resource ↔ id ∈ reachable ∨
      id = resource.id ∧ ∃ hostId ∈ reachable, Follows cache edges resource hostId := by
  unfold followHost Follows
  split_ifs with skipped
  · simp only [Bool.or_eq_true, List.contains_iff_mem, Bool.not_eq_true'] at skipped
    grind
  · simp only [Bool.or_eq_true, List.contains_iff_mem, Bool.not_eq_true', not_or] at skipped
    cases hostIdOf edges resource with
    | none => simp
    | some hostId =>
        by_cases held : hostId ∈ reachable
        · simp_all
        · simp_all

/-- The second pass only adds ids. -/
theorem subset_foldl_followHost (rows : List Resource) (reachable : List String) :
    reachable ⊆ rows.foldl (followHost cache edges) reachable := by
  induction rows generalizing reachable with
  | nil => exact fun id member => member
  | cons head rows ih =>
      intro id member
      exact ih _ ((followHost_iff reachable head id).mpr (Or.inl member))

/-- A row that follows an id held before the second pass is added. -/
theorem mem_foldl_followHost_of_follows {rows : List Resource} {reachable : List String}
    {resource : Resource} (stored : resource ∈ rows) {hostId : String}
    (held : hostId ∈ reachable) (follows : Follows cache edges resource hostId) :
    resource.id ∈ rows.foldl (followHost cache edges) reachable := by
  induction rows generalizing reachable with
  | nil => simp at stored
  | cons head rows ih =>
      rw [List.foldl_cons]
      rcases List.mem_cons.mp stored with rfl | later
      · exact subset_foldl_followHost rows _
          ((followHost_iff reachable _ _).mpr (Or.inr ⟨rfl, hostId, held, follows⟩))
      · exact ih later ((followHost_iff reachable head hostId).mpr (Or.inl held))

/-- Whatever the order of the rows, the second pass adds only ids of reached
rows. -/
theorem reached_of_mem_foldl_followHost {rows : List Resource} (subset : rows ⊆ all)
    {reachable : List String}
    (reached : ∀ id ∈ reachable, ∃ resource ∈ all, resource.id = id ∧
      Reached cache all edges query resource) {id : String}
    (member : id ∈ rows.foldl (followHost cache edges) reachable) :
    ∃ resource ∈ all, resource.id = id ∧ Reached cache all edges query resource := by
  induction rows generalizing reachable with
  | nil => exact reached id member
  | cons head rows ih =>
      rw [List.foldl_cons] at member
      refine ih (fun row inRows => subset (List.mem_cons_of_mem _ inRows)) ?_ member
      intro next held
      rcases (followHost_iff reachable head next).mp held with old | ⟨rfl, hostId, inReach, follows⟩
      · exact reached next old
      · obtain ⟨host, -, rfl, hostReached⟩ := reached hostId inReach
        have stored : head ∈ all := subset List.mem_cons_self
        exact ⟨head, stored, rfl, .follows stored hostReached follows⟩

/-- The projection never throws: it returns the rows the second pass leaves, and the first
pass holds the ids of the admitted rows. -/
theorem accessibleResources_passes (cache : TemplateCache) (all : List Resource)
    (edges : List ResourceEdge) (query : AccessQuery) :
    ∃ reachable, accessibleResources cache all edges query = .ok (all.filter fun resource =>
        (all.foldl (followHost cache edges) reachable).contains resource.id) ∧
      ∀ id, id ∈ reachable ↔
        ∃ resource ∈ all, id = resource.id ∧ Admitted cache all edges query resource := by
  obtain ⟨reachable, ran, held⟩ :=
    @foldlM_reachResource cache all edges query all []
  refine ⟨reachable, ?_, fun id => by simp [held]⟩
  simp [accessibleResources, ran, bind, Except.bind, pure, Except.pure]

end Proofs

end ThetaDirectory.Access
