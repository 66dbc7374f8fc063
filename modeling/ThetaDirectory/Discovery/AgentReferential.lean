import ThetaDirectory.Discovery.Acyclicity
import ThetaDirectory.Discovery.AgentServices
import ThetaDirectory.Discovery.Referential

/-!
# Referential integrity and agents

What a report of an agent's services and the adoption of a host need to leave edges and
group links with stored rows.
-/

namespace ThetaDirectory.Discovery

open Library Catalog Store

variable {env : Env} {store later : Store}

/-! ## Services of an agent -/

/-- The agent is bound to a stored agent service, and its host is a stored host. -/
theorem hostForAgent_spec {resourceId : Option String} {host : Resource}
    (bound : hostForAgent store resourceId = some host) :
    ∃ service, (truthy resourceId).bind store.find = some service ∧
      isAgentService service = true ∧ host ∈ store.resources ∧ host.kind = "host" := by
  unfold hostForAgent at bound
  simp only [bind, Option.bind_eq_some_iff] at bound
  obtain ⟨service, bound, found⟩ := bound
  obtain ⟨isFound, isService⟩ := Option.filter_eq_some_iff.mp bound
  obtain ⟨edge, -, isHost⟩ := List.exists_of_findSome?_eq_some found
  obtain ⟨parent, hostKind⟩ := Option.filter_eq_some_iff.mp isHost
  exact ⟨service, isFound, isService, (has_find parent).2.1, by simpa using hostKind⟩

section Services

variable {context : HostServices} {run : ServiceRun}

/-- What a report keeps: no row goes, and new edges lead from the host to stored rows. -/
structure ServicesKept (context : HostServices) (store : Store) (run : ServiceRun) : Prop where
  keyed : run.store.Keyed
  rows : ∀ id, store.Has id → run.store.Has id
  edges : ∀ edge ∈ run.store.edges, edge ∈ store.edges ∨
    edge.parentId = context.host.id ∧ run.store.Has edge.childId
  groups : run.store.groups = store.groups

theorem ServicesKept.parentService {serviceId : String} (kept : ServicesKept context store run)
    (has : run.store.Has serviceId) :
    ServicesKept context store (parentService context run serviceId) := by
  unfold Discovery.parentService
  split
  · exact kept
  · refine ⟨⟨kept.keyed.ids, kept.keyed.slugs⟩, kept.rows, fun edge member => ?_, kept.groups⟩
    rcases List.mem_append.mp member with old | new
    · exact kept.edges edge old
    · rw [List.mem_singleton.mp new]
      exact Or.inr ⟨rfl, has⟩

theorem ServicesKept.reportService {service : AgentService}
    (kept : ServicesKept context store run) :
    ServicesKept context store (reportService context run service) := by
  unfold Discovery.reportService
  split
  · exact kept
  · rename_i name _
    dsimp only
    split
    · rename_i row found
      have inTable := List.mem_of_mem_filter (List.mem_of_find?_eq_some found)
      have sameHas := fun id => @has_update run.store row.id (fun old => { old with
        metadata := seenServiceMetadata context ((truthy service.subtype).getD "systemd") name
          row.metadata }) id fun _ => rfl
      apply ServicesKept.parentService
      · refine ⟨kept.keyed.update (fun _ => rfl) (fun _ => rfl), ?_, ?_, kept.groups⟩
        · exact fun id has => (sameHas id).mpr (kept.rows id has)
        · intro edge member
          exact (kept.edges edge member).imp_right fun new => ⟨new.1, (sameHas _).mpr new.2⟩
      · exact (sameHas _).mpr ⟨row, inTable, rfl⟩
    · split
      · exact ⟨kept.keyed, kept.rows, kept.edges, kept.groups⟩
      · rename_i row next created
        obtain ⟨-, rfl, -⟩ := create_ok created
        have grown : ∀ id, run.store.Has id →
            Has { run.store with resources := run.store.resources ++ [row] } id :=
          fun id ⟨old, member, same⟩ => ⟨old, List.mem_append_left _ member, same⟩
        apply ServicesKept.parentService
        · refine ⟨kept.keyed.create created, fun id has => grown id (kept.rows id has), ?_,
            kept.groups⟩
          intro edge member
          exact (kept.edges edge member).imp_right fun new => ⟨new.1, grown _ new.2⟩
        · exact ⟨row, List.mem_append_right _ (List.mem_singleton_self _), rfl⟩

/-- The loop over the reported services. -/
theorem servicesKept_foldl {services : List AgentService} (kept : ServicesKept context store run) :
    ServicesKept context store (services.foldl (reportService context) run) :=
  List.foldlRecOn _ _ kept fun _ kept _ _ => kept.reportService

/-- The row is one the prune deletes: no other source knows it. -/
def isPruned (context : HostServices) (reported : List String) (row : Resource) : Bool :=
  isUnreported context reported row &&
    ((sourcesOf row.metadata).filter (· ≠ "theta-agent")).isEmpty

/-- No group is bound to a row the prune deletes. -/
def PrunesUnlinked (env : Env) (resourceId : Option String) (services : List AgentService)
    (store : Store) : Prop :=
  ∀ host, hostForAgent store resourceId = some host →
    ∀ row ∈ (serviceRun env services store host).allServices,
      isPruned (hostServices env store host) (serviceRun env services store host).reported row =
        true → store.Unlinked row.id

/-- The prune keeps integrity where no group is bound to what it deletes. -/
theorem referential_pruneService {reported : List String} {row : Resource}
    (keyed : store.Keyed) (referential : store.Referential)
    (unlinked : isPruned context reported row = true → store.Unlinked row.id) :
    (pruneService context reported store row).Keyed ∧
      (pruneService context reported store row).Referential ∧
        (pruneService context reported store row).groups = store.groups := by
  unfold pruneService
  split
  · exact ⟨keyed, referential, rfl⟩
  · rename_i unreported
    dsimp only
    split
    · exact ⟨keyed.update (fun _ => rfl) (fun _ => rfl), referential.update fun _ => rfl, rfl⟩
    · rename_i alone
      refine ⟨keyed.filter, referential.drop ?_ (unlinked ?_), rfl⟩
      · intro edge member
        obtain ⟨old, apart⟩ := List.mem_filter.mp member
        obtain ⟨child, parent⟩ := of_decide_eq_true apart
        exact ⟨old, parent, child⟩
      · simp only [ne_eq, not_not] at alone
        rw [isPruned, alone, List.isEmpty_nil, Bool.and_true]
        simpa using unreported

theorem referential_services {resourceId : Option String} {services : List AgentService}
    {prune : Bool} (keyed : store.Keyed) (referential : store.Referential)
    (unlinked : prune = true → PrunesUnlinked env resourceId services store) :
    (reconcileServicesFromTelemetry env resourceId services prune store).Keyed ∧
      (reconcileServicesFromTelemetry env resourceId services prune store).Referential := by
  unfold reconcileServicesFromTelemetry
  split
  · exact ⟨keyed, referential⟩
  · rename_i host bound
    have kept : ServicesKept (hostServices env store host) store
        (serviceRun env services store host) :=
      servicesKept_foldl ⟨keyed, fun _ has => has, fun edge member => Or.inl member, rfl⟩
    obtain ⟨-, -, -, hostIn, -⟩ := hostForAgent_spec bound
    have reported : (serviceRun env services store host).store.Referential := by
      apply referential.of_grown kept.rows
      · intro edge member
        rcases kept.edges edge member with old | ⟨parentEq, child⟩
        · exact Or.inl old
        · exact Or.inr ⟨parentEq ▸ kept.rows _ ⟨host, hostIn, rfl⟩, child⟩
      · exact kept.groups
    dsimp only
    split
    · rename_i pruned
      have swept := @List.foldlRecOn _ _
        (fun state : Store => state.Keyed ∧ state.Referential ∧ state.groups = store.groups)
        (serviceRun env services store host).allServices
        (pruneService (hostServices env store host) (serviceRun env services store host).reported)
        _ ⟨kept.keyed, reported, kept.groups⟩ (by
          rintro state ⟨keyed, referential, groups⟩ row member
          have step := referential_pruneService keyed referential fun isPruned link inState =>
            unlinked pruned host bound row member isPruned link (groups ▸ inState)
          exact ⟨step.1, step.2.1, step.2.2.trans groups⟩)
      exact ⟨swept.1, swept.2.1⟩
    · exact ⟨kept.keyed, reported⟩

/-- Nothing but edges that lead to the service names it. -/
def UnregistersUnnamed (resourceId service : Option String) (store : Store) : Prop :=
  ∀ name target, truthy service = some name → findRegistered store resourceId name = some target →
    (∀ edge ∈ store.edges, edge.parentId ≠ target.id) ∧ store.Unlinked target.id

theorem referential_unregister {resourceId service : Option String} (keyed : store.Keyed)
    (referential : store.Referential) (unnamed : UnregistersUnnamed resourceId service store)
    (unregistered : handleServiceUnregistration resourceId service store = .ok later) :
    later.Keyed ∧ later.Referential := by
  unfold handleServiceUnregistration at unregistered
  split at unregistered
  · contradiction
  · rename_i name named
    split at unregistered
    · cases unregistered
      exact ⟨keyed, referential⟩
    · rename_i target found
      cases unregistered
      obtain ⟨parents, unlinked⟩ := unnamed name target named found
      refine ⟨keyed.filter, referential.drop (fun edge member => ?_) unlinked⟩
      obtain ⟨old, child⟩ := List.mem_filter.mp member
      exact ⟨old, parents edge old, of_decide_eq_true child⟩

end Services

/-! ## Adopting a host -/

/-- No group is bound to the placeholder, and nothing but the edge from it names the agent's
old service, where that goes. -/
def AdoptsUnnamed (resourceId : Option String) (discovery : AgentDiscovery) (store : Store) :
    Prop :=
  ∀ placeholder realHost, hostForAgent store resourceId = some placeholder →
    findRealHost store placeholder discovery = some realHost → store.Unlinked placeholder.id ∧
      ∀ service, (truthy resourceId).bind store.find = some service →
        (∀ other, findAgentService store realHost.id = some other → other.id ≠ service.id) →
          store.Unlinked service.id ∧ ∀ edge ∈ store.edges, edge.parentId ≠ service.id ∧
            (edge.childId = service.id → edge.parentId = placeholder.id)

/-- The agent service of a host is stored: one that was there, or a new one. -/
theorem ensureAgentService_spec {host service : Resource}
    (ensured : ensureAgentService env store host = .ok (service, later)) :
    later.groups = store.groups ∧ (∀ id, store.Has id → later.Has id) ∧ later.Has service.id ∧
      (store.Keyed → later.Keyed) ∧
      (findAgentService store host.id = some service ∧ later = store ∨
        findAgentService store host.id = none ∧ ¬ store.Has service.id ∧ ∀ edge ∈ later.edges, edge ∈ store.edges ∨
          edge.parentId = host.id ∧ edge.childId = service.id) := by
  unfold ensureAgentService at ensured
  split at ensured
  · rename_i found
    cases ensured
    have has : store.Has service.id := by
      unfold findAgentService at found
      obtain ⟨edge, -, isService⟩ := List.exists_of_findSome?_eq_some found
      obtain ⟨isFound, -⟩ := Option.filter_eq_some_iff.mp isService
      exact ⟨service, (has_find isFound).2.1, rfl⟩
    exact ⟨rfl, fun _ has => has, has, id, Or.inl ⟨found, rfl⟩⟩
  · rename_i none
    simp only [bind, Except.bind] at ensured
    split at ensured
    · cases ensured
    · rename_i result created
      obtain ⟨row, next⟩ := result
      obtain ⟨-, nextEq, free⟩ := create_ok created
      cases ensured
      refine ⟨by rw [nextEq], ?_, ?_, ?_, Or.inr ⟨none, ?_, ?_⟩⟩
      · rintro id ⟨old, member, same⟩
        rw [nextEq]
        exact ⟨old, List.mem_append_left _ member, same⟩
      · rw [nextEq]
        exact ⟨row, List.mem_append_right _ (List.mem_singleton_self _), rfl⟩
      · intro keyed
        exact ⟨(keyed.create created).ids, (keyed.create created).slugs⟩
      · rintro ⟨old, member, same⟩
        exact (free old member).1 same
      · intro edge member
        rcases List.mem_append.mp member with old | new
        · rw [nextEq] at old
          exact Or.inl old
        · rw [List.mem_singleton.mp new]
          exact Or.inr ⟨rfl, rfl⟩

theorem moveHostId_keys (placeholderId realId : String) (movedIds : List String)
    (row : Resource) : (moveHostId placeholderId realId movedIds row).id = row.id ∧
      (moveHostId placeholderId realId movedIds row).slug = row.slug := by
  unfold moveHostId
  split <;> exact ⟨rfl, rfl⟩

/-- What the deletions of an adoption leave. -/
structure Adopted (next : Store) (placeholderId realId newId : String)
    (oldServiceId : Option String) (later : Store) : Prop where
  keyed : next.Keyed → later.Keyed
  rows : ∀ id, next.Has id → id ≠ placeholderId → (oldServiceId = some id → id = newId) →
    later.Has id
  edges : later.edges = moveChildren placeholderId realId oldServiceId next.edges
  groups : later.groups = next.groups

theorem adoptHost_spec {placeholder realHost : Resource} {resourceId : Option String}
    {serviceId : String}
    (adopted : adoptHost env store placeholder realHost resourceId = .ok (serviceId, later)) :
    ∃ newService next, ensureAgentService env store realHost = .ok (newService, next) ∧
      Adopted next placeholder.id realHost.id newService.id
        (((truthy resourceId).bind store.find).map (·.id)) later := by
  unfold adoptHost at adopted
  simp only [bind, Except.bind] at adopted
  split at adopted
  · cases adopted
  · rename_i result ensured
    obtain ⟨newService, next⟩ := result
    cases adopted
    have touched := fun id => @has_update next newService.id (touch env) id fun _ => rfl
    refine ⟨newService, next, ensured, ?_, ?_, rfl, rfl⟩
    · intro keyed
      have touchedKeyed : (next.update newService.id (touch env)).Keyed :=
        keyed.update (fun _ => rfl) (fun _ => rfl)
      refine ⟨?_, ?_⟩
      · refine List.Nodup.sublist (List.filter_sublist.map _) ?_
        simpa only [List.map_map, Function.comp_def, moveHostId_keys] using touchedKeyed.ids
      · refine List.Nodup.sublist (List.filter_sublist.map _) ?_
        simpa only [List.map_map, Function.comp_def, moveHostId_keys] using touchedKeyed.slugs
    · intro id has notPlaceholder stays
      obtain ⟨row, member, rfl⟩ := (touched id).mpr has
      refine ⟨_, List.mem_filter.mpr ⟨List.mem_map_of_mem member, ?_⟩,
        (moveHostId_keys _ _ _ row).1⟩
      simp only [(moveHostId_keys _ _ _ row).1, decide_eq_true_eq]
      exact ⟨notPlaceholder, stays⟩

/-- An adoption deletes the placeholder and the agent's old service, which nothing but what
it moves may name. -/
theorem referential_adoptHost {placeholder realHost : Resource} {resourceId : Option String}
    {serviceId : String} (keyed : store.Keyed) (referential : store.Referential)
    (known : realHost ∈ store.resources.filter fun row =>
      row.kind == "host" && row.id != placeholder.id)
    (isService : ∀ service, (truthy resourceId).bind store.find = some service →
      service.kind = "service")
    (unlinked : store.Unlinked placeholder.id)
    (unnamed : ∀ service, (truthy resourceId).bind store.find = some service →
      (∀ other, findAgentService store realHost.id = some other → other.id ≠ service.id) →
        store.Unlinked service.id ∧ ∀ edge ∈ store.edges, edge.parentId ≠ service.id ∧
          (edge.childId = service.id → edge.parentId = placeholder.id))
    (adopted : adoptHost env store placeholder realHost resourceId = .ok (serviceId, later)) :
    later.Keyed ∧ later.Referential := by
  simp only [List.mem_filter, Bool.and_eq_true, beq_iff_eq, bne_iff_ne] at known
  obtain ⟨realIn, realKind, realNe⟩ := known
  obtain ⟨newService, next, ensured, after⟩ := adoptHost_spec adopted
  obtain ⟨groups, grown, newHas, nextKeyed, outcome⟩ := ensureAgentService_spec ensured
  generalize isOldId : ((truthy resourceId).bind store.find).map (·.id) = oldId at after
  have oldService : ∀ id, oldId = some id → ∃ service,
      (truthy resourceId).bind store.find = some service ∧ service ∈ store.resources ∧
        service.id = id := by
    intro id isOld
    obtain ⟨service, found, sameId⟩ := Option.map_eq_some_iff.mp (isOldId.trans isOld)
    obtain ⟨_, -, inTable⟩ := Option.bind_eq_some_iff.mp found
    exact ⟨service, found, (has_find inTable).2.1, sameId⟩
  -- Nothing but the edge from the placeholder names the old service, if that goes.
  have oldApart : ∀ id, oldId = some id → id ≠ newService.id → store.Unlinked id ∧
      ∀ edge ∈ store.edges, edge.parentId ≠ id ∧
        (edge.childId = id → edge.parentId = placeholder.id) := by
    intro id isOld different
    obtain ⟨service, found, -, rfl⟩ := oldService id isOld
    refine unnamed service found fun other otherFound => ?_
    rcases outcome with ⟨newFound, -⟩ | ⟨none, -⟩
    · rw [newFound] at otherFound
      exact (Option.some.inj otherFound) ▸ different.symm
    · rw [none] at otherFound
      contradiction
  have newEdges : ∀ edge ∈ next.edges, edge ∈ store.edges ∨ edge.parentId = realHost.id ∧
      edge.childId = newService.id ∧ next.Has edge.childId := by
    intro edge member
    rcases outcome with ⟨-, rfl⟩ | ⟨-, -, adds⟩
    · exact Or.inl member
    · rcases adds edge member with old | ⟨parentEq, childEq⟩
      · exact Or.inl old
      · exact Or.inr ⟨parentEq, childEq, childEq ▸ newHas⟩
  have realStays : oldId = some realHost.id → realHost.id = newService.id := by
    intro isOld
    obtain ⟨service, found, inTable, sameId⟩ := oldService _ isOld
    have serviceKind := isService service found
    rw [keyed.eq_of_id inTable realIn sameId, realKind] at serviceKind
    contradiction
  have realHas : later.Has realHost.id := after.rows _ (grown _ ⟨realHost, realIn, rfl⟩) realNe
    realStays
  refine ⟨after.keyed (nextKeyed keyed), referential.of_kept
    (fun id => id = placeholder.id ∨ oldId = some id ∧ id ≠ newService.id) ?_ ?_ ?_⟩
  · intro id has stays
    simp only [not_or, not_and, not_not] at stays
    exact after.rows id (grown id has) stays.1 stays.2
  · intro edge member
    rw [after.edges] at member
    obtain ⟨childNe, ⟨inNext, parentNe⟩ | ⟨parentEq, old, oldIn, -, childEq, notOld⟩⟩ :=
      moveChildren_cases member
    · rcases newEdges edge inNext with inStore | ⟨parentEq, childEq, childHas⟩
      · refine Or.inl ⟨inStore, ?_, ?_⟩
        · rintro (same | ⟨isOld, different⟩)
          · exact parentNe same
          · exact ((oldApart _ isOld different).2 edge inStore).1 rfl
        · rintro (same | ⟨isOld, different⟩)
          · exact childNe same
          · exact parentNe (((oldApart _ isOld different).2 edge inStore).2 rfl)
      · exact Or.inr ⟨parentEq ▸ realHas, after.rows _ childHas childNe fun _ => childEq⟩
    · refine Or.inr ⟨parentEq ▸ realHas, after.rows _ ?_ childNe fun isOld => absurd isOld notOld⟩
      rw [← childEq]
      rcases newEdges old oldIn with inStore | ⟨-, -, childHas⟩
      · exact grown _ (referential.children old inStore)
      · exact childHas
  · intro link member
    rw [after.groups, groups] at member
    refine ⟨member, ?_⟩
    rintro (same | ⟨isOld, different⟩)
    · exact unlinked link member same
    · exact (oldApart _ isOld different).1 link member rfl

theorem referential_applyDiscovery {resourceId : Option String} {discovery : AgentDiscovery}
    (keyed : store.Keyed) (referential : store.Referential)
    (unnamed : AdoptsUnnamed resourceId discovery store) :
    (applyDiscovery env resourceId discovery store).Keyed ∧
      (applyDiscovery env resourceId discovery store).Referential := by
  unfold applyDiscovery
  split
  · exact ⟨keyed, referential⟩
  · rename_i placeholder bound
    dsimp only
    split
    · exact ⟨keyed, referential⟩
    · rename_i host serviceId later adopted
      have kept : later.Keyed ∧ later.Referential := by
        cases found : findRealHost store placeholder discovery with
        | none =>
            rw [found] at adopted
            cases adopted
            exact ⟨keyed, referential⟩
        | some realHost =>
            rw [found] at adopted
            simp only [bind, Except.bind] at adopted
            split at adopted
            · cases adopted
            · rename_i done
              cases adopted
              obtain ⟨service, isBound, isService, placeholderIn, -⟩ := hostForAgent_spec bound
              obtain ⟨unlinked, apart⟩ := unnamed placeholder _ bound found
              refine referential_adoptHost keyed referential (mem_of_findRealHost found) ?_
                unlinked apart done
              intro other otherFound
              rw [isBound] at otherFound
              obtain rfl := Option.some.inj otherFound
              simp only [isAgentService, Bool.and_eq_true, beq_iff_eq] at isService
              exact isService.1
      constructor
      · apply Keyed.update (kept.1.update _ _) <;> exact fun _ => rfl
      · apply Referential.update
        · exact kept.2.update fun _ => rfl
        · exact fun _ => rfl

end ThetaDirectory.Discovery
