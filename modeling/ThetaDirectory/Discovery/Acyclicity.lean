import ThetaDirectory.Discovery.Adoption
import ThetaDirectory.Discovery.EdgeRoutes
import ThetaDirectory.Discovery.Linking

/-!
# The edge graph stays acyclic

Each operation that writes edges keeps the graph acyclic: the ones that check for a
descendant always do, the others when what they move is not at or above its new
parent.
-/

namespace ThetaDirectory.Discovery

open Library Catalog Relation

variable {env : Env} {store : Store}

/-- The row is the other one or above it. -/
def IsAbove (store : Store) (id above : String) : Prop := ReflTransGen (IsChild store.edges) above id

/-- No row is below itself. -/
def Store.Acyclic (store : Store) : Prop := Library.Acyclic (IsChild store.edges)

/-- The random ids a run draws are different and not in use. -/
structure Env.Fresh (env : Env) (store : Store) : Prop where
  distinct : ∀ first second, env.uuid first = env.uuid second → first = second
  notId : ∀ draw, ∀ row ∈ store.resources, row.id ≠ env.uuid draw
  notEnd : ∀ draw, ∀ edge ∈ store.edges, edge.parentId ≠ env.uuid draw ∧
    edge.childId ≠ env.uuid draw

theorem isChild_mono {edges more : List EdgeRow} (subset : ∀ edge ∈ edges, edge ∈ more)
    (parent child : String) (edge : IsChild edges parent child) : IsChild more parent child := by
  obtain ⟨row, member, ends⟩ := edge
  exact ⟨row, subset row member, ends⟩

/-- A table whose rows are old or lead from one parent to one child. -/
theorem isChild_of_adds {edges more : List EdgeRow} {parentId childId : String}
    (adds : ∀ edge ∈ more, edge ∈ edges ∨ edge.parentId = parentId ∧ edge.childId = childId)
    (parent child : String) (edge : IsChild more parent child) :
    IsChild edges parent child ∨ parent = parentId ∧ child = childId := by
  obtain ⟨row, member, rfl, rfl⟩ := edge
  exact (adds row member).imp_left fun old => ⟨row, old, rfl, rfl⟩

/-- A fresh id is above no row, itself apart. -/
theorem Env.Fresh.not_isAbove (fresh : env.Fresh store) {draw : Nat} {id : String}
    (different : env.uuid draw ≠ id) : ¬ IsAbove store id (env.uuid draw) := by
  intro path
  rcases ReflTransGen.cases_head path with same | ⟨next, ⟨edge, member, parentEq, -⟩, -⟩
  · exact different same
  · exact (fresh.notEnd draw edge member).1 parentEq

/-- Only an edge can close a cycle, so looking below the child of each is enough. -/
theorem Store.acyclic_iff : store.Acyclic ↔
    ∀ edge ∈ store.edges, isDescendant edge.parentId edge.childId store.edges = false := by
  simp only [← Bool.not_eq_true, isDescendant_iff]
  constructor
  · intro acyclic edge member back
    exact acyclic edge.parentId (TransGen.head' ⟨edge, member, rfl, rfl⟩ back)
  · intro noneBack id cycle
    obtain ⟨next, ⟨edge, member, rfl, rfl⟩, back⟩ := TransGen.head'_iff.mp cycle
    exact noneBack edge member back

instance : Decidable store.Acyclic := decidable_of_iff _ Store.acyclic_iff.symm

instance {id above : String} : Decidable (IsAbove store id above) :=
  decidable_of_iff _ isDescendant_iff

/-! ## `POST /edges` -/

/-- An edge made by hand is checked for a cycle. -/
theorem acyclic_postEdge {body : EdgeBody} {later : Store} (acyclic : store.Acyclic)
    (posted : postEdge env body store = .ok later) : later.Acyclic := by
  unfold postEdge at posted
  split at posted
  · rename_i parentId childId _ _
    split at posted
    · cases posted
    · split at posted
      · cases posted
      · split at posted
        · cases posted
        · split at posted
          · cases posted
          · rename_i notBelow
            cases posted
            rw [isDescendant_iff] at notBelow
            refine Library.Acyclic.insert acyclic notBelow (isChild_of_adds ?_)
            intro edge member
            rcases List.mem_append.mp member with old | new
            · exact Or.inl old
            · rw [List.mem_singleton.mp new]
              exact Or.inr ⟨rfl, rfl⟩
  · cases posted

/-! ## `PUT /resources/:id` -/

/-- The edges after a request are as before or those of the move it asks for. -/
theorem edges_putResource {templates : List TemplateRow} {id : String} {body : ResourceBody}
    {later : Store} (put : putResource env templates id body store = .ok later) :
    later.edges = store.edges ∨ later.edges = reparent env id body.hostId store.edges := by
  unfold putResource at put
  split at put
  · simp only [bind, Except.bind] at put
    split at put
    · cases put
    · split at put
      · cases put
      · split at put
        · cases put
        · split at put
          · cases put
            exact Or.inr rfl
          · cases put
            exact Or.inl rfl
  · cases put

theorem reparent_adds {id hostId : String} {given : Option String} {edges : List EdgeRow}
    (parent : truthy given = some hostId) :
    ∀ edge ∈ reparent env id given edges,
      edge ∈ edges ∨ edge.parentId = hostId ∧ edge.childId = id := by
  intro edge member
  unfold reparent at member
  simp only [parent] at member
  rcases List.mem_append.mp member with old | new
  · exact Or.inl (List.mem_of_mem_filter old)
  · rw [List.mem_singleton.mp new]
    exact Or.inr ⟨rfl, rfl⟩

theorem reparent_subset {id : String} {given : Option String} {edges : List EdgeRow}
    (none : truthy given = none) : ∀ edge ∈ reparent env id given edges, edge ∈ edges := by
  intro edge member
  unfold reparent at member
  simp only [none] at member
  exact List.mem_of_mem_filter member

/-- Moving a resource keeps the graph acyclic exactly when the new parent is not at or
below it. -/
theorem acyclic_reparent_iff {id : String} {given : Option String} (acyclic : store.Acyclic) :
    Library.Acyclic (IsChild (reparent env id given store.edges)) ↔
      ∀ hostId, truthy given = some hostId → ¬ IsAbove store hostId id := by
  cases parent : truthy given with
  | none =>
      simp only [reduceCtorEq, false_implies, implies_true, iff_true]
      exact Library.Acyclic.mono acyclic (isChild_mono (reparent_subset parent))
  | some hostId =>
      simp only [Option.some.injEq, forall_eq']
      constructor
      · intro later below
        -- a path that leaves the resource does not come back to it
        have kept : ReflTransGen (IsChild (reparent env id given store.edges)) id hostId := by
          have walk : ∀ {finish}, ReflTransGen (IsChild store.edges) id finish →
              ReflTransGen (IsChild (reparent env id given store.edges)) id finish := by
            intro finish path
            induction path with
            | refl => exact .refl
            | @tail middle finish before last ih =>
                refine ih.tail ?_
                obtain ⟨edge, member, parentEq, childEq⟩ := last
                have away : edge.childId ≠ id := fun same =>
                  acyclic id (TransGen.tail' before ⟨edge, member, parentEq, same⟩)
                refine ⟨edge, ?_, parentEq, childEq⟩
                unfold reparent
                simp only [parent]
                exact List.mem_append_left _ (List.mem_filter.mpr ⟨member, by simp [away]⟩)
          exact walk below
        refine later hostId (TransGen.head' ⟨⟨env.uuid 0, hostId, id, "hosts", none⟩, ?_, rfl, rfl⟩
          kept)
        unfold reparent
        simp only [parent]
        exact List.mem_append_right _ (List.mem_singleton_self _)
      · intro notBelow
        exact Library.Acyclic.insert acyclic notBelow (isChild_of_adds (reparent_adds parent))

theorem acyclic_putResource {templates : List TemplateRow} {id : String} {body : ResourceBody}
    {later : Store} (acyclic : store.Acyclic)
    (put : putResource env templates id body store = .ok later)
    (notBelow : ∀ hostId, truthy body.hostId = some hostId → ¬ IsAbove store hostId id) :
    later.Acyclic := by
  unfold Store.Acyclic
  rcases edges_putResource put with same | moved
  · rw [same]
    exact acyclic
  · rw [moved]
    exact (acyclic_reparent_iff acyclic).mpr notBelow

/-! ## Reconciling -/

/-- No slug of these belongs to a row with such an id. -/
def NoneNamed (spared : String → Prop) (slugs : List (Option String)) (resources : List Resource) :
    Prop :=
  ∀ row ∈ resources, spared row.id → some row.slug ∉ slugs

/-- A slug that names no spared row stands for none. -/
theorem not_spared_of_resolveSlug {spared : String → Prop} {start run : Run}
    {slugs : List (Option String)} {slug : Option String} {id : String}
    (noneNamed : NoneNamed spared slugs start.store.resources) (kept : Spared spared start run)
    (member : slug ∈ slugs) (resolved : resolveSlug run slug = some id) : ¬ spared id := by
  rcases resolveSlug_cases resolved with ⟨item, reported, -, rfl⟩ | ⟨row, inTable, slugEq, rfl⟩
  · exact kept.notReported item reported
  · intro isSpared
    exact noneNamed row ((kept.iff row isSpared).mp inTable) isSpared (slugEq ▸ member)

/-- Linking keeps the graph acyclic when no child it links is at or above the site. -/
theorem acyclic_linkAll {context : Context} {start run : Run} {payload : Payload}
    {above : String → Prop} (acyclic : run.store.Acyclic)
    (closed : UpClosed above (IsChild run.store.edges))
    (site : ∀ siteId, context.incomingSiteId = some siteId → above siteId)
    (noneNamed : NoneNamed above (payload.edges.map (·.childSlug)) start.store.resources)
    (kept : Spared above start run) :
    Library.Acyclic (IsChild (linkAll context payload run).edges) := by
  refine (@linkAll_invariant context run (fun linking =>
    Library.Acyclic (IsChild linking.edges) ∧ UpClosed above (IsChild linking.edges)) payload
    ⟨acyclic, closed⟩ ?_ ?_).1
  · rintro linking edge member ⟨acyclic, closed⟩
    rcases linkEdge_cases context run linking edge with same | ⟨parentId, childId, linked⟩
    · rw [same]
      exact ⟨acyclic, closed⟩
    · have outside : ¬ above childId := not_spared_of_resolveSlug noneNamed kept
        (List.mem_map_of_mem member) linked.child
      have adds : ∀ start finish, IsChild (linkEdge context run linking edge).edges start finish →
          IsChild linking.edges start finish ∨ start = parentId ∧ finish = childId :=
        isChild_of_adds fun row member =>
          (linked.adds row member).imp_right fun new => ⟨new.1, new.2.1⟩
      refine ⟨Library.Acyclic.insert acyclic linked.notBelow adds, closed.insert ?_⟩
      intro start finish step
      exact (adds start finish step).imp_right
        fun (new : start = parentId ∧ finish = childId) => new.2 ▸ outside
  · rintro siteId known linking item reported ⟨acyclic, closed⟩
    rcases fileUnderSite_cases context siteId linking item with ⟨same, -⟩ | ⟨-, adds, -⟩
    · rw [same]
      exact ⟨acyclic, closed⟩
    · have outside := kept.notReported item reported
      have added : ∀ start finish,
          IsChild (fileUnderSite context siteId linking item).edges start finish →
          IsChild linking.edges start finish ∨ start = siteId ∧ finish = item.actualId :=
        isChild_of_adds fun row member =>
          (adds row member).imp_right fun new => ⟨new.1, new.2.1⟩
      refine ⟨Library.Acyclic.insert_below acyclic closed ?_, closed.insert ?_⟩
      · intro start finish step
        exact (added start finish step).imp_right
          fun (new : start = siteId ∧ finish = item.actualId) =>
            ⟨new.1 ▸ site siteId known, new.2 ▸ outside⟩
      · intro start finish step
        exact (added start finish step).imp_right
          fun (new : start = siteId ∧ finish = item.actualId) => new.2 ▸ outside

/-- No resource of the payload can be taken for a row at or above the site it is filed
under, and none of its edges names one as a child. -/
def ReportsBelow (env : Env) (cache : TemplateCache) (payload : Payload) (options : Options)
    (store : Store) : Prop :=
  ∀ site later, resolveTarget env options store = (.site (some site), later) →
    Avoids cache (IsAbove store site.id) (payload.resources.map (promote options))
      later.resources ∧
    NoneNamed (IsAbove store site.id) (payload.edges.map (·.childSlug)) later.resources

theorem acyclic_reconcile {cache : TemplateCache} {sourceName : String} {payload : Payload}
    {options : Options} (acyclic : store.Acyclic) (fresh : env.Fresh store)
    (below : ReportsBelow env cache payload options store) :
    (reconcile env cache sourceName payload options store).1.Acyclic := by
  unfold reconcile
  split
  · rename_i later refused
    rw [eq_of_refused refused]
    exact acyclic
  · rename_i site later found
    have located := located_resolveTarget found
    dsimp only
    generalize contextEq : (⟨env, cache, sourceName, site.map (·.id)⟩ : Context) = context
    generalize startEq : (⟨later, siteMap later, [], 2⟩ : Run) = start
    have startStore : start.store = later := by rw [← startEq]
    have kept := kept_placeAll context (payload.resources.map (promote options)) start
    have edges : (placeAll context (payload.resources.map (promote options)) start).1.store.edges =
        store.edges := by rw [kept.edges, startStore, located.edges]
    -- without a site nothing is filed
    let above : String → Prop := fun id => ∃ row, site = some row ∧ IsAbove store row.id id
    have spared : Spared above start
        (placeAll context (payload.resources.map (promote options)) start).1 := by
      refine spared_placeAll ⟨?_, ?_⟩ ?_ (by rw [← startEq]) (by rw [← startEq])
      · rintro row member ⟨siteRow, siteEq, isAbove⟩
        subst siteEq
        rw [startStore] at member
        have avoids := (below siteRow later found).1
        rw [← contextEq]
        exact avoids.notMatched row member isAbove
      · rintro item member id named ⟨siteRow, siteEq, isAbove⟩
        subst siteEq
        exact (below siteRow later found).1.notNamed item member id named isAbove
      · rintro draw drawn ⟨siteRow, siteEq, isAbove⟩
        rw [← contextEq] at isAbove
        refine fresh.not_isAbove ?_ isAbove
        intro same
        rcases located.adds siteRow (located.isSite siteRow siteEq).1 with
          old | ⟨-, -, early, isEarly, idEq⟩
        · exact fresh.notId draw siteRow old same.symm
        · have := fresh.distinct draw early (same.trans idEq)
          omega
    have linked : Library.Acyclic (IsChild (linkAll context payload
        (placeAll context (payload.resources.map (promote options)) start).1).edges) := by
      refine @acyclic_linkAll context start _ payload above ?_ ?_ ?_ ?_ spared
      · unfold Store.Acyclic
        rw [edges]
        exact acyclic
      · rw [edges]
        rintro parent child step ⟨row, siteEq, isAbove⟩
        exact ⟨row, siteEq, .head step isAbove⟩
      · intro siteId known
        rw [← contextEq] at known
        obtain ⟨row, siteEq, rfl⟩ := Option.map_eq_some_iff.mp known
        exact ⟨row, siteEq, .refl⟩
      · rintro row member ⟨siteRow, siteEq, isAbove⟩
        subst siteEq
        rw [startStore] at member
        exact (below siteRow later found).2 row member isAbove
    split
    · rename_i run error ran
      have runEq : (placeAll context (payload.resources.map (promote options)) start).1 = run := by
        rw [ran]
      unfold Store.Acyclic
      rw [← runEq, edges]
      exact acyclic
    · rename_i run ran
      have runEq : (placeAll context (payload.resources.map (promote options)) start).1 = run := by
        rw [ran]
      rw [runEq] at linked
      exact linked.mono (isChild_mono settle_edges_subset)

/-! ## Adopting a host -/

/-- The real host is a stored host other than the placeholder. -/
theorem mem_of_findRealHost {placeholder realHost : Resource} {discovery : AgentDiscovery}
    (found : findRealHost store placeholder discovery = some realHost) :
    realHost ∈ store.resources.filter fun row => row.kind == "host" && row.id != placeholder.id := by
  simp only [findRealHost, Option.or_eq_some_iff] at found
  rcases found with byMac | ⟨-, byIp | ⟨-, byName⟩⟩
  · unfold matchByMac at byMac
    split at byMac
    · cases byMac
    · exact List.mem_of_find?_eq_some byMac
  · unfold matchByIp at byIp
    split at byIp
    · cases byIp
    · exact List.mem_of_find?_eq_some byIp
  · split at byName
    · exact List.mem_of_find?_eq_some byName
    · cases byName

/-- A missing agent service is a fresh row under the host. -/
theorem ensureAgentService_edges {host service : Resource} {later : Store}
    (ensured : ensureAgentService env store host = .ok (service, later)) :
    ∀ edge ∈ later.edges, edge ∈ store.edges ∨
      edge.parentId = host.id ∧ edge.childId = env.uuid 0 := by
  unfold ensureAgentService at ensured
  split at ensured
  · cases ensured
    exact fun edge member => Or.inl member
  · simp only [bind, Except.bind] at ensured
    split at ensured
    · cases ensured
    · rename_i created
      obtain ⟨rowEq, storeEq, -⟩ := Store.create_ok created
      cases ensured
      intro edge member
      rcases List.mem_append.mp member with old | new
      · rw [storeEq] at old
        exact Or.inl old
      · rw [List.mem_singleton.mp new]
        refine Or.inr ⟨rfl, ?_⟩
        dsimp only
        rw [rowEq, Store.rowOf_id]

theorem moveChildren_cases {placeholderId realId : String} {oldServiceId : Option String}
    {edges : List EdgeRow} {edge : EdgeRow}
    (member : edge ∈ moveChildren placeholderId realId oldServiceId edges) :
    edge.childId ≠ placeholderId ∧ (edge ∈ edges ∧ edge.parentId ≠ placeholderId ∨
      edge.parentId = realId ∧ ∃ old ∈ edges, old.parentId = placeholderId ∧
        old.childId = edge.childId ∧ oldServiceId ≠ some edge.childId) := by
  unfold moveChildren at member
  obtain ⟨moved, notChild⟩ := List.mem_filter.mp member
  refine ⟨of_decide_eq_true notChild, ?_⟩
  obtain ⟨old, oldMember, result⟩ := List.mem_filterMap.mp moved
  split at result
  · rename_i under
    split at result
    · cases result
    · rename_i notService
      cases result
      exact Or.inr ⟨rfl, old, oldMember, under, rfl, notService⟩
  · rename_i apart
    cases result
    exact Or.inl ⟨oldMember, apart⟩

/-- No child of the placeholder is at or above the host that adopts it. -/
def MovesBelow (resourceId : Option String) (discovery : AgentDiscovery) (store : Store) : Prop :=
  ∀ placeholder realHost, hostForAgent store resourceId = some placeholder →
    findRealHost store placeholder discovery = some realHost →
    ∀ edge ∈ store.edges, edge.parentId = placeholder.id →
      ((truthy resourceId).bind store.find).map (·.id) ≠ some edge.childId →
      ¬ IsAbove store realHost.id edge.childId

/-- The edges after a host is adopted are old or lead from the real host to rows that
are not at or above it. -/
theorem acyclic_adoptHost {placeholder realHost : Resource} {resourceId : Option String}
    {serviceId : String} {later : Store} (acyclic : store.Acyclic) (fresh : env.Fresh store)
    (known : realHost ∈ store.resources)
    (below : ∀ edge ∈ store.edges, edge.parentId = placeholder.id →
      ((truthy resourceId).bind store.find).map (·.id) ≠ some edge.childId →
      ¬ IsAbove store realHost.id edge.childId)
    (adopted : adoptHost env store placeholder realHost resourceId = .ok (serviceId, later)) :
    later.Acyclic := by
  unfold adoptHost at adopted
  simp only [bind, Except.bind] at adopted
  split at adopted
  · cases adopted
  · rename_i ensured
    have edgesOf := ensureAgentService_edges ensured
    cases adopted
    have freshBelow : ¬ IsAbove store realHost.id (env.uuid 0) :=
      fresh.not_isAbove fun same => fresh.notId 0 realHost known same.symm
    refine Library.Acyclic.insert_below acyclic (upClosed_ancestors _ realHost.id) ?_
    rintro start finish ⟨edge, member, rfl, rfl⟩
    rcases (moveChildren_cases member).2 with ⟨before, -⟩ |
      ⟨parentEq, old, oldMember, under, childEq, moved⟩
    · rcases edgesOf edge before with old | ⟨parentEq, childEq⟩
      · exact Or.inl ⟨edge, old, rfl, rfl⟩
      · exact Or.inr ⟨parentEq ▸ .refl, childEq ▸ freshBelow⟩
    · refine Or.inr ⟨parentEq ▸ .refl, ?_⟩
      rcases edgesOf old oldMember with before | ⟨-, oldChildEq⟩
      · rw [← childEq] at moved ⊢
        exact below old before under moved
      · rw [← childEq, oldChildEq]
        exact freshBelow

theorem acyclic_applyDiscovery {resourceId : Option String} {discovery : AgentDiscovery}
    (acyclic : store.Acyclic) (fresh : env.Fresh store)
    (below : MovesBelow resourceId discovery store) :
    (applyDiscovery env resourceId discovery store).Acyclic := by
  unfold applyDiscovery
  split
  · exact acyclic
  · rename_i placeholder bound
    dsimp only
    split
    · exact acyclic
    · rename_i host serviceId later adopted
      have laterAcyclic : later.Acyclic := by
        cases found : findRealHost store placeholder discovery with
        | none =>
            rw [found] at adopted
            cases adopted
            exact acyclic
        | some realHost =>
            rw [found] at adopted
            simp only [bind, Except.bind] at adopted
            split at adopted
            · cases adopted
            · rename_i done
              cases adopted
              exact acyclic_adoptHost acyclic fresh
                (List.mem_of_mem_filter (mem_of_findRealHost found))
                (below placeholder _ bound found) done
      exact laterAcyclic

/-! ## Runs of operations -/

/-- The operations that write edges, with what each draws on. -/
inductive Operation where
  | postEdge (env : Env) (body : EdgeBody)
  | putResource (env : Env) (templates : List TemplateRow) (id : String) (body : ResourceBody)
  | reconcile (env : Env) (cache : TemplateCache) (sourceName : String) (payload : Payload)
      (options : Options)
  | applyDiscovery (env : Env) (resourceId : Option String) (discovery : AgentDiscovery)

namespace Operation

/-- The catalogue after an operation; a refused request leaves it as it was. -/
def apply : Operation → Store → Store
  | .postEdge env body, store => (Discovery.postEdge env body store).toOption.getD store
  | .putResource env templates id body, store =>
      (Discovery.putResource env templates id body store).toOption.getD store
  | .reconcile env cache sourceName payload options, store =>
      (Discovery.reconcile env cache sourceName payload options store).1
  | .applyDiscovery env resourceId discovery, store =>
      Discovery.applyDiscovery env resourceId discovery store

/-- What the operation moves is not at or above its new parent. -/
def MovesDown : Operation → Store → Prop
  | .postEdge _ _, _ => True
  | .putResource _ _ id body, store =>
      ∀ hostId, truthy body.hostId = some hostId → ¬ IsAbove store hostId id
  | .reconcile env cache _ payload options, store =>
      env.Fresh store ∧ ReportsBelow env cache payload options store
  | .applyDiscovery env resourceId discovery, store =>
      env.Fresh store ∧ MovesBelow resourceId discovery store

/-- Step lemma: an operation that moves nothing up keeps the graph acyclic. -/
theorem acyclic_apply {operation : Operation} (acyclic : store.Acyclic)
    (down : operation.MovesDown store) : (operation.apply store).Acyclic := by
  cases operation with
  | postEdge env body =>
      cases posted : Discovery.postEdge env body store with
      | error refusal => rwa [apply, posted]
      | ok later =>
          rw [apply, posted]
          exact acyclic_postEdge acyclic posted
  | putResource env templates id body =>
      cases put : Discovery.putResource env templates id body store with
      | error refusal => rwa [apply, put]
      | ok later =>
          rw [apply, put]
          exact acyclic_putResource acyclic put down
  | reconcile env cache sourceName payload options =>
      exact acyclic_reconcile acyclic down.1 down.2
  | applyDiscovery env resourceId discovery =>
      exact acyclic_applyDiscovery acyclic down.1 down.2

/-- The catalogues a run goes through. -/
def trace : List Operation → Store → List Store
  | [], store => [store]
  | operation :: operations, store => store :: trace operations (operation.apply store)

/-- Every operation of the run moves nothing up in the catalogue it finds. -/
def RunMovesDown : List Operation → Store → Prop
  | [], _ => True
  | operation :: operations, store =>
      operation.MovesDown store ∧ RunMovesDown operations (operation.apply store)

/-- Run lemma: the graph is acyclic in every catalogue such a run goes through. -/
theorem acyclic_of_runMovesDown {operations : List Operation} (acyclic : store.Acyclic)
    (down : RunMovesDown operations store) : ∀ reached ∈ trace operations store,
      reached.Acyclic := by
  induction operations generalizing store with
  | nil =>
      intro reached member
      rw [List.mem_singleton.mp member]
      exact acyclic
  | cons operation operations ih =>
      intro reached member
      rcases List.mem_cons.mp member with rfl | later
      · exact acyclic
      · exact ih (acyclic_apply acyclic down.1) down.2 reached later

/-! ### A site with a rack and a guest -/

private def rackRow (id kind : String) : Resource := ⟨id, kind, id, id, none, none, ∅⟩

private def siteWithRack : Store where
  resources := [rackRow "site" "site", rackRow "rack" "host", rackRow "guest" "host"]
  edges := [⟨"e1", "site", "rack", "hosts", none⟩, ⟨"e2", "rack", "guest", "hosts", none⟩]
  groups := []

private def counting : Env where
  now := 0
  uuid := fun draw => String.ofList (List.replicate draw 'x')
  hex := fun _ => "0"

private def webItem : Item := ⟨none, some "service", some "web", some "web", none, ∅⟩

/-- A report of a service under the rack. -/
private def webPayload : Payload := ⟨[webItem], [⟨some "rack", some "web", some "hosts"⟩]⟩

private theorem counting_fresh {store : Store}
    (notId : ∀ row ∈ store.resources, row.id.toList.all (· == 'x') = false)
    (notEnd : ∀ edge ∈ store.edges, edge.parentId.toList.all (· == 'x') = false ∧
      edge.childId.toList.all (· == 'x') = false) : counting.Fresh store := by
  have drawn : ∀ {id : String} {draw}, id = counting.uuid draw →
      id.toList.all (· == 'x') = true := by
    rintro _ draw rfl
    simp [counting]
  refine ⟨?_, ?_, ?_⟩
  · intro first second same
    simpa [counting] using congrArg String.length same
  · intro draw row member same
    exact Bool.false_ne_true ((notId row member).symm.trans (drawn same))
  · intro draw edge member
    exact ⟨fun same => Bool.false_ne_true ((notEnd edge member).1.symm.trans (drawn same)),
      fun same => Bool.false_ne_true ((notEnd edge member).2.symm.trans (drawn same))⟩

/-- The guest moves up to the site, and the rack reports a service. -/
theorem acyclic_guest_moved : List.Forall Store.Acyclic (trace
    [.putResource counting [] "guest" { kind := some "host", hostId := some "site" },
      .reconcile counting none "docker" webPayload {}] siteWithRack) := by
  refine List.forall_iff_forall_mem.mpr
    (acyclic_of_runMovesDown (by decide +kernel) ⟨?_, ⟨?_, ?_⟩, trivial⟩)
  · intro hostId given
    cases given
    decide +kernel
  · exact counting_fresh (by decide +kernel) (by decide +kernel)
  · intro site later found
    cases found
    refine ⟨⟨?_, ?_⟩, ?_⟩
    · unfold CouldMatch Shares
      decide +kernel
    · intro item member id given
      rw [List.mem_singleton.mp member] at given
      cases given
    · unfold NoneNamed
      decide +kernel

/-- A parent moved under its own child closes a cycle; so does a report that puts a new
row above the site it is then filed under. -/
theorem not_acyclic_apply :
    (¬ ∀ env templates id body, ∀ store : Store, store.Acyclic →
      ((putResource env templates id body).apply store).Acyclic) ∧
    ¬ ∀ env cache sourceName payload options, ∀ store : Store, store.Acyclic →
      ((reconcile env cache sourceName payload options).apply store).Acyclic := by
  constructor
  · intro always
    have moved := always counting [] "rack" { kind := some "host", hostId := some "guest" }
      siteWithRack (by decide +kernel)
    revert moved
    decide +kernel
  · intro always
    have reported := always counting none "docker"
      ⟨[webItem], [⟨some "web", some "site", some "hosts"⟩]⟩ {} siteWithRack (by decide +kernel)
    revert reported
    decide +kernel

end Operation

end ThetaDirectory.Discovery
