import ThetaDirectory.Discovery.AgentReferential
import ThetaDirectory.Discovery.Retention
import ThetaDirectory.Replication.Resumption

/-!
# Referential integrity over runs

The operations that create and delete rows, and what each needs for edges and group links
to keep naming stored rows.
-/

namespace ThetaDirectory.Replication

open Catalog Discovery Library Store

variable {env : Env} {exportData : Export} {store : Store}

/-! ## Importing -/

theorem localIdFor_spec {rows : List Resource} {masterId id : String}
    (found : localIdFor exportData rows masterId = some id) :
    ∃ row ∈ rows, isDesired exportData row = true ∧ row.id = id := by
  unfold localIdFor at found
  simp only [bind, pure, Option.bind_eq_some_iff] at found
  obtain ⟨incoming, exported, row, isRow, idEq⟩ := found
  have same : row.slug = incoming.slug := by simpa using List.find?_some isRow
  exact ⟨row, List.mem_of_find?_eq_some isRow, isDesired_iff.mpr ⟨incoming,
    List.mem_of_find?_eq_some exported, same.symm⟩, Option.some.inj idEq⟩

theorem mem_setDesired {desired : List DesiredEdge} {edge other : DesiredEdge}
    (member : other ∈ setDesired desired edge) : other ∈ desired ∨ other = edge := by
  unfold setDesired at member
  split at member
  · obtain ⟨old, inDesired, rfl⟩ := List.mem_map.mp member
    split
    · exact Or.inr rfl
    · exact Or.inl inDesired
  · simpa using member

theorem mem_desiredEdges {rows : List Resource} {desired : DesiredEdge}
    (member : desired ∈ desiredEdges exportData rows) :
    ∃ edge ∈ exportData.edges, localEdge exportData rows edge = some desired := by
  unfold desiredEdges at member
  rw [← List.mem_filterMap]
  generalize exportData.edges.filterMap (localEdge exportData rows) = edges at member ⊢
  induction edges using List.reverseRecOn with
  | nil => exact member
  | append_singleton edges edge ih =>
      rw [List.foldl_append, List.foldl_cons, List.foldl_nil] at member
      rcases mem_setDesired member with old | rfl
      · exact List.mem_append_left _ (ih old)
      · exact List.mem_append_right _ (List.mem_singleton_self _)

/-- The ends of a desired edge are rows the master has. -/
theorem desired_ends {rows : List Resource} {desired : DesiredEdge}
    (member : desired ∈ desiredEdges exportData rows) :
    ∀ id ∈ [desired.parentId, desired.childId],
      ∃ row ∈ rows, isDesired exportData row = true ∧ row.id = id := by
  obtain ⟨edge, -, isLocal⟩ := mem_desiredEdges member
  unfold localEdge at isLocal
  simp only [bind, pure, Option.bind_eq_some_iff] at isLocal
  obtain ⟨_, -, parentId, parent, _, -, childId, child, isLocal⟩ := isLocal
  obtain ⟨_, isParent, _, isChild, same⟩ := isLocal
  obtain rfl := Option.some.inj same
  have unchanged : ∀ {id text : String}, truthy (some id) = some text → text = id := by
    intro id text isText
    unfold truthy at isText
    rw [Option.filter_some] at isText
    split at isText
    · exact (Option.some.inj isText).symm
    · contradiction
  simp only [List.mem_cons, List.not_mem_nil, or_false, forall_eq_or_imp, forall_eq,
    unchanged isParent, unchanged isChild]
  exact ⟨localIdFor_spec parent, localIdFor_spec child⟩

/-- What the master governs before its rows are imported it governs after. -/
theorem governs_rowsImported (keyed : store.Keyed) {id : String}
    (governed : governs exportData store.resources id = true) :
    governs exportData (rowsImported env exportData store).resources id = true := by
  rw [governs_iff] at governed ⊢
  obtain ⟨row, member, idEq, governed⟩ := governed
  obtain ⟨later, imported, sameId, rfl | ⟨incoming, exported, -, rfl⟩⟩ :=
    @exists_rowsImported env exportData store keyed row member
  · exact ⟨later, imported, idEq, governed⟩
  · exact ⟨_, imported, sameId.trans idEq, Or.inl
      (isDesired_iff.mpr ⟨incoming, exported, (mergedRow_slug _ _ _).symm⟩)⟩

/-- No group is bound to a row the import deletes, and every edge there lies between rows the
master governs and means none of the exported edges. -/
def DropsUnnamed (env : Env) (exportData : Export) (store : Store) : Prop :=
  ∀ row ∈ store.resources, isDesired exportData row = false → isReplicated row = true →
    store.Unlinked row.id ∧
      ∀ edge ∈ store.edges, row.id = edge.parentId ∨ row.id = edge.childId →
        governs exportData store.resources edge.parentId = true ∧
        governs exportData store.resources edge.childId = true ∧
        ∀ desired ∈ desiredEdges exportData (rowsImported env exportData store).resources,
          desired.key ≠ keyOf edge

theorem referential_importDirectory (keyed : store.Keyed) (referential : store.Referential)
    (unnamed : DropsUnnamed env exportData store) :
    (importDirectory env exportData store).Referential := by
  have done := @rowsDone_import env exportData store keyed
  have groups : (importDirectory env exportData store).groups = store.groups := by
    rw [importDirectory_eq]
    exact done.groups
  apply referential.of_kept fun id => ∃ row ∈ store.resources,
    isDesired exportData row = false ∧ isReplicated row = true ∧ row.id = id
  · rintro id ⟨row, member, rfl⟩ stays
    apply exists_importDirectory keyed member
    by_contra goes
    simp only [not_or, Bool.not_eq_true, Bool.not_eq_false] at goes
    exact stays ⟨row, member, goes.2, goes.1, rfl⟩
  · intro edge member
    obtain ⟨old | added, stays⟩ := (mem_edges_importDirectory keyed).mp member
    · have apart : ∀ row ∈ store.resources, isDesired exportData row = false →
          isReplicated row = true → ¬ (row.id = edge.parentId ∨ row.id = edge.childId) := by
        intro row inTable notDesired stamped atRow
        obtain ⟨parent, child, keys⟩ := (unnamed row inTable notDesired stamped).2 edge old atRow
        exact stays (mem_removedEdges.mpr ⟨done.edges ▸ old, keys,
          governs_rowsImported keyed parent, governs_rowsImported keyed child⟩)
      refine Or.inl ⟨old, ?_, ?_⟩
      · rintro ⟨row, inTable, notDesired, stamped, same⟩
        exact apart row inTable notDesired stamped (Or.inl same)
      · rintro ⟨row, inTable, notDesired, stamped, same⟩
        exact apart row inTable notDesired stamped (Or.inr same)
    · obtain ⟨desired, missing, sameTriple⟩ := exists_addedEdges_iff.mp ⟨edge, added, rfl⟩
      simp only [DesiredEdge.triple, tripleOf, Prod.mk.injEq] at sameTriple
      have has : ∀ id ∈ [desired.parentId, desired.childId],
          (importDirectory env exportData store).Has id := by
        intro id isEnd
        obtain ⟨row, imported, isDesired, idEq⟩ := desired_ends missing.1 id isEnd
        exact ⟨row, (mem_importDirectory keyed).mpr ⟨imported, Or.inl isDesired⟩, idEq⟩
      exact Or.inr ⟨sameTriple.1 ▸ has _ (by simp), sameTriple.2.1 ▸ has _ (by simp)⟩
  · rintro link member
    rw [groups] at member
    refine ⟨member, ?_⟩
    rintro ⟨row, inTable, notDesired, stamped, same⟩
    exact (unnamed row inTable notDesired stamped).1 link member same.symm

/-! ## Runs of operations -/

/-- The operations that create or delete resources, with what each draws on. -/
inductive Operation where
  | postResource (env : Env) (templates : List TemplateRow) (uid : String) (body : CreateBody)
  | deleteResource (id : String)
  | mergeDiscovered (discoveredId targetId : Option String)
  | reconcile (env : Env) (cache : TemplateCache) (sourceName : String) (payload : Payload)
      (options : Options)
  | forgetSource (sourceName : String) (keepPromoted : Bool)
  | garbageCollect (now staleMs purgeMs : Int)
  | applyDiscovery (env : Env) (resourceId : Option String) (discovery : AgentDiscovery)
  | reportServices (env : Env) (resourceId : Option String) (services : List AgentService)
      (prune : Bool)
  | unregisterService (resourceId service : Option String)
  | importDirectory (env : Env) (exportData : Export)

namespace Operation

/-- The catalogue after an operation; a refused one leaves it as it was. -/
def apply : Operation → Store → Store
  | .postResource env templates uid body, store =>
      (Discovery.postResource env templates uid body store).toOption.getD store
  | .deleteResource id, store => (Discovery.deleteResource id store).toOption.getD store
  | .mergeDiscovered discoveredId targetId, store =>
      (Discovery.mergeDiscovered discoveredId targetId store).toOption.getD store
  | .reconcile env cache sourceName payload options, store =>
      (Discovery.reconcile env cache sourceName payload options store).1
  | .forgetSource sourceName keepPromoted, store =>
      Discovery.forgetSource sourceName keepPromoted store
  | .garbageCollect now staleMs purgeMs, store =>
      Discovery.garbageCollect now staleMs purgeMs store
  | .applyDiscovery env resourceId discovery, store =>
      Discovery.applyDiscovery env resourceId discovery store
  | .reportServices env resourceId services prune, store =>
      reconcileServicesFromTelemetry env resourceId services prune store
  | .unregisterService resourceId service, store =>
      (handleServiceUnregistration resourceId service store).toOption.getD store
  | .importDirectory env exportData, store => Replication.importDirectory env exportData store

/-- Nothing names a missing parent or, but for what the operation itself removes, a row it
deletes. -/
def LeavesNamed : Operation → Store → Prop
  | .postResource _ _ _ body, store => NamesParent body store
  | .mergeDiscovered discoveredId targetId, store => MergesUnnamed discoveredId targetId store
  | .applyDiscovery _ resourceId discovery, store => AdoptsUnnamed resourceId discovery store
  | .reportServices env resourceId services prune, store =>
      prune = true → PrunesUnlinked env resourceId services store
  | .unregisterService resourceId service, store => UnregistersUnnamed resourceId service store
  | .importDirectory env exportData, store => DropsUnnamed env exportData store
  | .deleteResource _, _ | .reconcile .., _ | .forgetSource .., _ | .garbageCollect .., _ => True

/-- A request keeps what it keeps when it is accepted. -/
theorem keeps_getD {ε : Type*} {result : Except ε Store}
    (keyed : store.Keyed) (referential : store.Referential)
    (accepted : ∀ later, result = .ok later → later.Keyed ∧ later.Referential) :
    (result.toOption.getD store).Keyed ∧ (result.toOption.getD store).Referential := by
  cases result with
  | error refusal => exact ⟨keyed, referential⟩
  | ok later => exact accepted later rfl

/-- Step lemma. -/
theorem referential_apply {operation : Operation} {store : Store} (keyed : store.Keyed)
    (referential : store.Referential) (leaves : operation.LeavesNamed store) :
    (operation.apply store).Keyed ∧ (operation.apply store).Referential := by
  cases operation with
  | postResource env templates uid body =>
      apply keeps_getD keyed referential
      exact fun later posted => referential_postResource keyed referential leaves posted
  | deleteResource id =>
      apply keeps_getD keyed referential
      exact fun later deleted => referential_deleteResource keyed referential deleted
  | mergeDiscovered discoveredId targetId =>
      apply keeps_getD keyed referential
      exact fun later merged => referential_mergeDiscovered keyed referential leaves merged
  | reconcile env cache sourceName payload options =>
      exact ⟨keyed_reconcile keyed, referential_reconcile referential⟩
  | forgetSource sourceName keepPromoted =>
      exact ⟨keyed_forgetSource keyed, referential_forgetSource referential⟩
  | garbageCollect now staleMs purgeMs =>
      exact ⟨keyed_garbageCollect keyed, referential_garbageCollect referential⟩
  | applyDiscovery env resourceId discovery =>
      exact referential_applyDiscovery keyed referential leaves
  | reportServices env resourceId services prune =>
      exact referential_services keyed referential leaves
  | unregisterService resourceId service =>
      apply keeps_getD keyed referential
      exact fun later unregistered => referential_unregister keyed referential leaves unregistered
  | importDirectory env exportData =>
      exact ⟨keyed_importDirectory keyed, referential_importDirectory keyed referential leaves⟩

/-- Run lemma: every catalogue of a run keeps integrity, if no operation leaves a name of a
row that is missing or goes. -/
theorem referential_run (operations : List Operation) (store : Store) (keyed : store.Keyed)
    (referential : store.Referential)
    (leaves : ∀ step ∈ Runs.steps apply operations store, step.operation.LeavesNamed step.before) :
    ∀ step ∈ Runs.steps apply operations store,
      step.before.Referential ∧ step.after.Referential := by
  have every := @Runs.forall_steps _ _ apply operations store
    (fun store => store.Keyed ∧ store.Referential)
    (fun operation store => operation.LeavesNamed store) (fun _ => True) ⟨keyed, referential⟩ leaves
    (fun _ _ inv leaves => ⟨referential_apply inv.1 inv.2 leaves, trivial⟩)
  exact fun step member => ⟨(every step member).1.2, (every step member).2.1.2⟩

/-! ### A site with a web host -/

private def drawEnv : Env := ⟨1000, fun draw => String.ofList (List.replicate draw 'x'), fun _ => "0"⟩

private def plainRow (id kind : String) (metadata : Metadata) : Resource :=
  ⟨id, kind, id, id, none, none, metadata⟩

/-- A site with a host, and the same host as a scan found it. -/
private def scannedSite : Store where
  resources := [plainRow "site" "site" ∅, plainRow "web" "host" ∅, plainRow "scan" "host" ∅]
  edges := [⟨"e1", "site", "web", "hosts", none⟩]
  groups := [⟨"web", "site_host_web_access", "member"⟩]

/-- A request adds a host, the scanned one is merged into the web host, and that is deleted. -/
private def cleanRun : List Operation :=
  [.postResource drawEnv [] "root"
      { kind := some "host", name := some "db", slug := some "db", hostId := some "site" },
    .mergeDiscovered (some "scan") (some "web"), .deleteResource "web"]

theorem referential_run_web : List.Forall
    (fun step : Runs.Step Operation Store => step.before.Referential ∧ step.after.Referential)
    (Runs.steps apply cleanRun scannedSite) := by
  refine List.forall_iff_forall_mem.mpr
    (referential_run _ _ ⟨by decide, by decide⟩ (by decide +kernel) ?_)
  simp only [cleanRun, Runs.steps, List.forall_mem_cons]
  refine ⟨?_, ?_, trivial, by simp⟩
  · intro hostId named
    obtain rfl : "site" = hostId := Option.some.inj named
    decide +kernel
  · intro discovered target isDiscovered _
    obtain ⟨-, -, idEq⟩ := has_find isDiscovered
    rw [idEq]
    unfold Unnamed Unlinked
    decide +kernel

private def agentRow : Resource :=
  plainRow "agent" "service" ((∅ : Metadata).insert "subType" (.str "theta-agent"))

/-- A service the agent on the host registered. -/
private def nginxRow : Resource :=
  plainRow "nginx" "service" (withSources (((∅ : Metadata).insert "serviceName"
    (.str "nginx")).insert "hostId" (.str "host")) ["theta-agent"])

private def macHost (id : String) : Resource :=
  plainRow id "host" ((∅ : Metadata).insert "macAddress" (.str "aa:bb:cc:dd:ee:ff"))

/-- A host with its agent, a service of its and what depends on that. -/
private def agentHost (groups : List Groups.ResourceGroup) : Store where
  resources := [plainRow "host" "host" ∅, macHost "real", agentRow, nginxRow,
    plainRow "vhost" "service" ∅]
  edges := [⟨"e1", "host", "agent", "hosts", none⟩, ⟨"e2", "host", "nginx", "hosts", none⟩,
    ⟨"e3", "nginx", "vhost", "hosts", none⟩]
  groups

/-- A row of the spoke's own under one the master has dropped. -/
private def droppedParent : Store where
  resources := [plainRow "rack" "host" ((∅ : Metadata).insert replicatedFrom (.str "hq")),
    plainRow "node" "host" ∅]
  edges := [⟨"e1", "rack", "node", "hosts", none⟩]
  groups := []

/-- Operations that leave a name of what they delete, or of a parent that never was. -/
private def dangling : List (Operation × Store) :=
  [(.mergeDiscovered (some "web") (some "scan"), scannedSite),
    (.unregisterService (some "agent") (some "nginx"), agentHost []),
    (.reportServices drawEnv (some "agent") [] true,
      agentHost [⟨"nginx", "site_app_nginx_access", "member"⟩]),
    (.applyDiscovery drawEnv (some "agent") ⟨some "real", some "aa:bb:cc:dd:ee:ff", [], ∅⟩,
      agentHost [⟨"host", "site_host_host_access", "member"⟩]),
    (.importDirectory drawEnv (.empty (some "hq")), droppedParent),
    (.postResource drawEnv [] "root"
      { kind := some "host", name := some "db", slug := some "db", hostId := some "none" },
      scannedSite)]

theorem not_referential_run :
    (¬ ∀ (operations : List Operation) (store : Store), store.Keyed → store.Referential →
      ∀ step ∈ Runs.steps apply operations store, step.after.Referential) ∧
    List.Forall (fun failure => failure.2.Referential ∧
      ¬ (failure.1.apply failure.2).Referential) dangling := by
  constructor
  · intro always
    have merged := always [.mergeDiscovered (some "web") (some "scan")] scannedSite
      ⟨by decide, by decide⟩ (by decide +kernel) _ List.mem_cons_self
    revert merged
    decide +kernel
  · decide +kernel

end Operation

end ThetaDirectory.Replication
