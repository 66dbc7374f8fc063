import ThetaDirectory.Discovery.ResourceRoutes
import ThetaDirectory.Discovery.Retention

/-!
# Referential integrity

Edges and group links name stored rows.  What each operation that creates or deletes rows
needs to keep it so.
-/

namespace ThetaDirectory.Discovery

open Library Catalog

namespace Store

/-- A row with this id is stored. -/
def Has (store : Store) (id : String) : Prop := ∃ row ∈ store.resources, row.id = id

/-- Edges and group links name stored rows. -/
structure Referential (store : Store) : Prop where
  parents : ∀ edge ∈ store.edges, store.Has edge.parentId
  children : ∀ edge ∈ store.edges, store.Has edge.childId
  links : ∀ link ∈ store.groups, store.Has link.resourceId

instance (store : Store) (id : String) : Decidable (store.Has id) :=
  inferInstanceAs (Decidable (∃ row ∈ store.resources, row.id = id))

instance (store : Store) : Decidable store.Referential :=
  decidable_of_iff ((∀ edge ∈ store.edges, store.Has edge.parentId) ∧
      (∀ edge ∈ store.edges, store.Has edge.childId) ∧
        ∀ link ∈ store.groups, store.Has link.resourceId)
    ⟨fun named => ⟨named.1, named.2.1, named.2.2⟩,
      fun referential => ⟨referential.parents, referential.children, referential.links⟩⟩

/-- No group is bound to the row. -/
def Unlinked (store : Store) (id : String) : Prop := ∀ link ∈ store.groups, link.resourceId ≠ id

/-- Neither an edge nor a group link names the row. -/
def Unnamed (store : Store) (id : String) : Prop :=
  (∀ edge ∈ store.edges, edge.parentId ≠ id ∧ edge.childId ≠ id) ∧ store.Unlinked id

variable {store later : Store} {id : String}

theorem has_update {change : Resource → Resource} {found : String}
    (sameId : ∀ row, (change row).id = row.id) :
    (store.update id change).Has found ↔ store.Has found := by
  constructor
  · rintro ⟨row, member, idEq⟩
    rcases mem_update_iff.mp member with ⟨old, inTable, -, rfl⟩ | ⟨old, -⟩
    · exact ⟨old, inTable, (sameId old).symm.trans idEq⟩
    · exact ⟨row, old, idEq⟩
  · rintro ⟨row, member, idEq⟩
    by_cases same : row.id = id
    · exact ⟨change row, mem_update_iff.mpr (Or.inl ⟨row, member, same, rfl⟩),
        (sameId row).trans idEq⟩
    · exact ⟨row, mem_update member same, idEq⟩

theorem has_find {row : Resource} (found : store.find id = some row) :
    store.Has id ∧ row ∈ store.resources ∧ row.id = id := by
  have idEq : row.id = id := by simpa using List.find?_some found
  exact ⟨⟨row, List.mem_of_find?_eq_some found, idEq⟩, List.mem_of_find?_eq_some found, idEq⟩

/-- Integrity is kept where nothing that is left names a row that is gone, and what is new
names stored rows. -/
theorem Referential.of_kept (gone : String → Prop) (referential : store.Referential)
    (rows : ∀ id, store.Has id → ¬ gone id → later.Has id)
    (edges : ∀ edge ∈ later.edges,
      (edge ∈ store.edges ∧ ¬ gone edge.parentId ∧ ¬ gone edge.childId) ∨
        (later.Has edge.parentId ∧ later.Has edge.childId))
    (links : ∀ link ∈ later.groups, link ∈ store.groups ∧ ¬ gone link.resourceId) :
    later.Referential where
  parents := by
    intro edge member
    rcases edges edge member with ⟨old, notGone, -⟩ | ⟨has, -⟩
    · exact rows _ (referential.parents edge old) notGone
    · exact has
  children := by
    intro edge member
    rcases edges edge member with ⟨old, -, notGone⟩ | ⟨-, has⟩
    · exact rows _ (referential.children edge old) notGone
    · exact has
  links := by
    intro link member
    obtain ⟨old, notGone⟩ := links link member
    exact rows _ (referential.links link old) notGone

/-- Integrity is kept where no row goes. -/
theorem Referential.of_grown (referential : store.Referential)
    (rows : ∀ id, store.Has id → later.Has id)
    (edges : ∀ edge ∈ later.edges, edge ∈ store.edges ∨
      (later.Has edge.parentId ∧ later.Has edge.childId))
    (links : later.groups = store.groups) : later.Referential := by
  apply referential.of_kept (fun _ => False)
  · exact fun id has _ => rows id has
  · exact fun edge member => (edges edge member).imp_left fun old => ⟨old, id, id⟩
  · exact fun link member => ⟨links ▸ member, id⟩

theorem Referential.update {change : Resource → Resource} (referential : store.Referential)
    (sameId : ∀ row, (change row).id = row.id) : (store.update id change).Referential := by
  apply referential.of_grown
  · exact fun _ has => (has_update sameId).mpr has
  · exact fun edge member => Or.inl member
  · rfl

/-- The rows with the id go, with the given part of the edges. -/
theorem Referential.drop {edges : List EdgeRow} (referential : store.Referential)
    (kept : ∀ edge ∈ edges, edge ∈ store.edges ∧ edge.parentId ≠ id ∧ edge.childId ≠ id)
    (unlinked : store.Unlinked id) :
    Referential { store with resources := (store.resources.filter (·.id ≠ id)), edges } := by
  apply referential.of_kept (· = id)
  · rintro found ⟨row, member, rfl⟩ different
    exact ⟨row, List.mem_filter.mpr ⟨member, decide_eq_true different⟩, rfl⟩
  · exact fun edge member => Or.inl (kept edge member)
  · exact fun link member => ⟨member, unlinked link member⟩

theorem Referential.purge (referential : store.Referential) : (store.purge id).Referential := by
  apply referential.of_kept (· = id)
  · rintro found ⟨row, member, rfl⟩ different
    exact ⟨row, List.mem_filter.mpr ⟨member, decide_eq_true different⟩, rfl⟩
  · intro edge member
    obtain ⟨old, apart⟩ := List.mem_filter.mp member
    obtain ⟨child, parent⟩ := of_decide_eq_true apart
    exact Or.inl ⟨old, parent, child⟩
  · intro link member
    obtain ⟨old, apart⟩ := List.mem_filter.mp member
    exact ⟨old, of_decide_eq_true apart⟩

theorem Keyed.filter {keep : Resource → Bool} {edges : List EdgeRow}
    {groups : List Groups.ResourceGroup} (keyed : store.Keyed) :
    Keyed ⟨store.resources.filter keep, edges, groups⟩ :=
  ⟨keyed.ids.sublist (List.filter_sublist.map _), keyed.slugs.sublist (List.filter_sublist.map _)⟩

end Store

open Store

variable {env : Env} {store later : Store}

/-! ## Sweeps -/

/-- A sweep deletes its rows with all that names them. -/
theorem referential_swept {doomed : Resource → Prop} (referential : store.Referential)
    (swept : Swept doomed store later) : later.Referential := by
  apply referential.of_kept fun id => ∃ row, doomed row ∧ id = row.id
  · intro id has stays
    exact swept.ids.mpr ⟨has, fun row gone same => stays ⟨row, gone, same⟩⟩
  · intro edge member
    obtain ⟨old, apart⟩ := (swept.edges edge).mp member
    refine Or.inl ⟨old, ?_, ?_⟩
    · exact fun ⟨row, gone, same⟩ => (apart row gone).2 same
    · exact fun ⟨row, gone, same⟩ => (apart row gone).1 same
  · intro link member
    obtain ⟨old, apart⟩ := (swept.groups link).mp member
    exact ⟨old, fun ⟨row, gone, same⟩ => apart row gone same⟩

theorem referential_garbageCollect {now staleMs purgeMs : Int} (referential : store.Referential) :
    (garbageCollect now staleMs purgeMs store).Referential :=
  referential_swept referential
    (swept_foldl (sweeps_collectRow now staleMs purgeMs) store.resources store)

theorem referential_forgetSource {sourceName : String} {keepPromoted : Bool}
    (referential : store.Referential) :
    (forgetSource sourceName keepPromoted store).Referential := by
  unfold forgetSource
  split
  · exact referential
  · have swept := referential_swept referential
      (swept_foldl (sweeps_forgetRow sourceName keepPromoted) store.resources store)
    apply swept.of_grown
    · exact fun _ has => has
    · exact fun edge member => Or.inl (List.mem_of_mem_filter member)
    · rfl

/-! ## Reconciling -/

section Reconciling

variable {context : Context} {start run : Run}

theorem has_of_kept (kept : Kept start run) {id : String} (has : start.store.Has id) :
    run.store.Has id := by
  obtain ⟨row, member, rfl⟩ := has
  obtain ⟨row, inRun, same, -⟩ := kept.persists row member
  exact ⟨row, inRun, same⟩

/-- The rows a run reports are stored. -/
theorem has_reported {items : List Item} (nothing : start.reported = []) :
    ∀ item ∈ (placeAll context items start).1.reported,
      (placeAll context items start).1.store.Has item.actualId := by
  apply @placeAll_invariant context start
    fun run => ∀ item ∈ run.reported, run.store.Has item.actualId
  · intro run item next _ reported placed other member
    rcases placeItem_cases placed with ⟨existing, inTable, -, rfl⟩ | ⟨row, -, -, rfl⟩
    · apply (@has_update run.store existing.id (mergeRow context existing item) other.actualId
        fun _ => rfl).mpr
      rcases List.mem_append.mp member with old | new
      · exact reported other old
      · rw [List.mem_singleton.mp new]
        exact ⟨existing, inTable, rfl⟩
    · rcases List.mem_append.mp member with old | new
      · obtain ⟨found, inTable, same⟩ := reported other old
        exact ⟨found, List.mem_append_left _ inTable, same⟩
      · rw [List.mem_singleton.mp new]
        exact ⟨row, List.mem_append_right _ (List.mem_singleton_self _), rfl⟩
  · rw [nothing]
    exact fun item member => absurd member List.not_mem_nil

theorem has_of_resolveSlug (reported : ∀ item ∈ run.reported, run.store.Has item.actualId)
    {slug : Option String} {id : String} (resolved : resolveSlug run slug = some id) :
    run.store.Has id := by
  rcases resolveSlug_cases resolved with ⟨item, member, -, rfl⟩ | ⟨row, member, -, rfl⟩
  · exact reported item member
  · exact ⟨row, member, rfl⟩

/-- The loops over the edges link stored rows. -/
theorem edges_linkAll_stored {payload : Payload}
    (reported : ∀ item ∈ run.reported, run.store.Has item.actualId)
    (site : ∀ siteId, context.incomingSiteId = some siteId → run.store.Has siteId) :
    ∀ edge ∈ (linkAll context payload run).edges, edge ∈ run.store.edges ∨
      (run.store.Has edge.parentId ∧ run.store.Has edge.childId) := by
  apply @linkAll_invariant context run fun linking => ∀ edge ∈ linking.edges,
    edge ∈ run.store.edges ∨ (run.store.Has edge.parentId ∧ run.store.Has edge.childId)
  · exact fun edge member => Or.inl member
  · intro linking item _ stored edge member
    rcases linkEdge_cases context run linking item with same | ⟨parentId, childId, linked⟩
    · exact stored edge (same ▸ member)
    · rcases linked.adds edge member with old | ⟨rfl, rfl, -⟩
      · exact stored edge old
      · exact Or.inr ⟨has_of_resolveSlug reported linked.parent,
          has_of_resolveSlug reported linked.child⟩
  · intro siteId known linking item inReported stored edge member
    rcases fileUnderSite_cases context siteId linking item with ⟨same, -⟩ | ⟨-, adds, -⟩
    · exact stored edge (same ▸ member)
    · rcases adds edge member with old | ⟨parentEq, childEq, -⟩
      · exact stored edge old
      · exact Or.inr ⟨parentEq ▸ site siteId known, childEq ▸ reported item inReported⟩

/-- A reconcile run links stored rows only and deletes rows with all that names them. -/
theorem referential_reconcile {cache : TemplateCache} {sourceName : String} {payload : Payload}
    {options : Options} (referential : store.Referential) :
    (reconcile env cache sourceName payload options store).1.Referential := by
  rcases reconcile_cases env cache sourceName payload options store with
    ⟨refused, -⟩ | ⟨site, later, run, error, found, placed, outcome⟩
  · rw [refused]
    exact referential
  · have located := located_resolveTarget found
    let context : Context := ⟨env, cache, sourceName, site.map (·.id)⟩
    let start : Run := ⟨later, siteMap later, [], 2⟩
    have runEq : (placeAll context (payload.resources.map (promote options)) start).1 = run := by
      rw [placed]
    have kept := kept_placeAll context (payload.resources.map (promote options)) start
    have reported := @has_reported context start (payload.resources.map (promote options)) rfl
    rw [runEq] at kept reported
    have grown : ∀ id, store.Has id → run.store.Has id := fun id ⟨row, member, same⟩ =>
      has_of_kept kept ⟨row, located.keeps row member, same⟩
    have edges : run.store.edges = store.edges := kept.edges.trans located.edges
    have groups : run.store.groups = store.groups := kept.groups.trans located.groups
    rcases outcome with ⟨-, thrown⟩ | ⟨-, finished⟩
    · rw [thrown]
      exact referential.of_grown grown (fun edge member => Or.inl (edges ▸ member)) groups
    · rw [finished]
      have siteHas : ∀ siteId, context.incomingSiteId = some siteId → run.store.Has siteId := by
        intro siteId known
        obtain ⟨row, isRow, rfl⟩ := Option.map_eq_some_iff.mp known
        exact has_of_kept kept ⟨row, (located.isSite row isRow).1, rfl⟩
      have linked : Referential { run.store with edges := keptEdges context payload run } := by
        apply referential.of_grown
        · exact grown
        · intro edge member
          rw [← edges]
          exact edges_linkAll_stored reported siteHas edge (keptEdges_subset member)
        · exact groups
      exact referential_swept linked (swept_settle context payload run)

end Reconciling

/-! ## Routes -/

/-- The body of a create request names no missing parent. -/
def NamesParent (body : CreateBody) (store : Store) : Prop :=
  ∀ hostId, hostIdOf body store = some hostId → store.Has hostId

/-- A row is stored and no other goes. -/
structure Stores (store later : Store) (row : Resource) : Prop where
  keyed : later.Keyed
  edges : later.edges = store.edges
  groups : later.groups = store.groups
  rows : ∀ id, store.Has id → later.Has id
  has : later.Has row.id

theorem stores_replace {row existing : Resource} (keyed : store.Keyed)
    (member : existing ∈ store.resources) (sameId : row.id = existing.id)
    (sameSlug : row.slug = existing.slug) :
    Stores store (store.update existing.id fun _ => row) row := by
  have has : Has (store.update existing.id fun _ => row) row.id :=
    ⟨row, mem_update_iff.mpr (Or.inl ⟨existing, member, rfl, rfl⟩), rfl⟩
  refine ⟨sameId ▸ keyed.replace member sameId sameSlug, rfl, rfl, ?_, has⟩
  rintro found ⟨old, inTable, rfl⟩
  by_cases same : old.id = existing.id
  · have sameRow : row.id = old.id := sameId.trans same.symm
    exact sameRow ▸ has
  · exact ⟨old, mem_update inTable same, rfl⟩

theorem stores_addResource {data : NewResource} {description createdBy : Option String}
    {row : Resource} (keyed : store.Keyed)
    (added : addResource env data description createdBy store = .ok (row, later)) :
    Stores store later row := by
  unfold addResource at added
  split at added
  · contradiction
  · rename_i created next isCreated
    cases added
    obtain ⟨-, rfl, -⟩ := create_ok isCreated
    have inTable : created ∈ store.resources ++ [created] :=
      List.mem_append_right _ (List.mem_singleton_self _)
    have stored := @stores_replace _ { created with description, createdBy } created
      (keyed.create isCreated) inTable rfl rfl
    exact ⟨stored.keyed, stored.edges, stored.groups,
      fun id ⟨old, member, same⟩ => stored.rows id ⟨old, List.mem_append_left _ member, same⟩,
      stored.has⟩

theorem stores_createOrMerge {uid : String} {body : CreateBody} {row : Resource}
    (keyed : store.Keyed) (created : createOrMerge env uid body store = .ok (row, later)) :
    Stores store later row := by
  unfold createOrMerge at created
  split at created
  · split at created
    · contradiction
    · exact stores_addResource keyed created
  · split at created
    · rename_i prev found
      cases created
      apply stores_replace keyed (List.mem_of_find?_eq_some found)
      · rfl
      · rfl
    · exact stores_addResource keyed created

/-- An accepted request stores a row and adds at most its edge. -/
theorem postResource_spec {templates : List TemplateRow} {uid : String} {body : CreateBody}
    (posted : postResource env templates uid body store = .ok later) :
    ∃ row next, createOrMerge env uid body store = .ok (row, next) ∧
      (later = next ∨ ∃ hostId, hostIdOf body store = some hostId ∧ later = { next with
        edges := next.edges ++ [⟨env.uuid 1, hostId, row.id, "hosts", none⟩] }) := by
  unfold postResource at posted
  simp only [bind, Except.bind] at posted
  split at posted
  · contradiction
  · split at posted
    · contradiction
    · split at posted
      · contradiction
      · rename_i result created
        obtain ⟨row, next⟩ := result
        refine ⟨row, next, created, ?_⟩
        dsimp only at posted
        split at posted
        · rename_i hostId named
          split at posted
          · cases posted
            exact Or.inr ⟨hostId, named, rfl⟩
          · cases posted
            exact Or.inl rfl
        · cases posted
          exact Or.inl rfl

/-- A request creates no dangling edge when it names a stored parent. -/
theorem referential_postResource {templates : List TemplateRow} {uid : String} {body : CreateBody}
    (keyed : store.Keyed) (referential : store.Referential) (named : NamesParent body store)
    (posted : postResource env templates uid body store = .ok later) :
    later.Keyed ∧ later.Referential := by
  obtain ⟨row, next, created, outcome⟩ := postResource_spec posted
  have stored := stores_createOrMerge keyed created
  rcases outcome with rfl | ⟨hostId, isHost, rfl⟩
  · refine ⟨stored.keyed, referential.of_grown stored.rows (fun edge member => ?_) stored.groups⟩
    exact Or.inl (stored.edges ▸ member)
  · refine ⟨⟨stored.keyed.ids, stored.keyed.slugs⟩,
      referential.of_grown stored.rows (fun edge member => ?_) stored.groups⟩
    rcases List.mem_append.mp member with old | new
    · exact Or.inl (stored.edges ▸ old)
    · rw [List.mem_singleton.mp new]
      exact Or.inr ⟨stored.rows _ (named hostId isHost), stored.has⟩

theorem referential_deleteResource {id : String} (keyed : store.Keyed)
    (referential : store.Referential) (deleted : deleteResource id store = .ok later) :
    later.Keyed ∧ later.Referential := by
  unfold deleteResource at deleted
  split at deleted
  · contradiction
  · cases deleted
    exact ⟨keyed.filter, referential.purge⟩

/-- Nothing names the row of a merge that is deleted. -/
def MergesUnnamed (discoveredId targetId : Option String) (store : Store) : Prop :=
  ∀ discovered target, (truthy discoveredId).bind store.find = some discovered →
    (truthy targetId).bind store.find = some target → store.Unnamed discovered.id

theorem referential_mergeDiscovered {discoveredId targetId : Option String} (keyed : store.Keyed)
    (referential : store.Referential) (unnamed : MergesUnnamed discoveredId targetId store)
    (merged : mergeDiscovered discoveredId targetId store = .ok later) :
    later.Keyed ∧ later.Referential := by
  unfold mergeDiscovered at merged
  split at merged
  · rename_i discoveredId targetId isDiscovered isTarget
    split at merged
    · rename_i discovered target discoveredFound targetFound
      cases merged
      have apart := unnamed discovered target (by rw [isDiscovered]; exact discoveredFound)
        (by rw [isTarget]; exact targetFound)
      have updatedKeyed := @Keyed.update store target.id (fun row => { row with
        metadata := mergeDiscoveredMetadata target.metadata discovered.metadata }) keyed
        (fun _ => rfl) (fun _ => rfl)
      have updated := @Referential.update store target.id (fun row => { row with
        metadata := mergeDiscoveredMetadata target.metadata discovered.metadata }) referential
        (fun _ => rfl)
      refine ⟨updatedKeyed.filter, updated.drop (fun edge member => ?_) apart.2⟩
      exact ⟨member, apart.1 edge member⟩
    · contradiction
  · contradiction

end ThetaDirectory.Discovery
