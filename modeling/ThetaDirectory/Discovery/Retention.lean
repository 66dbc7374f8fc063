import ThetaDirectory.Discovery.Settling
import ThetaDirectory.Library.Runs

/-!
# Forgetting and collecting discovered resources

`forgetSource` and `garbageCollect` of `services/discovery_reconciler.js`, and what
becomes of promoted rows over runs of these and of `reconcile`: only a reconcile run
whose source alone knew a row, and no longer reports it, deletes one.
-/

namespace ThetaDirectory.Discovery

open Library Catalog

/-! ## Forgetting a source -/

/-- A row that more sources know, or that stays because it is promoted, loses the source;
any other row goes. -/
def forgetRow (sourceName : String) (keepPromoted : Bool) (store : Store) (row : Resource) :
    Store :=
  let sources := sourcesOf row.metadata
  if !sources.contains sourceName then store
  else
    let others := sources.filter (· ≠ sourceName)
    let promoted := row.managed || sources.contains "manual"
    if others ≠ [] ∨ keepPromoted && promoted then
      store.update row.id fun old => { old with metadata := withSources row.metadata others }
    else store.purge row.id

def forgetSource (sourceName : String) (keepPromoted : Bool) (store : Store) : Store :=
  if sourceName = "" then store
  else
    let store := store.resources.foldl (forgetRow sourceName keepPromoted) store
    { store with edges := store.edges.filter fun edge => edge.source ≠ some sourceName }

/-- The row goes with its source. -/
def forgotten (sourceName : String) (keepPromoted : Bool) (row : Resource) : Bool :=
  let sources := sourcesOf row.metadata
  sources.contains sourceName && (sources.filter (· ≠ sourceName)).isEmpty &&
    !(keepPromoted && (row.managed || sources.contains "manual"))

theorem sweeps_forgetRow (sourceName : String) (keepPromoted : Bool) :
    Sweeps (forgetRow sourceName keepPromoted) (forgotten sourceName keepPromoted) where
  purges := by
    intro store row gone
    simp only [forgotten, Bool.and_eq_true, Bool.not_eq_true', List.isEmpty_iff] at gone
    obtain ⟨⟨known, alone⟩, notKept⟩ := gone
    simp only [forgetRow, known, alone, notKept]
    rfl
  spares := by
    intro store row stays
    unfold forgetRow
    dsimp only
    split
    · exact ⟨rfl, rfl, rfl⟩
    · rename_i known
      split
      · exact ⟨rfl, rfl, map_bare_update store row.id _⟩
      · rename_i alone
        simp only [not_or, not_not, Bool.not_eq_true] at alone
        rw [Bool.eq_false_iff] at stays
        refine absurd ?_ stays
        simp only [forgotten, Bool.and_eq_true, Bool.not_eq_true', List.isEmpty_iff]
        exact ⟨⟨by simpa using known, alone.1⟩, alone.2⟩

/-! ## Collecting what has not been seen for long -/

/-- Discovered by a source, and neither promoted nor made by hand. -/
def collectable (row : Resource) : Bool :=
  let sources := sourcesOf row.metadata
  !row.managed && !sources.isEmpty && !sources.contains "manual"

def lastSeen (row : Resource) : Option Int :=
  match row.metadata.field "last_seen" with
  | .num seen => if seen = 0 then none else some seen
  | _ => none

/-- A row not seen for long is archived, one not seen for longer deleted. -/
def collectRow (now staleMs purgeMs : Int) (store : Store) (row : Resource) : Store :=
  match collectable row, lastSeen row with
  | true, some seen =>
      if seen < now - purgeMs then store.purge row.id
      else if seen < now - staleMs ∧
          (row.metadata.field "lifecycle_state").isStr "archived" = false then
        store.update row.id fun old =>
          { old with metadata := row.metadata.insert "lifecycle_state" (.str "archived") }
      else store
  | _, _ => store

def garbageCollect (now staleMs purgeMs : Int) (store : Store) : Store :=
  store.resources.foldl (collectRow now staleMs purgeMs) store

/-- The row has not been seen for so long that it is deleted. -/
def expired (now purgeMs : Int) (row : Resource) : Bool :=
  collectable row && (lastSeen row).any fun seen => decide (seen < now - purgeMs)

theorem sweeps_collectRow (now staleMs purgeMs : Int) :
    Sweeps (collectRow now staleMs purgeMs) (expired now purgeMs) where
  purges := by
    intro store row gone
    simp only [expired, Bool.and_eq_true, Option.any_eq_true, decide_eq_true_eq] at gone
    obtain ⟨isCollectable, seen, seenEq, old⟩ := gone
    simp only [collectRow, isCollectable, seenEq, if_pos old]
  spares := by
    intro store row stays
    unfold collectRow
    split
    · rename_i seen isCollectable seenEq
      split
      · rename_i old
        simp [expired, isCollectable, seenEq, old] at stays
      · split
        · exact ⟨rfl, rfl, map_bare_update store row.id _⟩
        · exact ⟨rfl, rfl, rfl⟩
    · exact ⟨rfl, rfl, rfl⟩

theorem keyed_garbageCollect {now staleMs purgeMs : Int} {store : Store} (keyed : store.Keyed) :
    (garbageCollect now staleMs purgeMs store).Keyed :=
  keyed.of_sublist (sublist_foldl (sweeps_collectRow now staleMs purgeMs) _ _)

theorem keyed_forgetSource {sourceName : String} {keepPromoted : Bool} {store : Store}
    (keyed : store.Keyed) : (forgetSource sourceName keepPromoted store).Keyed := by
  unfold forgetSource
  split
  · exact keyed
  · have swept := keyed.of_sublist
      (sublist_foldl (sweeps_forgetRow sourceName keepPromoted) store.resources store)
    exact ⟨swept.ids, swept.slugs⟩

/-! ## Runs -/

/-- What discovery does to the catalogue; promoted rows are kept when a source is
forgotten. -/
inductive Sweeping where
  | reconcile (env : Env) (cache : TemplateCache) (sourceName : String) (payload : Payload)
      (options : Options)
  | garbageCollect (now staleMs purgeMs : Int)
  | forgetSource (sourceName : String)

namespace Sweeping

def apply : Sweeping → Store → Store
  | .reconcile env cache sourceName payload options, store =>
      (Discovery.reconcile env cache sourceName payload options store).1
  | .garbageCollect now staleMs purgeMs, store =>
      Discovery.garbageCollect now staleMs purgeMs store
  | .forgetSource sourceName, store => Discovery.forgetSource sourceName true store

end Sweeping

/-- The ids a run reports, when it comes to its end. -/
def reportedIds (env : Env) (cache : TemplateCache) (sourceName : String) (payload : Payload)
    (options : Options) (store : Store) : Option (List String) :=
  match resolveTarget env options store with
  | (.refused, _) => none
  | (.site site, later) =>
      match placeAll ⟨env, cache, sourceName, site.map (·.id)⟩
          (payload.resources.map (promote options)) ⟨later, siteMap later, [], 2⟩ with
      | (run, none) => some (run.reported.map (·.actualId))
      | (_, some _) => none

/-- The operation is a reconcile run over resources and edges that takes the row for
vanished: nobody made it by hand, its one source is that of the run, and the run does not
report it. -/
def Sweeping.Vanishes (operation : Sweeping) (store : Store) (row : Resource) : Prop :=
  match operation with
  | .reconcile env cache sourceName payload options =>
      ∃ ids, reportedIds env cache sourceName payload options store = some ids ∧
        payload.resources ≠ [] ∧ payload.edges ≠ [] ∧ row.id ∉ ids ∧
          sourceName ∈ sourcesOf row.metadata ∧
            (∀ source ∈ sourcesOf row.metadata, source = sourceName) ∧ isManual row = false
  | _ => False

namespace Sweeping

/-- Step lemma: a promoted row is there after an operation unless it has vanished. -/
theorem survives_apply {operation : Sweeping} {store : Store} (keyed : store.Keyed)
    {row : Resource} (member : row ∈ store.resources) (promoted : row.managed = true) :
    (∃ later ∈ (operation.apply store).resources, later.id = row.id) ∨
      operation.Vanishes store row := by
  cases operation with
  | reconcile env cache sourceName payload options =>
      rcases reconcile_cases env cache sourceName payload options store with
        ⟨refused, -⟩ | ⟨site, later, run, error, found, placed, outcome⟩
      · refine Or.inl ⟨row, ?_, rfl⟩
        rwa [apply, refused]
      · have located := located_resolveTarget found
        have kept := kept_placeAll ⟨env, cache, sourceName, site.map (·.id)⟩
          (payload.resources.map (promote options)) ⟨later, siteMap later, [], 2⟩
        rw [placed] at kept
        have inRun := kept.persists row (located.keeps row member)
        rcases outcome with ⟨-, thrown⟩ | ⟨noError, finished⟩
        · obtain ⟨found, inStore, idEq, -⟩ := inRun
          refine Or.inl ⟨found, ?_, idEq⟩
          rwa [apply, thrown]
        · have swept := swept_settle ⟨env, cache, sourceName, site.map (·.id)⟩ payload run
          by_cases gone : ∃ other, Discovery.Vanishes
              ⟨env, cache, sourceName, site.map (·.id)⟩ payload run other ∧ row.id = other.id
          · obtain ⟨other, gone, sameId⟩ := gone
            obtain ⟨unreported, known, alone, notManual, edges⟩ := gone.spec
            have same : row = other :=
              (keyed_resolveTarget keyed found).eq_of_id (located.keeps row member)
                (gone.mem_start (congrArg Prod.fst placed)) sameId
            subst same
            refine Or.inr ⟨run.reported.map (·.actualId), ?_, gone.resources, edges, unreported,
              known, alone, notManual⟩
            simp only [reportedIds, found, placed, noError]
          · refine Or.inl ?_
            rw [apply, finished]
            refine swept.ids.mpr ⟨?_, fun other vanished same => gone ⟨other, vanished, same⟩⟩
            obtain ⟨found, inStore, idEq, -⟩ := inRun
            exact ⟨found, inStore, idEq⟩
  | garbageCollect now staleMs purgeMs =>
      refine Or.inl ((swept_foldl (sweeps_collectRow now staleMs purgeMs) store.resources
        store).ids.mpr ⟨⟨row, member, rfl⟩, ?_⟩)
      rintro other ⟨otherMember, old⟩ sameId
      rw [← keyed.eq_of_id member otherMember sameId] at old
      simp [expired, collectable, promoted] at old
  | forgetSource sourceName =>
      left
      simp only [apply, Discovery.forgetSource]
      split
      · exact ⟨row, member, rfl⟩
      · refine (swept_foldl (sweeps_forgetRow sourceName true) store.resources
          store).ids.mpr ⟨⟨row, member, rfl⟩, ?_⟩
        rintro other ⟨otherMember, gone⟩ sameId
        rw [← keyed.eq_of_id member otherMember sameId] at gone
        simp [forgotten, promoted] at gone

/-- Every operation keeps ids and slugs unique. -/
theorem keyed_apply {operation : Sweeping} {store : Store} (keyed : store.Keyed) :
    (operation.apply store).Keyed := by
  cases operation with
  | reconcile env cache sourceName payload options => exact keyed_reconcile keyed
  | garbageCollect now staleMs purgeMs => exact keyed_garbageCollect keyed
  | forgetSource sourceName => exact keyed_forgetSource keyed

private def guestEnv : Env := ⟨1000, fun draw => String.ofList (List.replicate draw 'x'), fun _ => "0"⟩

/-- A site with a guest that an operator promoted and only one source knows. -/
private def promotedGuest : Store where
  resources := [⟨"site", "site", "Site", "site_here", none, none, ∅⟩,
    ⟨"vm", "host", "guest", "guest", none, none,
      withSources ((∅ : Metadata).insert "managed" (.bool true)) ["proxmox"]⟩]
  edges := [⟨"e1", "site", "vm", "hosts", some "proxmox"⟩]
  groups := []

private def nodeItem : Item := ⟨none, some "host", some "pve", some "pve", none, ∅⟩

private def nodeReport : Sweeping :=
  .reconcile guestEnv none "proxmox" ⟨[nodeItem], [⟨some "site_here", some "pve", some "hosts"⟩]⟩ {}

end Sweeping

end ThetaDirectory.Discovery
