import ThetaDirectory.Discovery.Merges
import ThetaDirectory.Discovery.Retention

/-!
# Discovering an archived resource again

What `garbageCollect` writes to archive a row, and which reports of it bring the row back:
the merge keeps every field of the row that the report does not carry, so the row stays
archived unless an item carries a lifecycle state of its own.
-/

namespace ThetaDirectory.Discovery

open Library Catalog

/-- The row is hidden from the catalogue. -/
def isArchived (row : Resource) : Bool :=
  (row.metadata.field "lifecycle_state").isStr "archived"

/-- The last lifecycle state that one of the items carries. -/
def carriedState (items : List Item) : Option Json :=
  items.reverse.findSome? fun item => item.metadata.lookup "lifecycle_state"

/-! ## Merging -/

variable {context : Context} {row : Resource}

/-- A merge writes these fields itself; any other is the item's, or else the row's. -/
theorem lookup_mergeMetadata {existing incoming : Metadata} {key : String}
    (own : key ∉ ["interfaces", "discovery_sources", "last_seen", "facts_by_source"]) :
    (mergeMetadata context existing incoming).lookup key =
      (incoming.lookup key).or (existing.lookup key) := by
  simp only [List.mem_cons, List.not_mem_nil, or_false, not_or] at own
  obtain ⟨notInterfaces, notSources, notSeen, notFacts⟩ := own
  have recorded (metadata : Metadata) :
      (recordFactSources context.env.now metadata context.sourceName incoming).lookup key =
        metadata.lookup key := by
    unfold recordFactSources
    dsimp only
    split
    · rfl
    · rw [JsMap.lookup_insert, if_neg notFacts]
  have listed : (if (incoming.field "interfaces").isTruthy then
      (existing.spread incoming).insert "interfaces" (.arr ((interfacesOf incoming).foldl
        mergeInterface (interfacesOf existing)))
      else existing.spread incoming).lookup key = (existing.spread incoming).lookup key := by
    split
    · rw [JsMap.lookup_insert, if_neg notInterfaces]
    · rfl
  unfold mergeMetadata
  dsimp only
  rw [recorded, JsMap.lookup_insert, if_neg notSeen, withSources, JsMap.lookup_insert,
    if_neg notSources, listed, Metadata.spread, JsMap.lookup_union]

/-- A row that takes up items has the last state they carry, or its own. -/
theorem lookup_foldl_absorb (items : List Item) (row : Resource) :
    (items.foldl (absorb context) row).metadata.lookup "lifecycle_state" =
      (carriedState items).or (row.metadata.lookup "lifecycle_state") := by
  induction items generalizing row with
  | nil => rfl
  | cons item items ih =>
      have merged : (absorb context row item).metadata.lookup "lifecycle_state" =
          (item.metadata.lookup "lifecycle_state").or
            (row.metadata.lookup "lifecycle_state") := lookup_mergeMetadata (by decide)
      rw [List.foldl_cons, ih, merged, ← Option.or_assoc]
      congr 1
      rw [carriedState, carriedState, List.reverse_cons, List.findSome?_append]
      simp

theorem isArchived_foldl_absorb (items : List Item) (archived : isArchived row = true) :
    isArchived (items.foldl (absorb context) row) = false ↔
      ∃ state, carriedState items = some state ∧ state.isStr "archived" = false := by
  unfold isArchived Metadata.field at archived ⊢
  rw [lookup_foldl_absorb]
  cases carriedState items with
  | none => simp [archived]
  | some state => simp

/-! ## Runs -/

/-- The items that an operation merges into the row with an id. -/
def Sweeping.itemsInto (operation : Sweeping) (store : Store) (id : String) : List Item :=
  match operation with
  | .reconcile env cache sourceName payload options =>
      Discovery.itemsInto id (merges env cache sourceName payload options store)
  | _ => []

/-- Step lemma: an archived row that items are merged into is back exactly when the last
lifecycle state these carry is another. -/
theorem restored_apply_iff {operation : Sweeping} {store : Store} (keyed : store.Keyed)
    (member : row ∈ store.resources) (archived : isArchived row = true)
    (found : operation.itemsInto store row.id ≠ []) :
    (∃ later ∈ (operation.apply store).resources, later.id = row.id ∧
        isArchived later = false) ↔
      ∃ state, carriedState (operation.itemsInto store row.id) = some state ∧
        state.isStr "archived" = false := by
  cases operation with
  | garbageCollect now staleMs purgeMs => exact absurd rfl found
  | forgetSource sourceName => exact absurd rfl found
  | reconcile env cache sourceName payload options =>
      have taken : ((Sweeping.reconcile env cache sourceName payload options).apply
          store).find row.id =
            some (((Sweeping.reconcile env cache sourceName payload options).itemsInto store
              row.id).foldl (absorb ⟨env, cache, sourceName, none⟩) row) :=
        find_reconcile keyed member found
      have laterKeyed : ((Sweeping.reconcile env cache sourceName payload options).apply
          store).Keyed := Sweeping.keyed_apply keyed
      rw [laterKeyed.exists_iff taken]
      exact isArchived_foldl_absorb _ archived

/-- Run lemma: at every step of a run, an archived row that the payload holds an item for is
no longer archived exactly when the last lifecycle state these items carry is another. -/
theorem rediscovered_iff (operations : List Sweeping) {store : Store} (keyed : store.Keyed) :
    ∀ step ∈ Runs.steps Sweeping.apply operations store, ∀ row ∈ step.before.resources,
      isArchived row = true → step.operation.itemsInto step.before row.id ≠ [] →
        ((∃ later ∈ step.after.resources, later.id = row.id ∧ isArchived later = false) ↔
          ∃ state, carriedState (step.operation.itemsInto step.before row.id) = some state ∧
            state.isStr "archived" = false) := by
  intro step inRun row member archived found
  have before := (Runs.forall_steps_of_keeps Store.Keyed keyed
    (fun operation state keyed => Sweeping.keyed_apply keyed) step inRun).1
  rw [Runs.after_of_step inRun]
  exact restored_apply_iff before member archived found

/-! ### A laptop back from holiday -/

private def homeEnv : Env :=
  ⟨1000, fun draw => String.ofList (List.replicate draw 'x'), fun _ => "0"⟩

/-- A site with a laptop that a scan saw long ago. -/
private def quietHome : Store where
  resources := [⟨"site", "site", "Site", "site_here", none, none, ∅⟩,
    ⟨"laptop", "host", "laptop", "laptop", none, none,
      (withSources ∅ ["nmap"]).insert "last_seen" (.num 5)⟩]
  edges := [⟨"e1", "site", "laptop", "hosts", some "nmap"⟩]
  groups := []

private def collected : Sweeping := .garbageCollect 1000 100 999

private def seenAgain : Sweeping :=
  .reconcile homeEnv none "nmap"
    ⟨[⟨none, some "host", some "laptop", some "laptop", none, ∅⟩], []⟩ {}

theorem rediscovered_iff_laptop : List.Forall (fun step => ∀ row ∈ step.before.resources,
    isArchived row = true → step.operation.itemsInto step.before row.id ≠ [] →
      ((∃ later ∈ step.after.resources, later.id = row.id ∧ isArchived later = false) ↔
        ∃ state, carriedState (step.operation.itemsInto step.before row.id) = some state ∧
          state.isStr "archived" = false))
    (Runs.steps Sweeping.apply [collected, seenAgain] quietHome) :=
  List.forall_iff_forall_mem.mpr (rediscovered_iff _ ⟨by decide, by decide⟩)

/-- Archived for its silence, the laptop is still archived after it is seen again. -/
theorem not_rediscovered : ¬ ∀ (now staleMs purgeMs : Int) (report : Sweeping) (store : Store),
    store.Keyed → ∀ row ∈ store.resources, isArchived row = false →
      ∀ archived ∈ (garbageCollect now staleMs purgeMs store).resources,
        archived.id = row.id → isArchived archived = true →
          report.itemsInto (garbageCollect now staleMs purgeMs store) archived.id ≠ [] →
            ∃ later ∈ (report.apply (garbageCollect now staleMs purgeMs store)).resources,
              later.id = archived.id ∧ isArchived later = false := by
  intro always
  have laptop := always 1000 100 999 seenAgain quietHome ⟨by decide, by decide⟩ _
    (List.mem_cons_of_mem _ List.mem_cons_self) (by decide +kernel)
    _ (List.mem_cons_of_mem _ List.mem_cons_self) (by decide +kernel) (by decide +kernel)
    (by
      intro none
      have length := congrArg List.length none
      revert length
      decide +kernel)
  revert laptop
  decide +kernel

end ThetaDirectory.Discovery
