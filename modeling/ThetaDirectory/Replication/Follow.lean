import ThetaDirectory.Library.Runs
import ThetaDirectory.Replication.Phases

/-!
# Rows that follow the master

A row the master's import created is updated and deleted with the master's own, over runs
of imports, as long as no export marks it locally owned.
-/

namespace ThetaDirectory.Replication

open Catalog Discovery Library

variable {env : Env} {exportData : Export} {store : Store} {slug : String}

/-- Every row with the slug carries the stamp and not the mark. -/
def Follows (slug : String) (store : Store) : Prop :=
  ∀ row ∈ store.resources, row.slug = slug → isReplicated row = true ∧ isMarkedLocal row = false

/-- The master's values under the id of the row that follows it. -/
def followed (origin : String) (incoming row : Resource) : Resource :=
  { scalarResource incoming with
    id := row.id
    metadata := incoming.metadata.insert replicatedFrom (.str origin) }

theorem Export.origin_ne_empty (exportData : Export) : exportData.origin ≠ "" := by
  unfold Export.origin truthy
  rcases exportData.siteSlug with - | siteSlug
  · decide
  · rw [Option.filter_some]
    split
    · rename_i named
      exact of_decide_eq_true named
    · decide

theorem not_isLocallyOwned {row : Resource} (stamped : isReplicated row = true)
    (unmarked : isMarkedLocal row = false) : isLocallyOwned row = false := by
  simp [isLocallyOwned, stamped, unmarked]

theorem mergedRow_of_follows {origin : String} {incoming row : Resource}
    (stamped : isReplicated row = true) (unmarked : isMarkedLocal row = false) :
    mergedRow origin incoming row = followed origin incoming row := by
  unfold mergedRow followed
  dsimp only
  rw [if_neg (by simp [not_isLocallyOwned stamped unmarked])]
  rfl

/-- A row with the master's metadata and the stamp follows, unless the master marks it. -/
theorem follows_of_metadata {incoming row : Resource} (unmarked : isMarkedLocal incoming = false)
    (stamped : row.metadata =
      incoming.metadata.insert replicatedFrom (.str exportData.origin)) :
    isReplicated row = true ∧ isMarkedLocal row = false := by
  unfold isReplicated isMarkedLocal at *
  rw [stamped, Metadata.field_insert, Metadata.field_insert, if_pos rfl, if_neg (by decide)]
  exact ⟨by simpa [Json.isTruthy] using exportData.origin_ne_empty, unmarked⟩

/-- The import leaves rows that follow, if the master does not mark them. -/
theorem follows_importDirectory (keyed : store.Keyed) (follows : Follows slug store)
    (unmarked : ∀ incoming ∈ exportData.resources, incoming.slug = slug →
      isMarkedLocal incoming = false) :
    Follows slug (importDirectory env exportData store) := by
  intro row member ownSlug
  have imported := ((mem_importDirectory keyed).mp member).1
  rcases ((rowsDone_import keyed).mem row).mp imported with ⟨old, -⟩ |
    ⟨old, inTable, incoming, exported, same, rfl⟩ | ⟨incoming, exported, -, rfl⟩
  · exact follows row old ownSlug
  · rw [mergedRow_slug] at ownSlug
    obtain ⟨stamped, notMarked⟩ := follows old inTable (same.symm.trans ownSlug)
    rw [mergedRow_of_follows stamped notMarked]
    exact follows_of_metadata (unmarked incoming exported ownSlug) rfl
  · rw [newRow_slug (exportData.slugged incoming exported)] at ownSlug
    exact follows_of_metadata (unmarked incoming exported ownSlug) (newRow_metadata _ _)

/-- What an import does to a row that follows: the master's values where the master has its
slug, and no row with its id where the master has not. -/
def Updated (exportData : Export) (before after : Store) (row : Resource) : Prop :=
  row ∈ before.resources →
    (∀ incoming ∈ exportData.resources, incoming.slug = row.slug →
      followed exportData.origin incoming row ∈ after.resources) ∧
    ((∀ incoming ∈ exportData.resources, incoming.slug ≠ row.slug) →
      ∀ later ∈ after.resources, later.id ≠ row.id)

theorem updated_importDirectory (keyed : store.Keyed) {row : Resource}
    (stamped : isReplicated row = true) (unmarked : isMarkedLocal row = false) :
    Updated exportData store (importDirectory env exportData store) row := by
  intro member
  have done := @rowsDone_import env exportData store keyed
  constructor
  · intro incoming exported same
    have merged := @mergedRow_of_follows exportData.origin incoming row stamped unmarked
    refine (mem_importDirectory keyed).mpr ⟨(done.mem _).mpr (Or.inr (Or.inl
      ⟨row, member, incoming, exported, same, merged.symm⟩)), Or.inl ?_⟩
    exact isDesired_iff.mpr ⟨incoming, exported, rfl⟩
  · intro dropped later found sameId
    obtain ⟨imported, kept⟩ := (mem_importDirectory keyed).mp found
    have still := (done.mem row).mpr (Or.inl ⟨member, dropped⟩)
    rw [done.keyed.eq_of_id imported still sameId, stamped, isDesired_iff] at kept
    rcases kept with ⟨incoming, exported, same⟩ | notStamped
    · exact dropped incoming exported same
    · contradiction

/-! ## Runs -/

/-- An import, or a change to the catalogue by anything else. -/
inductive Change where
  | importing (env : Env) (exportData : Export)
  | other (change : Store → Store)

namespace Change

def apply : Change → Store → Store
  | .importing env exportData, store => importDirectory env exportData store
  | .other change, store => change store

/-- What is not an import keeps the table's keys and does not touch the row. -/
def Untouched (slug : String) : Change → Store → Prop
  | .importing _ _, _ => True
  | .other change, store => (change store).Keyed ∧
      ∀ row, row.slug = slug → (row ∈ (change store).resources ↔ row ∈ store.resources)

/-- The master does not export the row as one of the spoke's own. -/
def Unmarked (slug : String) : Change → Prop
  | .importing _ exportData => ∀ incoming ∈ exportData.resources, incoming.slug = slug →
      isMarkedLocal incoming = false
  | .other _ => True

/-- An import makes every row with the slug what the master has. -/
def Tracks (slug : String) (step : Runs.Step Change Store) : Prop :=
  ∀ env exportData, step.operation = .importing env exportData → ∀ row, row.slug = slug →
    Updated exportData step.before step.after row

/-- Step lemma. -/
theorem tracks_apply {change : Change} (inv : store.Keyed ∧ Follows slug store)
    (meets : change.Untouched slug store ∧ change.Unmarked slug) :
    ((change.apply store).Keyed ∧ Follows slug (change.apply store)) ∧
      Tracks slug ⟨store, change, change.apply store⟩ := by
  obtain ⟨keyed, follows⟩ := inv
  obtain ⟨untouched, unmarked⟩ := meets
  cases change with
  | importing env exportData =>
      refine ⟨⟨keyed_importDirectory keyed, follows_importDirectory keyed follows unmarked⟩, ?_⟩
      rintro env' exportData' same row ownSlug member
      cases same
      obtain ⟨stamped, notMarked⟩ := follows row member ownSlug
      exact updated_importDirectory keyed stamped notMarked member
  | other change =>
      refine ⟨⟨untouched.1, fun row member ownSlug =>
        follows row ((untouched.2 row ownSlug).mp member) ownSlug⟩, ?_⟩
      intro env exportData isImport
      exact absurd isImport (by simp)

private def followEnv : Env := ⟨1000, fun draw => String.ofList (List.replicate draw 'x'), fun _ => "0"⟩

private def spoke : Store where
  resources := [⟨"1", "site", "Branch", "site_branch", none, none, ∅⟩]
  edges := []
  groups := []

/-- The storage server as a master with the given metadata exports it. -/
private def nasExport (metadata : Metadata) : Export where
  siteSlug := some "hq"
  resources := [⟨"n", "host", "nas", "nas", none, none, metadata⟩]
  edges := []
  ids := List.nodup_singleton _
  slugs := List.nodup_singleton _
  slugged := List.forall_mem_singleton.mpr (show trim "nas" ≠ "" by decide)

end Change

end ThetaDirectory.Replication
