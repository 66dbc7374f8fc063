import ThetaDirectory.Replication.Phases

/-!
# What an import leaves alone

Rows the master never stamped stay, locally owned rows keep their metadata, and an edge
goes only when the master governs both its ends.
-/

namespace ThetaDirectory.Replication

open Catalog Discovery Library

variable {env : Env} {origin : String} {exportData : Export} {store : Store}

/-! ## Locally owned rows -/

/-- The metadata of a merged row that was here before: its own values win, it is marked and
carries no stamp. -/
theorem lookup_mergedRow {incoming existing : Resource} (owned : isLocallyOwned existing = true)
    (key : String) : (mergedRow origin incoming existing).metadata.lookup key =
      if key = replicatedFrom then none
      else if key = locallyOwned then some (.bool true)
      else (existing.metadata.lookup key).or (incoming.metadata.lookup key) := by
  have metadataEq : (mergedRow origin incoming existing).metadata =
      ((incoming.metadata.spread existing.metadata).insert locallyOwned (.bool true)).erase
        replicatedFrom := by
    unfold mergedRow
    dsimp only
    rw [if_pos owned]
    rfl
  rw [metadataEq]
  by_cases stamp : key = replicatedFrom
  · rw [if_pos stamp, stamp, AList.lookup_erase]
  · rw [if_neg stamp, AList.lookup_erase_ne stamp, JsMap.lookup_insert, Metadata.spread,
      JsMap.lookup_union]

/-- A merge keeps every metadata value of a locally owned row but the markers. -/
theorem lookup_mergedRow_of_mem {incoming existing : Resource} {key : String}
    (owned : isLocallyOwned existing = true) (present : key ∈ existing.metadata)
    (notMark : key ≠ locallyOwned) (notStamp : key ≠ replicatedFrom) :
    (mergedRow origin incoming existing).metadata.lookup key = existing.metadata.lookup key := by
  obtain ⟨value, found⟩ := JsMap.mem_iff_lookup.mp present
  rw [lookup_mergedRow owned, if_neg notStamp, if_neg notMark, found]
  rfl

/-- The ids that rows of the table keep through the rows of an export. -/
theorem exists_rowsImported (keyed : store.Keyed) {row : Resource}
    (member : row ∈ store.resources) :
    ∃ later ∈ (rowsImported env exportData store).resources, later.id = row.id ∧
      (later = row ∨ ∃ incoming ∈ exportData.resources, incoming.slug = row.slug ∧
        later = mergedRow exportData.origin incoming row) := by
  have done := @rowsDone_import env exportData store keyed
  by_cases kept : ∀ incoming ∈ exportData.resources, incoming.slug ≠ row.slug
  · exact ⟨row, (done.mem row).mpr (Or.inl ⟨member, kept⟩), rfl, Or.inl rfl⟩
  · simp only [not_forall, not_not] at kept
    obtain ⟨incoming, exported, same⟩ := kept
    exact ⟨_, (done.mem _).mpr (Or.inr (Or.inl ⟨row, member, incoming, exported, same, rfl⟩)),
      mergedRow_id _ _ _, Or.inr ⟨incoming, exported, same, rfl⟩⟩

/-- A row without the stamp, or with a slug the master has, is still there. -/
theorem exists_importDirectory (keyed : store.Keyed) {row : Resource}
    (member : row ∈ store.resources)
    (safe : isReplicated row = false ∨ isDesired exportData row = true) :
    ∃ later ∈ (importDirectory env exportData store).resources, later.id = row.id := by
  obtain ⟨later, imported, sameId, rfl | ⟨incoming, exported, same, rfl⟩⟩ :=
    @exists_rowsImported env exportData store keyed row member
  · exact ⟨later, (mem_importDirectory keyed).mpr ⟨imported, safe.symm⟩, rfl⟩
  · refine ⟨_, (mem_importDirectory keyed).mpr ⟨imported, Or.inl ?_⟩, sameId⟩
    exact isDesired_iff.mpr ⟨incoming, exported, (mergedRow_slug _ _ _).symm⟩

/-- A locally owned row that is still there has the metadata it had. -/
theorem lookup_importDirectory (keyed : store.Keyed) {row later : Resource} {key : String}
    (member : row ∈ store.resources) (owned : isLocallyOwned row = true)
    (found : later ∈ (importDirectory env exportData store).resources) (sameId : later.id = row.id)
    (present : key ∈ row.metadata) (notMark : key ≠ locallyOwned)
    (notStamp : key ≠ replicatedFrom) :
    later.metadata.lookup key = row.metadata.lookup key := by
  have done := @rowsDone_import env exportData store keyed
  obtain ⟨other, imported, otherId, outcome⟩ :=
    @exists_rowsImported env exportData store keyed row member
  have same : later = other := done.keyed.eq_of_id ((mem_importDirectory keyed).mp found).1
    imported (sameId.trans otherId.symm)
  rw [same]
  rcases outcome with rfl | ⟨incoming, -, -, rfl⟩
  · rfl
  · exact lookup_mergedRow_of_mem owned present notMark notStamp

/-! ## Edges -/

/-- The row with an id is one the master has or one it stamped and still owns. -/
def MasterKnows (exportData : Export) (before after : Store) (id : String) : Prop :=
  (∃ row ∈ after.resources, row.id = id ∧ isDesired exportData row = true) ∨
    ∃ row ∈ before.resources, row.id = id ∧ isReplicated row = true ∧ isMarkedLocal row = false

theorem masterKnows_of_governs (keyed : store.Keyed) {id : String}
    (governed : governs exportData (rowsImported env exportData store).resources id = true) :
    MasterKnows exportData store (importDirectory env exportData store) id := by
  have done := @rowsDone_import env exportData store keyed
  simp only [governs, isGoverned, List.any_eq_true, Bool.and_eq_true, beq_iff_eq, Bool.or_eq_true,
    Bool.not_eq_true'] at governed
  obtain ⟨row, imported, idEq, governed⟩ := governed
  cases desired : isDesired exportData row with
  | true => exact Or.inl ⟨row, (mem_importDirectory keyed).mpr ⟨imported, Or.inl desired⟩, idEq,
      desired⟩
  | false =>
      rw [desired] at governed
      have absent : ∀ incoming ∈ exportData.resources, incoming.slug ≠ row.slug := by
        intro incoming exported same
        rw [isDesired_iff.mpr ⟨incoming, exported, same⟩] at desired
        contradiction
      have before := (done.mem_of_slug exportData.slugged absent).mp imported
      exact Or.inr ⟨row, before, idEq, governed.resolve_left (by simp)⟩

/-- An edge that goes has both its ends among the rows the master knows. -/
theorem masterKnows_of_removed (keyed : store.Keyed) {edge : EdgeRow} (member : edge ∈ store.edges)
    (gone : edge ∉ (importDirectory env exportData store).edges) :
    MasterKnows exportData store (importDirectory env exportData store) edge.parentId ∧
      MasterKnows exportData store (importDirectory env exportData store) edge.childId := by
  have removed : edge ∈ removedEdges exportData (rowsImported env exportData store) := by
    by_contra kept
    exact gone ((mem_edges_importDirectory keyed).mpr ⟨Or.inl member, kept⟩)
  obtain ⟨-, -, parent, child⟩ := mem_removedEdges.mp removed
  exact ⟨masterKnows_of_governs keyed parent, masterKnows_of_governs keyed child⟩

private def spokeEnv : Env := ⟨1000, fun draw => String.ofList (List.replicate draw 'x'), fun _ => "0"⟩

private def serviceRow (id slug : String) : Resource :=
  ⟨id, "service", slug, slug, none, none, (∅ : Metadata).insert "address" (.str id)⟩

/-- Two services of the spoke's own bootstrap, one behind the other. -/
private def spokeServices : Store where
  resources := [serviceRow "1" "proxy", serviceRow "2" "sso-manager"]
  edges := [⟨"e", "1", "2", "runs_on", none⟩]
  groups := []

/-- The master has services of the same names and does not link them. -/
private def masterServices : Export where
  siteSlug := some "hq"
  resources := [serviceRow "a" "proxy", serviceRow "b" "sso-manager"]
  edges := []
  ids := by decide
  slugs := by decide
  slugged := by decide

end ThetaDirectory.Replication
