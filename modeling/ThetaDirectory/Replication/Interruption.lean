import ThetaDirectory.Replication.Resumption

/-!
# Stopping an import after any write

Any first writes of an import leave a catalogue in which it has stopped.
-/

namespace ThetaDirectory.Replication

open Catalog Discovery Library

variable {env env' : Env} {origin : String} {exportData : Export} {store later : Store}

/-! ## First writes -/

/-- The first elements of two lists in a row are first ones of the first list or all of it
and first ones of the second. -/
theorem isPrefix_append {α : Type*} {front first second : List α}
    (isPrefix : List.IsPrefix front (first ++ second)) : List.IsPrefix front first ∨
      ∃ rest, List.IsPrefix rest second ∧ front = first ++ rest := by
  obtain ⟨tail, split⟩ := isPrefix
  rcases List.append_eq_append_iff.mp split with ⟨middle, rfl, -⟩ | ⟨rest, rfl, secondEq⟩
  · exact Or.inl (List.prefix_append front middle)
  · exact Or.inr ⟨rest, ⟨tail, secondEq.symm⟩, rfl⟩

/-- First writes for the rows are the writes for first rows. -/
theorem exists_rows_of_isPrefix {writes : List Write} {rows : List Resource} {store : Store}
    (isPrefix : List.IsPrefix writes (importRows env origin rows store)) :
    ∃ front, List.IsPrefix front rows ∧ writes = importRows env origin front store := by
  induction rows generalizing store writes with
  | nil => exact ⟨[], List.prefix_refl _, List.prefix_nil.mp isPrefix⟩
  | cons incoming rows ih =>
      rcases isPrefix_append isPrefix with first | ⟨rest, later, rfl⟩
      · have single : writes = [] ∨ writes = importRow env origin store incoming := by
          have short : (importRow env origin store incoming).length ≤ 1 := by
            unfold importRow
            split
            · exact Nat.zero_le 1
            · split <;> exact le_refl 1
          cases writes with
          | nil => exact Or.inl rfl
          | cons write writes =>
              refine Or.inr (first.eq_of_length (le_antisymm first.length_le ?_))
              exact short.trans (Nat.le_add_left 1 _)
        rcases single with rfl | rfl
        · exact ⟨[], List.nil_prefix, rfl⟩
        · exact ⟨[incoming], ⟨rows, rfl⟩, (List.append_nil _).symm⟩
      · obtain ⟨front, ofRows, rfl⟩ := ih later
        exact ⟨incoming :: front, List.cons_prefix_cons.mpr ⟨rfl, ofRows⟩, rfl⟩

/-! ## Phases -/

/-- The import has stopped in the rows. -/
theorem stopped_of_rowsDone {rows : List Resource}
    (among : ∀ row ∈ rows, row ∈ exportData.resources)
    (done : RowsDone exportData.origin rows store later) :
    Stopped env exportData store later where
  keyed := done.keyed
  rows := by
    intro row member
    rcases (done.mem row).mp member with ⟨old, -⟩ | ⟨old, inTable, incoming, inRows, same, rfl⟩ |
      ⟨incoming, inRows, isNew, rfl⟩
    · exact Or.inl old
    · exact Or.inr (Or.inl ⟨old, inTable, incoming, among incoming inRows, same, rfl⟩)
    · exact Or.inr (Or.inr ⟨incoming, among incoming inRows, isNew, rfl⟩)
  kept := by
    intro old member _
    by_cases absent : ∀ incoming ∈ rows, incoming.slug ≠ old.slug
    · exact ⟨old, (done.mem old).mpr (Or.inl ⟨member, absent⟩), Or.inl rfl⟩
    · simp only [not_forall, not_not] at absent
      obtain ⟨incoming, inRows, same⟩ := absent
      exact ⟨_, (done.mem _).mpr (Or.inr (Or.inl ⟨old, member, incoming, inRows, same, rfl⟩)),
        Or.inr ⟨incoming, among incoming inRows, same, rfl⟩⟩
  edges := fun edge member => Or.inl (done.edges ▸ member)
  keptEdges := fun edge member _ => done.edges.symm ▸ member
  order := Or.inl fun old member notDesired => (done.mem old).mpr (Or.inl ⟨member,
    fun incoming inRows => slug_ne_of_not_isDesired (among incoming inRows) notDesired⟩)

/-- The catalogue after the rows with some edges added, some gone and some rows deleted. -/
def trimmed (imported : Store) (added gone : List EdgeRow) (deleted : List Resource) : Store :=
  { imported with
    resources := (imported.resources.filter fun row =>
      decide (∀ other ∈ deleted, row.id ≠ other.id))
    edges := (imported.edges ++ added).filter fun edge => decide (edge ∉ gone) }

/-- The import has stopped in the edges or the deletions, which come last. -/
theorem stopped_trimmed (keyed : store.Keyed) {added gone : List EdgeRow} {deleted : List Resource}
    (isAdded : ∀ edge ∈ added,
      edge ∈ addedEdges env exportData (rowsImported env exportData store))
    (isGone : ∀ edge ∈ gone, edge ∈ removedEdges exportData (rowsImported env exportData store))
    (isDeleted : ∀ row ∈ deleted,
      row ∈ removedRows exportData (rowsImported env exportData store))
    (order : deleted = [] ∨
      ∀ edge ∈ removedEdges exportData (rowsImported env exportData store), edge ∈ gone) :
    Stopped env exportData store
      (trimmed (rowsImported env exportData store) added gone deleted) := by
  have done := @rowsDone_import env exportData store keyed
  have stopped := @stopped_of_rowsDone env exportData store _ _ (fun _ member => member) done
  have notDeleted : ∀ row ∈ (rowsImported env exportData store).resources,
      isDesired exportData row = true ∨ isReplicated row = false →
        row ∈ (trimmed (rowsImported env exportData store) added gone deleted).resources := by
    intro row imported safe
    refine List.mem_filter.mpr ⟨imported, decide_eq_true fun other otherDeleted sameId => ?_⟩
    have removed := isDeleted other otherDeleted
    simp only [removedRows, List.mem_filter, Bool.and_eq_true, Bool.not_eq_true'] at removed
    rw [done.keyed.eq_of_id imported removed.1 sameId, removed.2.1, removed.2.2] at safe
    simp at safe
  refine ⟨⟨done.keyed.ids.sublist (List.filter_sublist.map _),
    done.keyed.slugs.sublist (List.filter_sublist.map _)⟩,
    fun row member => stopped.rows row (List.mem_of_mem_filter member), ?_, ?_, ?_, ?_⟩
  · intro old member safe
    obtain ⟨row, imported, outcome⟩ := stopped.kept old member safe
    refine ⟨row, notDeleted row imported ?_, outcome⟩
    rcases outcome with rfl | ⟨incoming, exported, -, rfl⟩
    · exact safe
    · exact Or.inl (isDesired_of_slug exported (mergedRow_slug _ _ _).symm)
  · intro edge member
    rcases List.mem_append.mp (List.mem_of_mem_filter member) with old | new
    · exact Or.inl (done.edges ▸ old)
    · have missing := exists_addedEdges_iff.mp ⟨edge, isAdded edge new, rfl⟩
      rw [done.edges] at missing
      exact Or.inr missing
  · intro edge member stays
    refine List.mem_filter.mpr ⟨List.mem_append_left _ (done.edges.symm ▸ member), ?_⟩
    exact decide_eq_true fun isRemoved => stays (isGone edge isRemoved)
  · rcases order with rfl | allGone
    · refine Or.inl fun old member notDesired => List.mem_filter.mpr ⟨?_, by simp⟩
      exact (done.mem old).mpr (Or.inl ⟨member, fun incoming exported =>
        slug_ne_of_not_isDesired exported notDesired⟩)
    · refine Or.inr fun edge member removed => ?_
      exact of_decide_eq_true (List.mem_filter.mp member).2 (allGone edge removed)

/-- After any first writes of an import it has stopped. -/
theorem stopped_of_isPrefix (keyed : store.Keyed) {writes : List Write}
    (isPrefix : List.IsPrefix writes (importWrites env exportData store)) :
    Stopped env exportData store (Write.applyAll writes store) := by
  unfold importWrites at isPrefix
  rcases isPrefix_append isPrefix with notDeleting | ⟨rest, deleting, rfl⟩
  · rcases isPrefix_append notDeleting with inRows | ⟨rest, inEdges, rfl⟩
    · obtain ⟨rows, ofRows, rfl⟩ := exists_rows_of_isPrefix inRows
      have among := ofRows.sublist
      refine stopped_of_rowsDone (fun row member => among.subset member) (rowsDone keyed
        (exportData.ids.sublist (among.map _)) (exportData.slugs.sublist (among.map _))
        fun row member => exportData.slugged row (among.subset member))
    · rw [Write.applyAll_append, ← rowsImported]
      rcases isPrefix_append inEdges with adding | ⟨rest, removing, rfl⟩
      · obtain ⟨added, ofAdded, rfl⟩ := List.prefix_map_iff.mp adding
        have stopped := @stopped_trimmed env exportData store keyed added [] []
          (fun edge member => ofAdded.subset member) (by simp) (by simp) (Or.inl rfl)
        rw [applyAll_createEdge]
        simpa [trimmed] using stopped
      · obtain ⟨gone, ofRemoved, rfl⟩ := List.prefix_map_iff.mp removing
        have stopped := @stopped_trimmed env exportData store keyed _ gone []
          (fun edge member => member) (fun edge member => ofRemoved.subset member) (by simp)
          (Or.inl rfl)
        rw [Write.applyAll_append, applyAll_createEdge, applyAll_deleteEdge]
        simpa [trimmed] using stopped
  · obtain ⟨deleted, ofDeleted, rfl⟩ := List.prefix_map_iff.mp deleting
    have stopped := @stopped_trimmed env exportData store keyed _ _ deleted
      (fun edge member => member) (fun edge member => member)
      (fun row member => ofDeleted.subset member) (Or.inr fun edge member => member)
    unfold edgeWrites
    rw [Write.applyAll_append, Write.applyAll_append, ← rowsImported, Write.applyAll_append,
      applyAll_createEdge, applyAll_deleteEdge, applyAll_deleteRow]
    exact stopped

/-! ## Convergence -/

/-- An import that is interrupted and run again, or run once more, ends as one that is run
once. -/
def Converges (exportData : Export) (store : Store) : Prop :=
  ∀ env env' : Env,
    (∀ writes, List.IsPrefix writes (importWrites env exportData store) →
      SameCatalog (importDirectory env' exportData (Write.applyAll writes store))
        (importDirectory env exportData store)) ∧
    SameCatalog (importDirectory env' exportData (importDirectory env exportData store))
      (importDirectory env exportData store)

theorem mem_of_mem_rowSet {seen : View} (same : rowSet store = rowSet later)
    (member : seen ∈ rowSet store) : ∃ row ∈ later.resources, view row = seen := by
  rw [same] at member
  exact member

/-- A row that waits for the deletion of the one with its id is created by the next run. -/
theorem not_converges_of_id (keyed : store.Keyed) {incoming old : Resource}
    (exported : incoming ∈ exportData.resources)
    (noSlug : ∀ row ∈ store.resources, row.slug ≠ incoming.slug)
    (member : old ∈ store.resources) (sameId : old.id = incoming.id)
    (notDesired : isDesired exportData old = false) (stamped : isReplicated old = true) :
    ¬ SameCatalog (importDirectory env' exportData (importDirectory env exportData store))
      (importDirectory env exportData store) := by
  intro same
  have done := @rowsDone_import env exportData store keyed
  have absentSlug : ∀ row ∈ (importDirectory env exportData store).resources,
      row.slug ≠ incoming.slug := by
    intro row found sameSlug
    rcases (done.mem row).mp ((mem_importDirectory keyed).mp found).1 with ⟨before, -⟩ |
      ⟨before, inTable, other, otherExported, otherSlug, rfl⟩ | ⟨other, otherExported, isNew, rfl⟩
    · exact noSlug row before sameSlug
    · rw [mergedRow_slug] at sameSlug
      exact noSlug before inTable (otherSlug.symm.trans sameSlug)
    · rw [newRow_slug (exportData.slugged other otherExported)] at sameSlug
      obtain rfl := eq_of_slug otherExported exported sameSlug
      exact (isNew old member).2 sameId
  have absentId : ∀ row ∈ (importDirectory env exportData store).resources,
      row.id ≠ incoming.id := by
    intro row found rowId
    obtain ⟨imported, kept⟩ := (mem_importDirectory keyed).mp found
    have still := (done.mem old).mpr (Or.inl ⟨member, fun other otherExported =>
      slug_ne_of_not_isDesired otherExported notDesired⟩)
    rw [done.keyed.eq_of_id imported still (rowId.trans sameId.symm), notDesired, stamped] at kept
    simp at kept
  have created : view (newRow exportData.origin incoming) ∈
      rowSet (importDirectory env' exportData (importDirectory env exportData store)) :=
    (mem_rowSet_importDirectory (keyed_importDirectory keyed)).mpr (Or.inr (Or.inr
      ⟨incoming, exported, fun row found => ⟨absentSlug row found, absentId row found⟩, rfl⟩))
  obtain ⟨row, found, seen⟩ := mem_of_mem_rowSet same.rows created
  obtain ⟨-, -, -, sameSlug⟩ := columns_of_view seen
  rw [newRow_slug (exportData.slugged incoming exported)] at sameSlug
  exact absentSlug row found sameSlug

/-- A new row whose kind or name is filled in loses them in the next run. -/
theorem isComplete_of_same (keyed : store.Keyed) {incoming : Resource}
    (exported : incoming ∈ exportData.resources) (noMarker : HasNoMarker incoming)
    (isNew : IsNew store incoming)
    (same : SameCatalog (importDirectory env' exportData (importDirectory env exportData store))
      (importDirectory env exportData store)) : IsComplete incoming := by
  have slugged := exportData.slugged incoming exported
  have again := @keyed_importDirectory env exportData store keyed
  have created : newRow exportData.origin incoming ∈
      (importDirectory env exportData store).resources :=
    (mem_importDirectory keyed).mpr ⟨((rowsDone_import keyed).mem _).mpr (Or.inr (Or.inr
      ⟨incoming, exported, isNew, rfl⟩)),
      Or.inl (isDesired_of_slug exported (newRow_slug slugged).symm)⟩
  have merged : view (mergedRow exportData.origin incoming (newRow exportData.origin incoming)) ∈
      rowSet (importDirectory env' exportData (importDirectory env exportData store)) :=
    (mem_rowSet_importDirectory again).mpr (Or.inr (Or.inl
      ⟨_, created, incoming, exported, (newRow_slug slugged).symm, rfl⟩))
  obtain ⟨row, found, seen⟩ := mem_of_mem_rowSet same.rows merged
  rw [mergedRow_newRow noMarker] at seen
  obtain ⟨sameId, sameKind, sameName, -⟩ := columns_of_view seen
  rw [again.eq_of_id found created sameId] at sameKind sameName
  rw [IsComplete, ← newRow_kind exportData.origin, ← newRow_name exportData.origin]
  exact ⟨sameKind, sameName⟩

private def stampedNas : Resource :=
  ⟨"n", "host", "nas", "nas", none, none, (∅ : Metadata).insert replicatedFrom (.str "hq")⟩

/-- The master gave the server another slug. -/
private def renamedNas : Export where
  siteSlug := some "hq"
  resources := [⟨"n", "host", "storage", "storage", none, none, ∅⟩]
  edges := []
  ids := by decide
  slugs := by decide
  slugged := by decide

end ThetaDirectory.Replication
