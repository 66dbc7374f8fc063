import ThetaDirectory.Replication.Import

/-!
# What the phases of an import do

The rows of an export, taken in order, merge into the rows with their slugs or are added;
then the edges change, and last the rows go away that the master stamped and no longer has.
-/

namespace ThetaDirectory.Replication

open Catalog Discovery Library

variable {env : Env} {origin : String} {exportData : Export} {store : Store}

/-! ## Rows -/

/-- No stored row has the slug or the id of the exported one. -/
def IsNew (store : Store) (incoming : Resource) : Prop :=
  ∀ old ∈ store.resources, old.slug ≠ incoming.slug ∧ old.id ≠ incoming.id

/-- The row the import makes of an exported one that is new here. -/
def newRow (origin : String) (incoming : Resource) : Resource :=
  createdRow ⟨[], [], []⟩ "" (stampedRow origin incoming)

theorem createdRow_eq {suffix : String} {row : Resource} (slugged : trim row.slug ≠ "") :
    createdRow store suffix row = createdRow ⟨[], [], []⟩ "" row := by
  simp only [createdRow, Store.rowOf, if_neg slugged]

theorem newRow_id (origin : String) (incoming : Resource) :
    (newRow origin incoming).id = incoming.id := rfl

theorem newRow_slug {incoming : Resource} (slugged : trim incoming.slug ≠ "") :
    (newRow origin incoming).slug = incoming.slug := by
  simp only [newRow, createdRow, stampedRow, scalarResource, Store.rowOf]
  exact if_neg slugged

theorem newRow_metadata (origin : String) (incoming : Resource) :
    (newRow origin incoming).metadata =
      incoming.metadata.insert replicatedFrom (.str origin) := rfl

theorem mergedRow_id (origin : String) (incoming existing : Resource) :
    (mergedRow origin incoming existing).id = existing.id := by
  unfold mergedRow
  dsimp only
  split <;> rfl

theorem mergedRow_slug (origin : String) (incoming existing : Resource) :
    (mergedRow origin incoming existing).slug = incoming.slug := by
  unfold mergedRow
  dsimp only
  split <;> rfl

theorem importRows_append (first second : List Resource) (store : Store) :
    importRows env origin (first ++ second) store = importRows env origin first store ++
      importRows env origin second
        (Write.applyAll (importRows env origin first store) store) := by
  induction first generalizing store with
  | nil => rfl
  | cons incoming first ih =>
      simp only [List.cons_append, importRows, ih, List.append_assoc, Write.applyAll_append]

/-- What the rows of an export make of a table: each row whose slug they lack stays, each
other one is merged with the row of its slug, and rows that are new here are added. -/
structure RowsDone (origin : String) (rows : List Resource) (before after : Store) : Prop where
  keyed : after.Keyed
  edges : after.edges = before.edges
  groups : after.groups = before.groups
  mem : ∀ row, row ∈ after.resources ↔
    (row ∈ before.resources ∧ ∀ incoming ∈ rows, incoming.slug ≠ row.slug) ∨
      (∃ old ∈ before.resources, ∃ incoming ∈ rows, incoming.slug = old.slug ∧
        row = mergedRow origin incoming old) ∨
      ∃ incoming ∈ rows, IsNew before incoming ∧ row = newRow origin incoming

/-- The ids of the table after some rows are the old ones and those of the new rows. -/
theorem RowsDone.exists_id_iff {rows : List Resource} {before after : Store}
    (done : RowsDone origin rows before after) {id : String} :
    (∃ row ∈ after.resources, row.id = id) ↔ (∃ old ∈ before.resources, old.id = id) ∨
      ∃ incoming ∈ rows, IsNew before incoming ∧ incoming.id = id := by
  constructor
  · rintro ⟨row, member, rfl⟩
    rcases (done.mem row).mp member with ⟨old, -⟩ | ⟨old, inOld, incoming, -, -, rfl⟩ |
      ⟨incoming, inRows, isNew, rfl⟩
    · exact Or.inl ⟨row, old, rfl⟩
    · exact Or.inl ⟨old, inOld, (mergedRow_id _ _ _).symm⟩
    · exact Or.inr ⟨incoming, inRows, isNew, rfl⟩
  · rintro (⟨old, member, rfl⟩ | ⟨incoming, inRows, isNew, rfl⟩)
    · by_cases kept : ∀ incoming ∈ rows, incoming.slug ≠ old.slug
      · exact ⟨old, (done.mem old).mpr (Or.inl ⟨member, kept⟩), rfl⟩
      · simp only [not_forall, not_not] at kept
        obtain ⟨incoming, inRows, same⟩ := kept
        exact ⟨_, (done.mem _).mpr (Or.inr (Or.inl ⟨old, member, incoming, inRows, same, rfl⟩)),
          mergedRow_id _ _ _⟩
    · exact ⟨_, (done.mem _).mpr (Or.inr (Or.inr ⟨incoming, inRows, isNew, rfl⟩)), rfl⟩

/-- A row with a slug that the rows lack was there before. -/
theorem RowsDone.mem_of_slug {rows : List Resource} {before after : Store} {row : Resource}
    (done : RowsDone origin rows before after) (slugged : ∀ row ∈ rows, trim row.slug ≠ "")
    (absent : ∀ incoming ∈ rows, incoming.slug ≠ row.slug) :
    row ∈ after.resources ↔ row ∈ before.resources := by
  rw [done.mem]
  constructor
  · rintro (⟨old, -⟩ | ⟨old, -, incoming, inRows, -, rfl⟩ | ⟨incoming, inRows, -, rfl⟩)
    · exact old
    · exact absurd (mergedRow_slug _ _ _).symm (absent incoming inRows)
    · exact absurd (newRow_slug (slugged incoming inRows)).symm (absent incoming inRows)
  · exact fun old => Or.inl ⟨old, absent⟩

/-- Step lemma: one more row. -/
theorem RowsDone.importRow {rows : List Resource} {incoming : Resource} {before after : Store}
    (keyed : before.Keyed) (done : RowsDone origin rows before after)
    (ids : ∀ row ∈ rows, row.id ≠ incoming.id) (slugs : ∀ row ∈ rows, row.slug ≠ incoming.slug)
    (slugged : ∀ row ∈ rows ++ [incoming], trim row.slug ≠ "") :
    RowsDone origin (rows ++ [incoming]) before
      (Write.applyAll (importRow env origin after incoming) after) := by
  have earlier : ∀ row ∈ rows, trim row.slug ≠ "" :=
    fun row member => slugged row (List.mem_append_left _ member)
  have ownSlug : trim incoming.slug ≠ "" := slugged incoming (by simp)
  have filled : incoming.slug ≠ "" := fun blank => ownSlug (by rw [blank]; rfl)
  have absent : ∀ row : Resource, row.slug = incoming.slug →
      ∀ other ∈ rows, other.slug ≠ row.slug :=
    fun row same other member => same ▸ slugs other member
  unfold Replication.importRow
  rw [if_neg filled]
  cases found : after.resources.find? fun row => row.slug == incoming.slug with
  | some existing =>
      have inAfter := List.mem_of_find?_eq_some found
      have same : existing.slug = incoming.slug := by simpa using List.find?_some found
      have inBefore := (done.mem_of_slug earlier (absent existing same)).mp inAfter
      have mergedId := mergedRow_id origin incoming existing
      refine ⟨done.keyed.replace inAfter mergedId ((mergedRow_slug _ _ _).trans same.symm),
        done.edges, done.groups, fun row => ?_⟩
      simp only [Write.applyAll, List.foldl_cons, List.foldl_nil, Write.apply,
        Store.mem_update_iff, mergedId, List.mem_append, List.mem_singleton]
      constructor
      · rintro (⟨other, otherIn, sameId, rfl⟩ | ⟨stays, different⟩)
        · exact Or.inr (Or.inl ⟨existing, inBefore, incoming, Or.inr rfl, same.symm, rfl⟩)
        · rcases (done.mem row).mp stays with ⟨old, kept⟩ | ⟨old, inOld, other, inRows, sameSlug, rfl⟩ |
            ⟨other, inRows, isNew, rfl⟩
          · refine Or.inl ⟨old, ?_⟩
            rintro other (inRows | rfl)
            · exact kept other inRows
            · exact fun sameSlug => different (congrArg (·.id)
                (keyed.eq_of_slug old inBefore (sameSlug.symm.trans same.symm)))
          · exact Or.inr (Or.inl ⟨old, inOld, other, Or.inl inRows, sameSlug, rfl⟩)
          · exact Or.inr (Or.inr ⟨other, Or.inl inRows, isNew, rfl⟩)
      · rintro (⟨old, kept⟩ | ⟨old, inOld, other, inRows | rfl, sameSlug, rfl⟩ |
          ⟨other, inRows | rfl, isNew, rfl⟩)
        · refine Or.inr ⟨(done.mem row).mpr (Or.inl ⟨old, fun other member =>
            kept other (Or.inl member)⟩), fun sameId => ?_⟩
          exact kept incoming (Or.inr rfl) (by rw [keyed.eq_of_id old inBefore sameId, same])
        · refine Or.inr ⟨(done.mem _).mpr (Or.inr (Or.inl
            ⟨old, inOld, other, inRows, sameSlug, rfl⟩)), fun sameId => ?_⟩
          rw [mergedRow_id] at sameId
          have isExisting := keyed.eq_of_id inOld inBefore sameId
          exact slugs other inRows (sameSlug.trans (isExisting ▸ same))
        · exact Or.inl ⟨existing, inAfter, rfl, by
            rw [keyed.eq_of_slug inOld inBefore (sameSlug.symm.trans same.symm)]⟩
        · refine Or.inr ⟨(done.mem _).mpr (Or.inr (Or.inr ⟨other, inRows, isNew, rfl⟩)), ?_⟩
          exact (isNew existing inBefore).2.symm
        · exact absurd same (isNew existing inBefore).1
  | none =>
      rw [List.find?_eq_none] at found
      have noSlug : ∀ old ∈ before.resources, old.slug ≠ incoming.slug := by
        intro old member same
        exact found old ((done.mem_of_slug earlier (absent old same)).mpr member) (by simp [same])
      have created : createdRow after (env.hex 0) (stampedRow origin incoming) =
          newRow origin incoming := createdRow_eq ownSlug
      have newSlug : (newRow origin incoming).slug = incoming.slug := newRow_slug ownSlug
      have taken : (∃ old ∈ after.resources, old.id = incoming.id) ↔
          ∃ old ∈ before.resources, old.id = incoming.id := by
        rw [done.exists_id_iff]
        refine or_iff_left ?_
        rintro ⟨other, inRows, -, sameId⟩
        exact ids other inRows sameId
      have kept : ∀ row ∈ after.resources, row.slug ≠ incoming.slug :=
        fun row member same => found row member (by simp [same])
      simp only [Write.applyAll, List.foldl_cons, List.foldl_nil, Write.apply, created]
      split
      · rename_i conflict
        simp only [List.any_eq_true, Bool.or_eq_true, beq_iff_eq, newSlug, newRow_id] at conflict
        obtain ⟨other, otherIn, sameId | sameSlug⟩ := conflict
        · obtain ⟨old, inBefore, oldId⟩ := taken.mp ⟨other, otherIn, sameId⟩
          have notNew : ¬ IsNew before incoming := fun isNew => (isNew old inBefore).2 oldId
          refine ⟨done.keyed, done.edges, done.groups, fun row => ?_⟩
          rw [done.mem]
          simp only [List.mem_append, List.mem_singleton]
          constructor
          · rintro (⟨old, kept⟩ | ⟨old, inOld, other, inRows, sameSlug, rfl⟩ |
              ⟨other, inRows, isNew, rfl⟩)
            · refine Or.inl ⟨old, ?_⟩
              rintro other (inRows | rfl)
              · exact kept other inRows
              · exact (noSlug row old).symm
            · exact Or.inr (Or.inl ⟨old, inOld, other, Or.inl inRows, sameSlug, rfl⟩)
            · exact Or.inr (Or.inr ⟨other, Or.inl inRows, isNew, rfl⟩)
          · rintro (⟨old, kept⟩ | ⟨old, inOld, other, inRows | rfl, sameSlug, rfl⟩ |
              ⟨other, inRows | rfl, isNew, rfl⟩)
            · exact Or.inl ⟨old, fun other member => kept other (Or.inl member)⟩
            · exact Or.inr (Or.inl ⟨old, inOld, other, inRows, sameSlug, rfl⟩)
            · exact absurd sameSlug.symm (noSlug old inOld)
            · exact Or.inr (Or.inr ⟨other, inRows, isNew, rfl⟩)
            · exact absurd isNew notNew
        · exact absurd sameSlug (kept other otherIn)
      · rename_i free
        simp only [List.any_eq_true, Bool.or_eq_true, beq_iff_eq, not_exists, not_and, not_or,
          newSlug, newRow_id] at free
        have isNew : IsNew before incoming := fun old member =>
          ⟨noSlug old member, fun sameId => by
            obtain ⟨other, otherIn, otherId⟩ := taken.mpr ⟨old, member, sameId⟩
            exact (free other otherIn).1 otherId⟩
        refine ⟨done.keyed.add fun old member => ?_, done.edges, done.groups, fun row => ?_⟩
        · rw [newSlug, newRow_id]
          exact free old member
        · rw [List.mem_append, done.mem, List.mem_singleton]
          simp only [List.mem_append, List.mem_singleton]
          constructor
          · rintro ((⟨old, kept⟩ | ⟨old, inOld, other, inRows, sameSlug, rfl⟩ |
              ⟨other, inRows, otherNew, rfl⟩) | rfl)
            · refine Or.inl ⟨old, ?_⟩
              rintro other (inRows | rfl)
              · exact kept other inRows
              · exact (noSlug row old).symm
            · exact Or.inr (Or.inl ⟨old, inOld, other, Or.inl inRows, sameSlug, rfl⟩)
            · exact Or.inr (Or.inr ⟨other, Or.inl inRows, otherNew, rfl⟩)
            · exact Or.inr (Or.inr ⟨incoming, Or.inr rfl, isNew, rfl⟩)
          · rintro (⟨old, kept⟩ | ⟨old, inOld, other, inRows | rfl, sameSlug, rfl⟩ |
              ⟨other, inRows | rfl, otherNew, rfl⟩)
            · exact Or.inl (Or.inl ⟨old, fun other member => kept other (Or.inl member)⟩)
            · exact Or.inl (Or.inr (Or.inl ⟨old, inOld, other, inRows, sameSlug, rfl⟩))
            · exact absurd sameSlug.symm (noSlug old inOld)
            · exact Or.inl (Or.inr (Or.inr ⟨other, inRows, otherNew, rfl⟩))
            · exact Or.inr rfl

/-- Run lemma: any first rows of an export. -/
theorem rowsDone {rows : List Resource} (keyed : store.Keyed) (ids : (rows.map (·.id)).Nodup)
    (slugs : (rows.map (·.slug)).Nodup) (slugged : ∀ row ∈ rows, trim row.slug ≠ "") :
    RowsDone origin rows store (Write.applyAll (importRows env origin rows store) store) := by
  induction rows using List.reverseRecOn with
  | nil => exact ⟨keyed, rfl, rfl, by simp [importRows, Write.applyAll]⟩
  | append_singleton rows incoming ih =>
      rw [List.map_append, List.map_singleton, List.nodup_append] at ids slugs
      rw [importRows_append, Write.applyAll_append, importRows, importRows, List.append_nil]
      refine (ih ids.1 slugs.1 fun row member => slugged row (by simp [member])).importRow keyed
        (fun row member => ?_) (fun row member => ?_) slugged
      · exact ids.2.2 row.id (List.mem_map_of_mem member) incoming.id (by simp)
      · exact slugs.2.2 row.slug (List.mem_map_of_mem member) incoming.slug (by simp)

theorem rowsDone_import (keyed : store.Keyed) : RowsDone exportData.origin exportData.resources
    store (rowsImported env exportData store) :=
  rowsDone keyed exportData.ids exportData.slugs exportData.slugged

/-! ## Edges and deletions -/

theorem applyAll_createEdge (edges : List EdgeRow) (store : Store) :
    Write.applyAll (edges.map .createEdge) store =
      { store with edges := store.edges ++ edges } := by
  induction edges generalizing store with
  | nil => simp [Write.applyAll]
  | cons edge edges ih =>
      change Write.applyAll (edges.map .createEdge) (Write.apply (.createEdge edge) store) = _
      rw [ih]
      simp [Write.apply]

theorem applyAll_deleteEdge (edges : List EdgeRow) (store : Store) :
    Write.applyAll (edges.map .deleteEdge) store =
      { store with edges := store.edges.filter fun edge => decide (edge ∉ edges) } := by
  induction edges generalizing store with
  | nil => simp [Write.applyAll]
  | cons edge edges ih =>
      change Write.applyAll (edges.map .deleteEdge) (Write.apply (.deleteEdge edge) store) = _
      rw [ih]
      simp only [Write.apply, List.filter_filter, List.mem_cons, not_or, Bool.decide_and,
        Bool.and_comm]

theorem applyAll_deleteRow (rows : List Resource) (store : Store) :
    Write.applyAll (rows.map fun row => .deleteRow row.id) store =
      { store with resources := (store.resources.filter fun row =>
          decide (∀ gone ∈ rows, row.id ≠ gone.id)) } := by
  induction rows generalizing store with
  | nil => simp [Write.applyAll]
  | cons gone rows ih =>
      change Write.applyAll (rows.map fun row => .deleteRow row.id)
        (Write.apply (.deleteRow gone.id) store) = _
      rw [ih]
      simp only [Write.apply, List.filter_filter, List.forall_mem_cons, Bool.decide_and,
        Bool.and_comm]

/-- The catalogue after the import, from the one after its rows. -/
theorem importDirectory_eq (env : Env) (exportData : Export) (store : Store) :
    importDirectory env exportData store =
      let imported := rowsImported env exportData store
      { imported with
        resources := (imported.resources.filter fun row =>
          decide (∀ gone ∈ removedRows exportData imported, row.id ≠ gone.id))
        edges := (imported.edges ++ addedEdges env exportData imported).filter fun edge =>
          decide (edge ∉ removedEdges exportData imported) } := by
  unfold importDirectory importWrites edgeWrites deleteWrites
  rw [Write.applyAll_append, Write.applyAll_append, ← rowsImported, Write.applyAll_append,
    applyAll_createEdge, applyAll_deleteEdge, applyAll_deleteRow]

/-- What is left is what the rows made, without those the master no longer has. -/
theorem mem_importDirectory (keyed : store.Keyed) {row : Resource} :
    row ∈ (importDirectory env exportData store).resources ↔
      row ∈ (rowsImported env exportData store).resources ∧
        (isDesired exportData row = true ∨ isReplicated row = false) := by
  have done := @rowsDone_import env exportData store keyed
  rw [importDirectory_eq]
  have removed : ∀ gone, gone ∈ removedRows exportData (rowsImported env exportData store) ↔
      gone ∈ (rowsImported env exportData store).resources ∧
        isDesired exportData gone = false ∧ isReplicated gone = true := fun gone => by
    simp only [removedRows, List.mem_filter, Bool.and_eq_true, Bool.not_eq_true']
  rw [List.mem_filter, decide_eq_true_eq]
  refine and_congr_right fun member => ?_
  constructor
  · intro stays
    by_contra gone
    simp only [not_or, Bool.not_eq_true, Bool.not_eq_false] at gone
    exact stays row ((removed row).mpr ⟨member, gone⟩) rfl
  · intro kept gone isRemoved same
    obtain ⟨inTable, notDesired, replicated⟩ := (removed gone).mp isRemoved
    obtain rfl := done.keyed.eq_of_id inTable member same.symm
    rw [notDesired, replicated] at kept
    simp at kept

theorem keyed_importDirectory (keyed : store.Keyed) :
    (importDirectory env exportData store).Keyed := by
  have done := @rowsDone_import env exportData store keyed
  rw [importDirectory_eq]
  exact ⟨done.keyed.ids.sublist (List.filter_sublist.map _),
    done.keyed.slugs.sublist (List.filter_sublist.map _)⟩

theorem isDesired_iff {row : Resource} : isDesired exportData row = true ↔
    ∃ incoming ∈ exportData.resources, incoming.slug = row.slug := by
  simp only [isDesired, List.any_eq_true, Bool.and_eq_true, bne_iff_ne, beq_iff_eq]
  constructor
  · rintro ⟨incoming, member, -, same⟩
    exact ⟨incoming, member, same⟩
  · rintro ⟨incoming, member, same⟩
    refine ⟨incoming, member, fun blank => exportData.slugged incoming member ?_, same⟩
    rw [blank]
    rfl

/-- An edge that is removed lies between rows the master governs and is not among those
it has. -/
theorem mem_removedEdges {edge : EdgeRow} : edge ∈ removedEdges exportData store ↔
    edge ∈ store.edges ∧
      (∀ desired ∈ desiredEdges exportData store.resources, desired.key ≠ keyOf edge) ∧
      governs exportData store.resources edge.parentId = true ∧
        governs exportData store.resources edge.childId = true := by
  simp only [removedEdges, List.mem_filter, Bool.and_eq_true, Bool.not_eq_true',
    List.any_eq_false, beq_iff_eq, and_assoc]

/-- Every edge but those removed is there after the import. -/
theorem mem_edges_importDirectory (keyed : store.Keyed) {edge : EdgeRow} :
    edge ∈ (importDirectory env exportData store).edges ↔
      (edge ∈ store.edges ∨ edge ∈ addedEdges env exportData (rowsImported env exportData store)) ∧
        edge ∉ removedEdges exportData (rowsImported env exportData store) := by
  rw [importDirectory_eq]
  simp only [List.mem_filter, decide_eq_true_eq, List.mem_append,
    (rowsDone_import keyed).edges]

end ThetaDirectory.Replication
