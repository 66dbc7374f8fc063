import ThetaDirectory.Replication.Convergence

/-!
# Resuming an import

What a catalogue is like when an import has stopped in it, and where the next one leads.
-/

namespace ThetaDirectory.Replication

open Catalog Discovery Library

variable {env env' : Env} {exportData : Export} {store later : Store}

/-- No exported row waits for the deletion of one with its id, and each is stored as it was
exported. -/
def Resumable (exportData : Export) (store : Store) : Prop :=
  ∀ incoming ∈ exportData.resources, (∀ old ∈ store.resources, old.slug ≠ incoming.slug) →
    (∀ old ∈ store.resources, old.id = incoming.id →
      isDesired exportData old = true ∨ isReplicated old = false) ∧
    ((∀ old ∈ store.resources, old.id ≠ incoming.id) → IsComplete incoming)

/-- A catalogue in which an import has stopped.  Each row is an old one, a merged one or a
new one; edges that are to go may be left only while no row has been deleted. -/
structure Stopped (env : Env) (exportData : Export) (store later : Store) : Prop where
  keyed : later.Keyed
  rows : ∀ row ∈ later.resources, row ∈ store.resources ∨
    (∃ old ∈ store.resources, ∃ incoming ∈ exportData.resources, incoming.slug = old.slug ∧
      row = mergedRow exportData.origin incoming old) ∨
    ∃ incoming ∈ exportData.resources, IsNew store incoming ∧
      row = newRow exportData.origin incoming
  kept : ∀ old ∈ store.resources, isDesired exportData old = true ∨ isReplicated old = false →
    ∃ row ∈ later.resources, row = old ∨ ∃ incoming ∈ exportData.resources,
      incoming.slug = old.slug ∧ row = mergedRow exportData.origin incoming old
  edges : ∀ edge ∈ later.edges, edge ∈ store.edges ∨
    ∃ desired, IsMissing exportData (rowsImported env exportData store).resources store.edges
      desired ∧ desired.triple = tripleOf edge
  keptEdges : ∀ edge ∈ store.edges,
    edge ∉ removedEdges exportData (rowsImported env exportData store) → edge ∈ later.edges
  order : (∀ old ∈ store.resources, isDesired exportData old = false → old ∈ later.resources) ∨
    ∀ edge ∈ later.edges, edge ∉ removedEdges exportData (rowsImported env exportData store)

namespace Stopped

/-- A kept row still has its slug and its id. -/
theorem kept_keys (stopped : Stopped env exportData store later) {old : Resource}
    (member : old ∈ store.resources)
    (safe : isDesired exportData old = true ∨ isReplicated old = false) :
    ∃ row ∈ later.resources, row.slug = old.slug ∧ row.id = old.id := by
  obtain ⟨row, inLater, rfl | ⟨incoming, -, same, rfl⟩⟩ := stopped.kept old member safe
  · exact ⟨row, inLater, rfl, rfl⟩
  · exact ⟨_, inLater, (mergedRow_slug _ _ _).trans same, mergedRow_id _ _ _⟩

/-- A row that is new to the stopped catalogue was new at the start. -/
theorem isNew (stopped : Stopped env exportData store later)
    (resumable : Resumable exportData store) {incoming : Resource}
    (exported : incoming ∈ exportData.resources) (isNew : IsNew later incoming) :
    IsNew store incoming := by
  have noSlug : ∀ old ∈ store.resources, old.slug ≠ incoming.slug := by
    intro old member same
    obtain ⟨row, inLater, sameSlug, -⟩ := stopped.kept_keys member
      (Or.inl (isDesired_of_slug exported same.symm))
    exact (isNew row inLater).1 (sameSlug.trans same)
  refine fun old member => ⟨noSlug old member, fun sameId => ?_⟩
  obtain ⟨row, inLater, -, rowId⟩ := stopped.kept_keys member
    ((resumable incoming exported noSlug).1 old member sameId)
  exact (isNew row inLater).2 (rowId.trans sameId)

/-- A row that was new at the start has been created or is new still. -/
theorem created_or_isNew (stopped : Stopped env exportData store later) {incoming : Resource}
    (exported : incoming ∈ exportData.resources) (isNew : IsNew store incoming) :
    newRow exportData.origin incoming ∈ later.resources ∨ IsNew later incoming := by
  by_cases created : newRow exportData.origin incoming ∈ later.resources
  · exact Or.inl created
  · refine Or.inr fun row member => ?_
    rcases stopped.rows row member with old | ⟨old, inTable, other, otherExported, same, rfl⟩ |
      ⟨other, otherExported, -, rfl⟩
    · exact isNew row old
    · rw [mergedRow_slug, mergedRow_id, same]
      exact isNew old inTable
    · rw [newRow_slug (exportData.slugged other otherExported), newRow_id]
      constructor
      · intro same
        exact created (eq_of_slug otherExported exported same ▸ member)
      · intro same
        exact created (eq_of_id otherExported exported same ▸ member)

/-- The rows an import ends with are the same from the stopped catalogue. -/
theorem settled_iff (stopped : Stopped env exportData store later)
    (resumable : Resumable exportData store)
    (noMarker : ∀ incoming ∈ exportData.resources, HasNoMarker incoming) {seen : View} :
    Settled exportData later seen ↔ Settled exportData store seen := by
  constructor
  · rintro (⟨row, member, notDesired, notStamped, rfl⟩ |
      ⟨row, member, incoming, exported, same, rfl⟩ | ⟨incoming, exported, isNew, rfl⟩)
    · rcases stopped.rows row member with old | ⟨old, inTable, incoming, exported, same, rfl⟩ |
        ⟨incoming, exported, -, rfl⟩
      · exact Or.inl ⟨row, old, notDesired, notStamped, rfl⟩
      · exact absurd (mergedRow_slug _ _ _).symm (slug_ne_of_not_isDesired exported notDesired)
      · exact absurd (newRow_slug (exportData.slugged incoming exported)).symm
          (slug_ne_of_not_isDesired exported notDesired)
    · rcases stopped.rows row member with old | ⟨old, inTable, other, otherExported, slug, rfl⟩ |
        ⟨other, otherExported, isNew, rfl⟩
      · exact Or.inr (Or.inl ⟨row, old, incoming, exported, same, rfl⟩)
      · rw [mergedRow_slug] at same
        obtain rfl := eq_of_slug exported otherExported same
        rw [view_mergedRow_mergedRow (noMarker incoming exported)]
        exact Or.inr (Or.inl ⟨old, inTable, incoming, exported, slug, rfl⟩)
      · rw [newRow_slug (exportData.slugged other otherExported)] at same
        obtain rfl := eq_of_slug exported otherExported same
        rw [view_mergedRow_newRow (noMarker incoming exported)
          (exportData.slugged incoming exported)
          ((resumable incoming exported fun old member => (isNew old member).1).2
            fun old member => (isNew old member).2)]
        exact Or.inr (Or.inr ⟨incoming, exported, isNew, rfl⟩)
    · exact Or.inr (Or.inr ⟨incoming, exported, stopped.isNew resumable exported isNew, rfl⟩)
  · rintro (⟨old, member, notDesired, notStamped, rfl⟩ |
      ⟨old, member, incoming, exported, same, rfl⟩ | ⟨incoming, exported, isNew, rfl⟩)
    · obtain ⟨row, inLater, rfl | ⟨incoming, exported, same, rfl⟩⟩ :=
        stopped.kept old member (Or.inr notStamped)
      · exact Or.inl ⟨row, inLater, notDesired, notStamped, rfl⟩
      · exact absurd same (slug_ne_of_not_isDesired exported notDesired)
    · obtain ⟨row, inLater, rfl | ⟨other, otherExported, otherSlug, rfl⟩⟩ :=
        stopped.kept old member (Or.inl (isDesired_of_slug exported same))
      · exact Or.inr (Or.inl ⟨row, inLater, incoming, exported, same, rfl⟩)
      · obtain rfl := eq_of_slug exported otherExported (same.trans otherSlug.symm)
        refine Or.inr (Or.inl ⟨_, inLater, incoming, exported, (mergedRow_slug _ _ _).symm, ?_⟩)
        exact view_mergedRow_mergedRow (noMarker incoming exported)
    · rcases stopped.created_or_isNew exported isNew with created | stillNew
      · refine Or.inr (Or.inl ⟨_, created, incoming, exported,
          (newRow_slug (exportData.slugged incoming exported)).symm, ?_⟩)
        exact view_mergedRow_newRow (noMarker incoming exported)
          (exportData.slugged incoming exported)
          ((resumable incoming exported fun old member => (isNew old member).1).2
            fun old member => (isNew old member).2)
      · exact Or.inr (Or.inr ⟨incoming, exported, stillNew, rfl⟩)

end Stopped

/-! ## Edges -/

/-- The ids that exported slugs have after the rows are those they end with. -/
theorem exists_slug_id_iff (keyed : store.Keyed) {slug id : String}
    (desired : ∃ incoming ∈ exportData.resources, incoming.slug = slug) :
    (∃ row ∈ (rowsImported env exportData store).resources, row.slug = slug ∧ row.id = id) ↔
      ∃ seen, Settled exportData store seen ∧ seen.slug = slug ∧ seen.id = id := by
  simp only [← @mem_rowSet_importDirectory env exportData store keyed]
  constructor
  · rintro ⟨row, imported, rfl, rfl⟩
    exact ⟨view row, ⟨row, (mem_importDirectory keyed).mpr ⟨imported,
      Or.inl (isDesired_iff.mpr desired)⟩, rfl⟩, rfl, rfl⟩
  · rintro ⟨seen, ⟨row, member, rfl⟩, slugEq, idEq⟩
    exact ⟨row, ((mem_importDirectory keyed).mp member).1, slugEq, idEq⟩

theorem find_slug_id_iff {rows : Store} (keyed : rows.Keyed) {slug id : String} :
    (rows.resources.find? fun row => row.slug == slug).map (·.id) = some id ↔
      ∃ row ∈ rows.resources, row.slug = slug ∧ row.id = id := by
  rw [Option.map_eq_some_iff]
  constructor
  · rintro ⟨row, found, idEq⟩
    exact ⟨row, List.mem_of_find?_eq_some found, by simpa using List.find?_some found, idEq⟩
  · rintro ⟨row, member, slugEq, idEq⟩
    cases found : rows.resources.find? fun row => row.slug == slug with
    | none => exact absurd (beq_iff_eq.mpr slugEq) (List.find?_eq_none.mp found row member)
    | some other =>
        have otherSlug : other.slug = slug := by simpa using List.find?_some found
        rw [keyed.eq_of_slug member (List.mem_of_find?_eq_some found)
          (slugEq.trans otherSlug.symm)] at idEq
        exact ⟨other, rfl, idEq⟩

section SameRows

variable (keyed : store.Keyed) (laterKeyed : later.Keyed)
  (sameRows : ∀ seen, Settled exportData later seen ↔ Settled exportData store seen)

include keyed laterKeyed sameRows

theorem localIdFor_congr : localIdFor exportData (rowsImported env' exportData later).resources =
    localIdFor exportData (rowsImported env exportData store).resources := by
  funext masterId
  unfold localIdFor
  refine Option.bind_congr fun incoming found => ?_
  have exported := List.mem_of_find?_eq_some found
  have asMap : ∀ rows : List Resource, (do
      let row ← rows.find? fun row => row.slug == incoming.slug
      pure row.id) = (rows.find? fun row => row.slug == incoming.slug).map (·.id) := by
    intro rows
    cases rows.find? fun row => row.slug == incoming.slug <;> rfl
  rw [asMap, asMap]
  refine Option.ext fun id => ?_
  rw [find_slug_id_iff (rowsDone_import laterKeyed).keyed,
    find_slug_id_iff (rowsDone_import keyed).keyed,
    exists_slug_id_iff laterKeyed ⟨incoming, exported, rfl⟩,
    exists_slug_id_iff keyed ⟨incoming, exported, rfl⟩]
  simp only [sameRows]

theorem desiredEdges_congr : desiredEdges exportData (rowsImported env' exportData later).resources =
    desiredEdges exportData (rowsImported env exportData store).resources := by
  have sameIds := @localIdFor_congr env env' exportData store later keyed laterKeyed sameRows
  unfold desiredEdges localEdge
  rw [sameIds]

end SameRows

theorem governs_iff {rows : List Resource} {id : String} : governs exportData rows id = true ↔
    ∃ row ∈ rows, row.id = id ∧ (isDesired exportData row = true ∨
      isReplicated row = true ∧ isMarkedLocal row = false) := by
  simp only [governs, isGoverned, List.any_eq_true, Bool.and_eq_true, beq_iff_eq, Bool.or_eq_true,
    Bool.not_eq_true']

/-- The master governs the same ids, if it does and the undesired rows are the same. -/
theorem governs_mono (keyed : store.Keyed) (laterKeyed : later.Keyed)
    (sameRows : ∀ seen, Settled exportData later seen → Settled exportData store seen)
    (undesired : ∀ row ∈ later.resources, isDesired exportData row = false →
      row ∈ store.resources) {id : String}
    (governed : governs exportData (rowsImported env' exportData later).resources id = true) :
    governs exportData (rowsImported env exportData store).resources id = true := by
  rw [governs_iff] at governed ⊢
  obtain ⟨row, imported, idEq, governed⟩ := governed
  cases desired : isDesired exportData row with
  | true =>
      have exported := isDesired_iff.mp desired
      obtain ⟨seen, settled, slugEq, seenId⟩ :=
        (exists_slug_id_iff laterKeyed exported).mp ⟨row, imported, rfl, idEq⟩
      obtain ⟨other, inStore, otherSlug, otherId⟩ := (@exists_slug_id_iff env exportData store
        keyed _ _ exported).mpr ⟨seen, sameRows seen settled, slugEq, seenId⟩
      refine ⟨other, inStore, otherId, Or.inl (isDesired_iff.mpr ?_)⟩
      rw [otherSlug]
      exact exported
  | false =>
      have absent : ∀ incoming ∈ exportData.resources, incoming.slug ≠ row.slug :=
        fun incoming exported => slug_ne_of_not_isDesired exported desired
      have inLater := ((rowsDone_import laterKeyed).mem_of_slug exportData.slugged absent).mp imported
      refine ⟨row, ?_, idEq, Or.inr (governed.resolve_left (by simp [desired]))⟩
      exact ((rowsDone_import keyed).mem_of_slug exportData.slugged absent).mpr
        (undesired row inLater desired)

namespace Stopped

/-- An undesired row of the stopped catalogue was there at the start. -/
theorem mem_of_not_isDesired (stopped : Stopped env exportData store later) {row : Resource}
    (member : row ∈ later.resources) (notDesired : isDesired exportData row = false) :
    row ∈ store.resources := by
  rcases stopped.rows row member with old | ⟨old, -, incoming, exported, -, rfl⟩ |
    ⟨incoming, exported, -, rfl⟩
  · exact old
  · exact absurd (mergedRow_slug _ _ _).symm (slug_ne_of_not_isDesired exported notDesired)
  · exact absurd (newRow_slug (exportData.slugged incoming exported)).symm
      (slug_ne_of_not_isDesired exported notDesired)

/-- From the stopped catalogue the same edges are to go. -/
theorem removed_iff (stopped : Stopped env exportData store later) (keyed : store.Keyed)
    (sameRows : ∀ seen, Settled exportData later seen ↔ Settled exportData store seen)
    {edge : EdgeRow} (member : edge ∈ later.edges) :
    edge ∈ removedEdges exportData (rowsImported env' exportData later) ↔
      edge ∈ removedEdges exportData (rowsImported env exportData store) := by
  have sameDesired := @desiredEdges_congr env env' exportData store later keyed stopped.keyed
    sameRows
  have laterEdges := (@rowsDone_import env' exportData later stopped.keyed).edges
  have storeEdges := (@rowsDone_import env exportData store keyed).edges
  constructor
  · intro removed
    obtain ⟨-, absent, parent, child⟩ := mem_removedEdges.mp removed
    rw [sameDesired] at absent
    have old : edge ∈ store.edges := by
      refine (stopped.edges edge member).resolve_right ?_
      rintro ⟨desired, missing, same⟩
      exact absent desired missing.1 (key_of_triple same.symm).symm
    have mono := fun id => @governs_mono env env' exportData store later keyed stopped.keyed
      (fun seen => (sameRows seen).mp)
      (fun row inLater notDesired => stopped.mem_of_not_isDesired inLater notDesired) id
    exact mem_removedEdges.mpr ⟨storeEdges ▸ old, absent, mono _ parent, mono _ child⟩
  · intro removed
    obtain ⟨-, absent, parent, child⟩ := mem_removedEdges.mp removed
    rw [← sameDesired] at absent
    rcases stopped.order with undesired | allGone
    · have mono := fun id => @governs_mono env' env exportData later store stopped.keyed keyed
        (fun seen => (sameRows seen).mpr) undesired id
      exact mem_removedEdges.mpr ⟨laterEdges ▸ member, absent, mono _ parent, mono _ child⟩
    · exact absurd removed (allGone edge member)

/-- An import of the stopped catalogue ends as one of the catalogue it started from. -/
theorem sameCatalog (stopped : Stopped env exportData store later) (keyed : store.Keyed)
    (resumable : Resumable exportData store)
    (noMarker : ∀ incoming ∈ exportData.resources, HasNoMarker incoming) :
    SameCatalog (importDirectory env' exportData later) (importDirectory env exportData store) := by
  have sameRows : ∀ seen, Settled exportData later seen ↔ Settled exportData store seen :=
    fun seen => stopped.settled_iff resumable noMarker
  have sameDesired := @desiredEdges_congr env env' exportData store later keyed stopped.keyed
    sameRows
  constructor
  · apply Set.ext
    intro seen
    rw [mem_rowSet_importDirectory stopped.keyed, mem_rowSet_importDirectory keyed, sameRows]
  · apply Set.ext
    intro triple
    rw [mem_edgeSet_importDirectory stopped.keyed, mem_edgeSet_importDirectory keyed]
    unfold IsMissing
    rw [sameDesired]
    constructor
    · rintro (⟨edge, member, stays, rfl⟩ | ⟨desired, ⟨wanted, absent⟩, rfl⟩)
      · rcases stopped.edges edge member with old | added
        · exact Or.inl ⟨edge, old, fun removed => stays
            ((stopped.removed_iff keyed sameRows member).mpr removed), rfl⟩
        · exact Or.inr added
      · refine Or.inr ⟨desired, ⟨wanted, fun edge member sameKey => ?_⟩, rfl⟩
        refine absent edge (stopped.keptEdges edge member fun removed => ?_) sameKey
        exact (mem_removedEdges.mp removed).2.1 desired wanted sameKey.symm
    · rintro (⟨edge, member, stays, rfl⟩ | ⟨desired, ⟨wanted, absent⟩, rfl⟩)
      · have inLater := stopped.keptEdges edge member stays
        exact Or.inl ⟨edge, inLater, fun removed => stays
          ((stopped.removed_iff keyed sameRows inLater).mp removed), rfl⟩
      · by_cases present : ∀ edge ∈ later.edges, keyOf edge ≠ desired.key
        · exact Or.inr ⟨desired, ⟨wanted, present⟩, rfl⟩
        · simp only [not_forall, not_not] at present
          obtain ⟨edge, member, sameKey⟩ := present
          rcases stopped.edges edge member with old | ⟨other, missing, sameTriple⟩
          · exact absurd sameKey (absent edge old)
          · have otherKey := key_of_triple sameTriple.symm
            have same : other = desired := List.inj_on_of_nodup_map (desiredEdges_keys _ _)
              missing.1 wanted (otherKey.symm.trans sameKey)
            refine Or.inl ⟨edge, member, fun removed => ?_, same ▸ sameTriple.symm⟩
            exact (mem_removedEdges.mp ((stopped.removed_iff keyed sameRows member).mp removed)).2.1
              desired wanted sameKey.symm

end Stopped

end ThetaDirectory.Replication
