import ThetaDirectory.Discovery.Sweep
import ThetaDirectory.Replication.Follow
import ThetaDirectory.Replication.Frame

/-!
# Interrupted imports

An import that stops after any of its writes and runs again ends where it would have ended
in one go, as long as no row of the export has to wait for another to be deleted and each
is stored as it was exported.
-/

namespace ThetaDirectory.Replication

open Catalog Discovery Library

/-! ## Catalogues up to generated ids -/

/-- The columns of a row, its metadata read by key. -/
structure View where
  id : String
  kind : String
  name : String
  slug : String
  description : Option String
  createdBy : Option String
  metadata : String → Option Json

def view (row : Resource) : View :=
  ⟨row.id, row.kind, row.name, row.slug, row.description, row.createdBy,
    fun key => row.metadata.lookup key⟩

def rowSet (store : Store) : Set View := {seen | ∃ row ∈ store.resources, view row = seen}

theorem columns_of_view {left right : Resource} (same : view left = view right) :
    left.id = right.id ∧ left.kind = right.kind ∧ left.name = right.name ∧
      left.slug = right.slug :=
  ⟨congrArg View.id same, congrArg View.kind same, congrArg View.name same,
    congrArg View.slug same⟩

def tripleOf (edge : EdgeRow) : String × String × String :=
  (edge.parentId, edge.childId, edge.relation)

def DesiredEdge.triple (edge : DesiredEdge) : String × String × String :=
  (edge.parentId, edge.childId, edge.relation)

def edgeSet (store : Store) : Set (String × String × String) :=
  {triple | ∃ edge ∈ store.edges, tripleOf edge = triple}

/-- The same resources and the same edges between them. -/
structure SameCatalog (left right : Store) : Prop where
  rows : rowSet left = rowSet right
  edges : edgeSet left = edgeSet right

variable {env env' : Env} {origin : String} {exportData : Export} {store later : Store}

/-! ## Merging twice -/

/-- An exported row of a site that was never a spoke. -/
def HasNoMarker (row : Resource) : Prop :=
  replicatedFrom ∉ row.metadata ∧ locallyOwned ∉ row.metadata

theorem HasNoMarker.not_isMarkedLocal {row : Resource} (noMarker : HasNoMarker row) :
    isMarkedLocal row = false := by
  unfold isMarkedLocal Metadata.field
  rw [AList.lookup_eq_none.mpr noMarker.2]
  rfl

theorem isLocallyOwned_mergedRow {incoming existing : Resource}
    (owned : isLocallyOwned existing = true) :
    isLocallyOwned (mergedRow origin incoming existing) = true := by
  unfold isLocallyOwned isMarkedLocal Metadata.field
  rw [lookup_mergedRow owned, if_neg (by decide), if_pos rfl]
  rfl

theorem bare_mergedRow (origin : String) (incoming existing : Resource) :
    bare (mergedRow origin incoming existing) =
      { bare (scalarResource incoming) with id := existing.id } := by
  unfold mergedRow
  dsimp only
  split <;> rfl

theorem view_congr {left right : Resource} (sameColumns : bare left = bare right)
    (sameMetadata : ∀ key, left.metadata.lookup key = right.metadata.lookup key) :
    view left = view right := by
  simp only [bare, Resource.mk.injEq] at sameColumns
  simp only [view, View.mk.injEq]
  obtain ⟨id, kind, name, slug, description, createdBy, -⟩ := sameColumns
  exact ⟨id, kind, name, slug, description, createdBy, funext sameMetadata⟩

/-- Merging a merged row changes nothing. -/
theorem view_mergedRow_mergedRow {incoming existing : Resource} (noMarker : HasNoMarker incoming) :
    view (mergedRow exportData.origin incoming
        (mergedRow exportData.origin incoming existing)) =
      view (mergedRow exportData.origin incoming existing) := by
  have sameColumns : bare (mergedRow exportData.origin incoming
      (mergedRow exportData.origin incoming existing)) =
        bare (mergedRow exportData.origin incoming existing) := by
    rw [bare_mergedRow, bare_mergedRow, mergedRow_id]
  cases owned : isLocallyOwned existing with
  | true =>
      have again := @isLocallyOwned_mergedRow exportData.origin incoming existing owned
      refine view_congr sameColumns fun key => ?_
      rw [lookup_mergedRow again, lookup_mergedRow owned]
      split
      · rfl
      · split
        · rfl
        · rw [Option.or_assoc, Option.or_self]
  | false =>
      simp only [isLocallyOwned, Bool.or_eq_false_iff, Bool.not_eq_false'] at owned
      have merged := @mergedRow_of_follows exportData.origin incoming existing owned.2 owned.1
      have follows := @follows_of_metadata exportData incoming _ noMarker.not_isMarkedLocal
        (congrArg Resource.metadata merged)
      refine view_congr sameColumns fun key => ?_
      rw [mergedRow_of_follows follows.1 follows.2, merged]
      rfl

/-- `Resource.create` stores the row's kind and name as they are. -/
def IsComplete (incoming : Resource) : Prop :=
  (createdRow ⟨[], [], []⟩ "" incoming).kind = incoming.kind ∧
    (createdRow ⟨[], [], []⟩ "" incoming).name = incoming.name

theorem newRow_kind (origin : String) (incoming : Resource) :
    (newRow origin incoming).kind = (createdRow ⟨[], [], []⟩ "" incoming).kind := rfl

theorem newRow_name (origin : String) (incoming : Resource) :
    (newRow origin incoming).name = (createdRow ⟨[], [], []⟩ "" incoming).name := by
  simp only [newRow, createdRow, stampedRow, scalarResource, Store.rowOf, Metadata.field_insert,
    if_neg (show ¬ "subType" = replicatedFrom by decide)]
  rfl

/-- Merging a new row changes its kind and name to what the master exports. -/
theorem mergedRow_newRow {incoming : Resource} (noMarker : HasNoMarker incoming) :
    mergedRow exportData.origin incoming (newRow exportData.origin incoming) =
      followed exportData.origin incoming (newRow exportData.origin incoming) := by
  have follows := @follows_of_metadata exportData incoming _ noMarker.not_isMarkedLocal
    (newRow_metadata exportData.origin incoming)
  exact mergedRow_of_follows follows.1 follows.2

theorem view_mergedRow_newRow {incoming : Resource} (noMarker : HasNoMarker incoming)
    (slugged : trim incoming.slug ≠ "") (complete : IsComplete incoming) :
    view (mergedRow exportData.origin incoming (newRow exportData.origin incoming)) =
      view (newRow exportData.origin incoming) := by
  have kind := (newRow_kind exportData.origin incoming).trans complete.1
  have name := (newRow_name exportData.origin incoming).trans complete.2
  have slug := @newRow_slug exportData.origin incoming slugged
  rw [mergedRow_newRow noMarker]
  refine view_congr ?_ fun key => rfl
  unfold bare followed
  rw [kind, name, slug]
  rfl

/-! ## The rows an import ends with -/

/-- The rows after an import, each as it is read. -/
def Settled (exportData : Export) (store : Store) (seen : View) : Prop :=
  (∃ old ∈ store.resources, isDesired exportData old = false ∧ isReplicated old = false ∧
    view old = seen) ∨
  (∃ old ∈ store.resources, ∃ incoming ∈ exportData.resources, incoming.slug = old.slug ∧
    view (mergedRow exportData.origin incoming old) = seen) ∨
  ∃ incoming ∈ exportData.resources, IsNew store incoming ∧
    view (newRow exportData.origin incoming) = seen

theorem isDesired_of_slug {incoming row : Resource} (exported : incoming ∈ exportData.resources)
    (same : incoming.slug = row.slug) : isDesired exportData row = true :=
  isDesired_iff.mpr ⟨incoming, exported, same⟩

theorem slug_ne_of_not_isDesired {incoming row : Resource}
    (exported : incoming ∈ exportData.resources) (notDesired : isDesired exportData row = false) :
    incoming.slug ≠ row.slug := by
  intro same
  rw [isDesired_of_slug exported same] at notDesired
  contradiction

theorem eq_of_slug {incoming other : Resource} (exported : incoming ∈ exportData.resources)
    (otherExported : other ∈ exportData.resources) (same : incoming.slug = other.slug) :
    incoming = other :=
  List.inj_on_of_nodup_map exportData.slugs exported otherExported same

theorem eq_of_id {incoming other : Resource} (exported : incoming ∈ exportData.resources)
    (otherExported : other ∈ exportData.resources) (same : incoming.id = other.id) :
    incoming = other :=
  List.inj_on_of_nodup_map exportData.ids exported otherExported same

theorem mem_rowSet_importDirectory (keyed : store.Keyed) {seen : View} :
    seen ∈ rowSet (importDirectory env exportData store) ↔ Settled exportData store seen := by
  have done := @rowsDone_import env exportData store keyed
  constructor
  · rintro ⟨row, member, rfl⟩
    obtain ⟨imported, kept⟩ := (mem_importDirectory keyed).mp member
    rcases (done.mem row).mp imported with ⟨old, absent⟩ |
      ⟨old, inTable, incoming, exported, same, rfl⟩ | ⟨incoming, exported, isNew, rfl⟩
    · cases desired : isDesired exportData row with
      | true =>
          obtain ⟨incoming, exported, same⟩ := isDesired_iff.mp desired
          exact absurd same (absent incoming exported)
      | false =>
          rw [desired] at kept
          exact Or.inl ⟨row, old, desired, kept.resolve_left (by simp), rfl⟩
    · exact Or.inr (Or.inl ⟨old, inTable, incoming, exported, same, rfl⟩)
    · exact Or.inr (Or.inr ⟨incoming, exported, isNew, rfl⟩)
  · rintro (⟨old, member, notDesired, notStamped, rfl⟩ |
      ⟨old, inTable, incoming, exported, same, rfl⟩ | ⟨incoming, exported, isNew, rfl⟩)
    · refine ⟨old, (mem_importDirectory keyed).mpr ⟨(done.mem old).mpr (Or.inl ⟨member, ?_⟩),
        Or.inr notStamped⟩, rfl⟩
      exact fun incoming exported => slug_ne_of_not_isDesired exported notDesired
    · refine ⟨_, (mem_importDirectory keyed).mpr ⟨(done.mem _).mpr (Or.inr (Or.inl
        ⟨old, inTable, incoming, exported, same, rfl⟩)), Or.inl ?_⟩, rfl⟩
      exact isDesired_of_slug exported (mergedRow_slug _ _ _).symm
    · refine ⟨_, (mem_importDirectory keyed).mpr ⟨(done.mem _).mpr (Or.inr (Or.inr
        ⟨incoming, exported, isNew, rfl⟩)), Or.inl ?_⟩, rfl⟩
      exact isDesired_of_slug exported (newRow_slug (exportData.slugged incoming exported)).symm

/-! ## The edges an import ends with -/

section Edges

theorem setDesired_keys (desired : List DesiredEdge) (edge : DesiredEdge)
    (nodup : (desired.map (·.key)).Nodup) : ((setDesired desired edge).map (·.key)).Nodup := by
  unfold setDesired
  split
  · have unchanged : (desired.map fun other => if other.key == edge.key then edge else other).map
        (·.key) = desired.map (·.key) := by
      rw [List.map_map]
      refine List.map_congr_left fun other _ => ?_
      rw [Function.comp_apply]
      split
      · rename_i same
        exact (beq_iff_eq.mp same).symm
      · rfl
    rw [unchanged]
    exact nodup
  · rename_i absent
    simp only [List.any_eq_true, beq_iff_eq, not_exists, not_and] at absent
    rw [List.map_append, List.map_singleton]
    refine List.Nodup.append nodup (List.nodup_singleton _) ?_
    intro key old new
    obtain ⟨other, member, rfl⟩ := List.mem_map.mp old
    exact absent other member (List.mem_singleton.mp new)

/-- No two desired edges mean the same. -/
theorem desiredEdges_keys (exportData : Export) (rows : List Resource) :
    ((desiredEdges exportData rows).map (·.key)).Nodup := by
  unfold desiredEdges
  induction exportData.edges.filterMap (localEdge exportData rows) using List.reverseRecOn with
  | nil => exact List.nodup_nil
  | append_singleton edges edge ih =>
      rw [List.foldl_append, List.foldl_cons, List.foldl_nil]
      exact setDesired_keys _ _ ih

theorem key_of_triple {edge : EdgeRow} {desired : DesiredEdge}
    (same : tripleOf edge = desired.triple) : keyOf edge = desired.key := by
  simp only [tripleOf, DesiredEdge.triple, Prod.mk.injEq] at same
  unfold keyOf DesiredEdge.key
  rw [same.1, same.2.1, same.2.2]

/-- An edge the master has and the table has not. -/
def IsMissing (exportData : Export) (rows : List Resource) (edges : List EdgeRow)
    (desired : DesiredEdge) : Prop :=
  desired ∈ desiredEdges exportData rows ∧ ∀ edge ∈ edges, keyOf edge ≠ desired.key

/-- The edges to add, by what they mean. -/
theorem exists_addedEdges_iff {triple : String × String × String} :
    (∃ edge ∈ addedEdges env exportData store, tripleOf edge = triple) ↔
      ∃ desired, IsMissing exportData store.resources store.edges desired ∧
        desired.triple = triple := by
  have triples : (addedEdges env exportData store).map tripleOf =
      ((desiredEdges exportData store.resources).filter fun edge =>
        !store.edges.any fun row => keyOf row == edge.key).map DesiredEdge.triple := by
    unfold addedEdges
    generalize (desiredEdges exportData store.resources).filter _ = missing
    rw [List.map_map, ← List.zipIdx_map_fst 0 missing, List.map_map, List.zipIdx_map_fst]
    rfl
  rw [← List.mem_map, triples, List.mem_map]
  simp only [IsMissing, List.mem_filter, Bool.not_eq_true', List.any_eq_false, beq_iff_eq]

theorem key_of_mem_addedEdges {edge : EdgeRow} (added : edge ∈ addedEdges env exportData store) :
    ∃ desired ∈ desiredEdges exportData store.resources, desired.key = keyOf edge := by
  obtain ⟨desired, missing, same⟩ := exists_addedEdges_iff.mp ⟨edge, added, rfl⟩
  exact ⟨desired, missing.1, (key_of_triple same.symm).symm⟩

theorem mem_edgeSet_importDirectory (keyed : store.Keyed) {triple : String × String × String} :
    triple ∈ edgeSet (importDirectory env exportData store) ↔
      (∃ edge ∈ store.edges, edge ∉ removedEdges exportData (rowsImported env exportData store) ∧
        tripleOf edge = triple) ∨
      ∃ desired, IsMissing exportData (rowsImported env exportData store).resources store.edges
        desired ∧ desired.triple = triple := by
  have sameEdges := (@rowsDone_import env exportData store keyed).edges
  rw [← sameEdges, ← @exists_addedEdges_iff env]
  constructor
  · rintro ⟨edge, member, same⟩
    obtain ⟨old | added, stays⟩ := (mem_edges_importDirectory keyed).mp member
    · exact Or.inl ⟨edge, sameEdges ▸ old, stays, same⟩
    · exact Or.inr ⟨edge, added, same⟩
  · rintro (⟨edge, old, stays, same⟩ | ⟨edge, added, same⟩)
    · exact ⟨edge, (mem_edges_importDirectory keyed).mpr ⟨Or.inl (sameEdges ▸ old), stays⟩, same⟩
    · refine ⟨edge, (mem_edges_importDirectory keyed).mpr ⟨Or.inr added, fun removed => ?_⟩, same⟩
      obtain ⟨desired, isDesired, sameKey⟩ := key_of_mem_addedEdges added
      exact (mem_removedEdges.mp removed).2.1 desired isDesired sameKey

end Edges

end ThetaDirectory.Replication
