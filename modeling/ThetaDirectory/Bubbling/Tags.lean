import ThetaDirectory.Bubbling.Graph

/-!
# Bubbled tags

`getTags` caches what it finds also where the set of visited resources cut it short.  The tags of a
resource are then those met along steps that do not turn back to a resource the walk came through.
-/

namespace ThetaDirectory.Bubbling

open Catalog Library Library.Gathering

variable {rows : List Resource} {edges : List ResourceEdge} {row : Resource}

/-! ## Sets of tags -/

theorem mem_addTag {tags : List Json} {tag other : Json} :
    other ∈ addTag tags tag ↔ other ∈ tags ∨ other = tag := by
  unfold addTag
  split
  · rename_i listed
    obtain ⟨present, member, equal⟩ := List.any_eq_true.mp listed
    have isTag := Json.eq_of_same equal
    refine (or_iff_left_of_imp fun same => ?_).symm
    rwa [same, isTag]
  · rw [List.mem_append, List.mem_singleton]

theorem mem_addTags {tags more : List Json} {tag : Json} :
    tag ∈ addTags tags more ↔ tag ∈ tags ∨ tag ∈ more := by
  induction more generalizing tags with
  | nil => exact (or_iff_left List.not_mem_nil).symm
  | cons first more ih =>
      change tag ∈ addTags (addTag tags first) more ↔ _
      rw [ih, mem_addTag, or_assoc, List.mem_cons]

/-! ## Resources that are met -/

section Walk

variable (rows : List Resource) (edges : List ResourceEdge)

/-- The ways of the walk for all rows, in their order. -/
def tagWays : List (List String) :=
  trails (tagRules rows edges) (depthOf rows) (rows.map (·.id))

/-- The row is reached along steps that do not turn back. -/
def Met (row lower : Resource) : Prop :=
  lower ∈ rows ∧ Counts (tagRules rows edges) (tagWays rows edges) row.id lower.id

/-- The bubbled tags are the tags at or under the resource. -/
def Complete (row out : Resource) : Prop :=
  ∀ tag, tag ∈ (out.metadata.field "bubbled_tags").items ↔
    ∃ lower, Under rows edges row lower ∧ tag ∈ tagsOf lower

/-- Each tag at or under the resource is the tag of a resource that is met. -/
def Carried (row : Resource) : Prop :=
  ∀ lower, Under rows edges row lower → ∀ tag ∈ tagsOf lower,
    ∃ source, Met rows edges row source ∧ tag ∈ tagsOf source

end Walk

theorem Met.under {lower : Resource} (met : Met rows edges row lower) : Under rows edges row lower :=
  under_of_counts (ways_trails _ _) met.1 met.2

/-- What is joined for a row are the tags of the resources that are met. -/
theorem mem_iff_of_joins (distinct : (rows.map (·.id)).Nodup) {tags : List Json}
    (joins : Joins (tagRules rows edges)
      (Counts (tagRules rows edges) (tagWays rows edges) row.id) tags) (tag : Json) :
    tag ∈ tags ↔ ∃ source, Met rows edges row source ∧ tag ∈ tagsOf source := by
  constructor
  · apply joins.sound fun tags =>
      tag ∈ tags → ∃ source, Met rows edges row source ∧ tag ∈ tagsOf source
    · exact fun listed => absurd listed List.not_mem_nil
    · intro first second ofFirst ofSecond listed
      exact (mem_addTags.mp listed).elim ofFirst ofSecond
    · intro key own counts isOwn listed
      obtain ⟨source, isRow, rfl⟩ := Option.map_eq_some_iff.mp isOwn
      obtain ⟨member, rfl⟩ := (findRow_eq_some distinct).mp isRow
      exact ⟨source, ⟨member, counts⟩, (mem_addTags.mp listed).resolve_left List.not_mem_nil⟩
  · intro carried
    obtain ⟨source, ⟨member, counts⟩, listed⟩ := carried
    have isOwn : (tagRules rows edges).own source.id = some (addTags [] (tagsOf source)) :=
      Option.map_eq_some_iff.mpr ⟨source, (findRow_eq_some distinct).mpr ⟨member, rfl⟩, rfl⟩
    exact joins.complete (tag ∈ ·) (fun _ _ either => mem_addTags.mpr either) source.id _ counts isOwn
      (mem_addTags.mpr (Or.inr listed))

/-! ## The loop -/

theorem complete_carried_iff (distinct : (rows.map (·.id)).Nodup) {caches : Caches}
    (joins : Joins (tagRules rows edges) (Counts (tagRules rows edges) (tagWays rows edges) row.id)
      (gather (tagRules rows edges) (depthOf rows) row.id ⟨[], caches.tags⟩).1) :
    Complete rows edges row (bubble rows edges caches row).1 ↔ Carried rows edges row := by
  have written : (bubble rows edges caches row).1.metadata.field "bubbled_tags" = .arr
      (gather (tagRules rows edges) (depthOf rows) row.id ⟨[], caches.tags⟩).1 :=
    field_withBubbled _ _ _ _ _
  have found := mem_iff_of_joins distinct joins
  unfold Complete
  rw [written]
  constructor
  · intro complete lower under tag listed
    exact (found tag).mp ((complete tag).mpr ⟨lower, under, listed⟩)
  · intro carried tag
    apply (found tag).trans
    constructor
    · intro present
      obtain ⟨source, met, listed⟩ := present
      exact ⟨source, met.under, listed⟩
    · intro present
      obtain ⟨lower, under, listed⟩ := present
      exact carried lower under tag listed

/-- In every round what is joined for the row is what counts for it. -/
theorem forall₂_joined {holds : Resource → Resource → Prop}
    (each : ∀ row ∈ rows, ∀ caches : Caches,
      Joins (tagRules rows edges) (Counts (tagRules rows edges) (tagWays rows edges) row.id)
        (gather (tagRules rows edges) (depthOf rows) row.id ⟨[], caches.tags⟩).1 →
          holds row (bubble rows edges caches row).1) :
    List.Forall₂ holds rows (getGraph rows edges) := by
  apply forall₂_getGraph rows edges fun done caches =>
    Tracks (tagRules rows edges) (tagWays rows edges) []
      (trails (tagRules rows edges) (depthOf rows) (done.map (·.id))) ⟨[], caches.tags⟩
  · exact tracks_nil
  · intro done row rest caches split tracks
    have member : row ∈ rows := split ▸ List.mem_append_cons_self
    have enough : (rows.map (·.id)).length < depthOf rows := by
      rw [List.length_map]
      exact Nat.lt_succ_self _
    have next : trails (tagRules rows edges) (depthOf rows) ((done ++ [row]).map (·.id)) =
        trail (tagRules rows edges) (depthOf rows) [] row.id
          (trails (tagRules rows edges) (depthOf rows) (done.map (·.id))) := by
      rw [List.map_append, List.map_singleton, trails_concat]
    have inFinal : trails (tagRules rows edges) (depthOf rows) ((done ++ [row]).map (·.id)) ⊆
        tagWays rows edges := by
      unfold tagWays
      have ids : rows.map (·.id) = (done ++ [row]).map (·.id) ++ rest.map (·.id) := by
        rw [split, ← List.map_append, List.append_assoc]
        rfl
      rw [ids]
      exact trails_subset _ _ _
    rw [next] at inFinal ⊢
    obtain ⟨kept, joins⟩ := gather_call (ways_trails _ _) (fun _ there => mem_of_rulesOf there)
      tracks enough inFinal
    exact ⟨each row member caches joins, kept⟩

/-- Without cycles every resource under a resource is met. -/
theorem carried_of_acyclic (acyclic : ∀ id, ¬ Relation.TransGen (StepDown rows edges) id id) :
    Carried rows edges row := by
  have steps : Below (tagRules rows edges) = StepDown rows edges := below_rulesOf
  intro lower under tag listed
  refine ⟨lower, ⟨under.1, ?_⟩, listed⟩
  apply counts_of_atOrBelow (leading_trails _ _)
  · intro id there
    exact entered_trails (mem_of_rulesOf there) there
  · rwa [steps]
  · unfold AtOrBelow
    rw [steps]
    exact under.2

/-- Where the stored resources have no cycle the bubbled tags are complete. -/
theorem getGraph_complete_of_acyclic (distinct : (rows.map (·.id)).Nodup)
    (acyclic : ∀ id, ¬ Relation.TransGen (StepDown rows edges) id id) :
    List.Forall₂ (Complete rows edges) rows (getGraph rows edges) := by
  apply forall₂_joined
  intro row _ caches joins
  exact (complete_carried_iff distinct joins).mpr (carried_of_acyclic acyclic)

/-! ## A cycle -/

/-- A host with a tag of its own name. -/
def taggedHost (name : String) : Resource where
  id := name
  kind := "host"
  name := name
  slug := name
  description := none
  createdBy := none
  metadata := AList.insert "tags" (.arr [.str name]) ∅

def linkTo (parentId childId : String) : ResourceEdge where
  parentId := some parentId
  childId := some childId
  relation := "contains"
  source := none

/-- Two hosts that are each under the other. -/
def knot : List ResourceEdge := [linkTo "first" "second", linkTo "second" "first"]

end ThetaDirectory.Bubbling
