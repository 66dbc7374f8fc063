import ThetaDirectory.Catalog.Resource
import ThetaDirectory.Catalog.Slug
import ThetaDirectory.Groups.Provisioning

/-!
# The catalogue tables

The tables discovery works on, `Resource.create` (`models/resource.js`) and the
deletion of a row with everything that names it.  A create fails on an id or a slug
that is taken; other writes succeed.
-/

namespace ThetaDirectory.Discovery

open Library Catalog

/-- A row of the `ResourceEdge` table; both ends are required. -/
structure EdgeRow where
  id : String
  parentId : String
  childId : String
  relation : String
  source : Option String
  deriving DecidableEq, Repr

/-- The edge leads from the parent to the child. -/
def IsChild (edges : List EdgeRow) (parent child : String) : Prop :=
  ∃ edge ∈ edges, edge.parentId = parent ∧ edge.childId = child

structure Store where
  resources : List Resource
  edges : List EdgeRow
  groups : List Groups.ResourceGroup

/-- Time and randomness a run draws on. -/
structure Env where
  now : Int
  uuid : Nat → String
  hex : Nat → String

/-- The fields a create is called with. -/
structure NewResource where
  id : String
  kind : String
  name : String
  slug : String
  metadata : Metadata

/-- The first letter in upper case; letters outside ASCII stay as they are. -/
def capitalize (text : String) : String :=
  match text.toList with
  | [] => ""
  | char :: rest => String.ofList (char.toUpper :: rest)

namespace Store

def find (store : Store) (id : String) : Option Resource :=
  store.resources.find? fun row => row.id == id

/-- Change the row with this id. -/
def update (store : Store) (id : String) (change : Resource → Resource) : Store :=
  { store with resources := store.resources.map fun row => if row.id = id then change row else row }

/-- Delete a row, its edges and its group links. -/
def purge (store : Store) (id : String) : Store where
  resources := store.resources.filter fun row => row.id ≠ id
  edges := store.edges.filter fun edge => edge.childId ≠ id ∧ edge.parentId ≠ id
  groups := store.groups.filter fun link => link.resourceId ≠ id

/-- The row `Resource.create` writes: blank names and slugs are filled in. -/
def rowOf (store : Store) (suffix : String) (data : NewResource) : Resource :=
  let kind := if data.kind = "" then "service" else data.kind
  let subType := (data.metadata.field "subType").str?.getD ""
  let name :=
    if trim data.name = "" then
      if subType = "" then "New " ++ capitalize kind else capitalize subType ++ " " ++ kind
    else data.name
  let slug :=
    if trim data.slug = "" then
      let taken := store.resources.any fun row => row.slug == generatedSlug kind name false suffix
      generatedSlug kind name taken suffix
    else data.slug
  { id := data.id, kind, name, slug, description := none, createdBy := none
    metadata := data.metadata }

/-- Add a row unless its id or slug is taken. -/
def create (store : Store) (suffix : String) (data : NewResource) :
    Except String (Resource × Store) :=
  let row := store.rowOf suffix data
  if store.resources.any fun old => old.id == row.id || old.slug == row.slug then
    .error "SequelizeUniqueConstraintError"
  else .ok (row, { store with resources := store.resources ++ [row] })

theorem mem_update {store : Store} {id : String} {change : Resource → Resource} {row : Resource}
    (member : row ∈ store.resources) (different : row.id ≠ id) :
    row ∈ (store.update id change).resources :=
  List.mem_map.mpr ⟨row, member, if_neg different⟩

theorem mem_update_iff {store : Store} {id : String} {change : Resource → Resource}
    {found : Resource} : found ∈ (store.update id change).resources ↔
      (∃ row ∈ store.resources, row.id = id ∧ change row = found) ∨
        (found ∈ store.resources ∧ found.id ≠ id) := by
  unfold update
  rw [List.mem_map]
  constructor
  · rintro ⟨row, member, rfl⟩
    by_cases same : row.id = id
    · exact Or.inl ⟨row, member, same, (if_pos same).symm⟩
    · rw [if_neg same]
      exact Or.inr ⟨member, same⟩
  · rintro (⟨row, member, same, rfl⟩ | ⟨member, different⟩)
    · exact ⟨row, member, if_pos same⟩
    · exact ⟨found, member, if_neg different⟩

theorem rowOf_id (store : Store) (suffix : String) (data : NewResource) :
    (store.rowOf suffix data).id = data.id := rfl

theorem create_ok {store next : Store} {suffix : String} {data : NewResource} {row : Resource}
    (created : store.create suffix data = .ok (row, next)) :
    row = store.rowOf suffix data ∧ next = { store with resources := store.resources ++ [row] } ∧
      ∀ old ∈ store.resources, old.id ≠ row.id ∧ old.slug ≠ row.slug := by
  unfold create at created
  dsimp only at created
  split at created
  · contradiction
  · rename_i free
    cases created
    refine ⟨rfl, rfl, ?_⟩
    intro old member
    simp only [List.any_eq_true, Bool.or_eq_true, beq_iff_eq, not_exists, not_and, not_or] at free
    exact free old member

/-- The primary key and the unique slug of the table. -/
structure Keyed (store : Store) : Prop where
  ids : (store.resources.map (·.id)).Nodup
  slugs : (store.resources.map (·.slug)).Nodup

theorem Keyed.eq_of_id {store : Store} (keyed : store.Keyed) {row other : Resource}
    (member : row ∈ store.resources) (otherMember : other ∈ store.resources)
    (same : row.id = other.id) : row = other :=
  List.inj_on_of_nodup_map keyed.ids member otherMember same

theorem Keyed.eq_of_slug {store : Store} (keyed : store.Keyed) {row other : Resource}
    (member : row ∈ store.resources) (otherMember : other ∈ store.resources)
    (same : row.slug = other.slug) : row = other :=
  List.inj_on_of_nodup_map keyed.slugs member otherMember same

theorem Keyed.add {store : Store} {row : Resource} (keyed : store.Keyed)
    (free : ∀ old ∈ store.resources, old.id ≠ row.id ∧ old.slug ≠ row.slug) :
    Store.Keyed { store with resources := store.resources ++ [row] } := by
  have apart : ∀ {key : Resource → String}, (∀ old ∈ store.resources, key old ≠ key row) →
      (store.resources.map key).Nodup → ((store.resources ++ [row]).map key).Nodup := by
    intro key fresh nodup
    rw [List.map_append]
    refine List.Nodup.append nodup (by simp) ?_
    intro value old new
    obtain ⟨other, member, rfl⟩ := List.mem_map.mp old
    exact fresh other member (by simpa using new)
  exact ⟨apart (fun old member => (free old member).1) keyed.ids,
    apart (fun old member => (free old member).2) keyed.slugs⟩

theorem Keyed.create {store next : Store} {suffix : String} {data : NewResource} {row : Resource}
    (keyed : store.Keyed) (created : store.create suffix data = .ok (row, next)) :
    next.Keyed := by
  obtain ⟨-, rfl, free⟩ := create_ok created
  exact keyed.add free

/-- A row may take the place of the one with its keys. -/
theorem Keyed.replace {store : Store} {row existing : Resource} (keyed : store.Keyed)
    (member : existing ∈ store.resources) (sameId : row.id = existing.id)
    (sameSlug : row.slug = existing.slug) : (store.update row.id fun _ => row).Keyed := by
  have unchanged : ∀ {key : Resource → String}, key row = key existing →
      (store.update row.id fun _ => row).resources.map key = store.resources.map key := by
    intro key same
    simp only [Store.update, List.map_map]
    refine List.map_congr_left fun other inTable => ?_
    rw [Function.comp_apply]
    split
    · rename_i isRow
      rw [same, keyed.eq_of_id member inTable (sameId.symm.trans isRow.symm)]
    · rfl
  exact ⟨(unchanged sameId).symm ▸ keyed.ids, (unchanged sameSlug).symm ▸ keyed.slugs⟩

theorem Keyed.update {store : Store} {id : String} {change : Resource → Resource}
    (keyed : store.Keyed) (sameId : ∀ row, (change row).id = row.id)
    (sameSlug : ∀ row, (change row).slug = row.slug) : (store.update id change).Keyed := by
  have unchanged : ∀ {key : Resource → String}, (∀ row, key (change row) = key row) →
      (store.update id change).resources.map key = store.resources.map key := by
    intro key same
    simp only [Store.update, List.map_map]
    refine List.map_congr_left fun row _ => ?_
    rw [Function.comp_apply]
    split
    · exact same row
    · rfl
  exact ⟨(unchanged sameId).symm ▸ keyed.ids, (unchanged sameSlug).symm ▸ keyed.slugs⟩

end Store

end ThetaDirectory.Discovery
