import ThetaDirectory.Discovery.Store

/-!
# Sweeping the table

A loop over the rows that deletes some with all that names them and changes only the
metadata of the others.
-/

namespace ThetaDirectory.Discovery

open Library Catalog

/-- A row without its metadata. -/
def bare (row : Resource) : Resource := { row with metadata := ∅ }

/-- The step deletes a doomed row and keeps all but the metadata otherwise. -/
structure Sweeps (step : Store → Resource → Store) (doomed : Resource → Bool) : Prop where
  purges : ∀ store row, doomed row = true → step store row = store.purge row.id
  spares : ∀ store row, doomed row = false → (step store row).edges = store.edges ∧
    (step store row).groups = store.groups ∧
      (step store row).resources.map bare = store.resources.map bare

theorem map_bare_update (store : Store) (id : String) (metadata : Resource → Metadata) :
    (store.update id fun row => { row with metadata := metadata row }).resources.map bare =
      store.resources.map bare := by
  simp only [Store.update, List.map_map]
  refine List.map_congr_left fun row _ => ?_
  rw [Function.comp_apply]
  split <;> rfl

/-- The ids of a table are those of its bare rows. -/
theorem exists_id_iff {rows : List Resource} {id : String} :
    (∃ row ∈ rows, row.id = id) ↔ ∃ found ∈ rows.map bare, found.id = id := by
  constructor
  · rintro ⟨row, member, idEq⟩
    exact ⟨bare row, List.mem_map_of_mem member, idEq⟩
  · rintro ⟨found, member, idEq⟩
    obtain ⟨row, inRows, rfl⟩ := List.mem_map.mp member
    exact ⟨row, inRows, idEq⟩

/-- The catalogue after the doomed rows of a list are gone. -/
structure Swept (doomed : Resource → Prop) (store later : Store) : Prop where
  edges : ∀ edge, edge ∈ later.edges ↔ edge ∈ store.edges ∧
    ∀ row, doomed row → edge.childId ≠ row.id ∧ edge.parentId ≠ row.id
  groups : ∀ link, link ∈ later.groups ↔ link ∈ store.groups ∧
    ∀ row, doomed row → link.resourceId ≠ row.id
  rows : ∀ found, found ∈ later.resources.map bare ↔ found ∈ store.resources.map bare ∧
    ∀ row, doomed row → found.id ≠ row.id

theorem swept_foldl {step : Store → Resource → Store} {doomed : Resource → Bool}
    (sweeps : Sweeps step doomed) (rows : List Resource) (store : Store) :
    Swept (fun row => row ∈ rows ∧ doomed row = true) store (rows.foldl step store) := by
  induction rows generalizing store with
  | nil => exact ⟨by simp, by simp, by simp⟩
  | cons row rows ih =>
      obtain ⟨edges, links, resources⟩ := ih (step store row)
      rw [List.foldl_cons]
      cases gone : doomed row with
      | true =>
          rw [sweeps.purges store row gone] at edges links resources ⊢
          refine ⟨fun edge => ?_, fun link => ?_, fun found => ?_⟩
          · rw [edges edge]
            simp [Store.purge, gone, and_assoc]
          · rw [links link]
            simp [Store.purge, gone, and_assoc]
          · rw [resources found]
            have kept : found ∈ (store.purge row.id).resources.map bare ↔
                found ∈ store.resources.map bare ∧ found.id ≠ row.id := by
              simp only [Store.purge, List.mem_map, List.mem_filter, decide_eq_true_eq]
              constructor
              · rintro ⟨old, ⟨member, different⟩, rfl⟩
                exact ⟨⟨old, member, rfl⟩, different⟩
              · rintro ⟨⟨old, member, rfl⟩, different⟩
                exact ⟨old, ⟨member, different⟩, rfl⟩
            rw [kept]
            simp [gone, and_assoc]
      | false =>
          obtain ⟨sameEdges, sameLinks, sameRows⟩ := sweeps.spares store row gone
          refine ⟨fun edge => ?_, fun link => ?_, fun found => ?_⟩
          · rw [edges edge, sameEdges]
            simp [gone]
          · rw [links link, sameLinks]
            simp [gone]
          · rw [resources found, sameRows]
            simp [gone]

/-- The rows that are left are among the old ones, in the old order. -/
theorem sublist_foldl {step : Store → Resource → Store} {doomed : Resource → Bool}
    (sweeps : Sweeps step doomed) (rows : List Resource) (store : Store) :
    List.Sublist ((rows.foldl step store).resources.map bare) (store.resources.map bare) := by
  induction rows generalizing store with
  | nil => exact List.Sublist.refl _
  | cons row rows ih =>
      refine (ih (step store row)).trans ?_
      cases gone : doomed row with
      | true =>
          rw [sweeps.purges store row gone]
          exact List.filter_sublist.map bare
      | false => rw [(sweeps.spares store row gone).2.2]

theorem Store.Keyed.of_sublist {store later : Store} (keyed : store.Keyed)
    (fewer : List.Sublist (later.resources.map bare) (store.resources.map bare)) : later.Keyed := by
  have keys : ∀ key : Resource → String, (∀ row, key (bare row) = key row) →
      List.Sublist (later.resources.map key) (store.resources.map key) := by
    intro key same
    have mapped := fewer.map key
    simpa only [List.map_map, Function.comp_def, same] using mapped
  exact ⟨keyed.ids.sublist (keys _ fun _ => rfl), keyed.slugs.sublist (keys _ fun _ => rfl)⟩

/-- The ids that are left. -/
theorem Swept.ids {doomed : Resource → Prop} {store later : Store}
    (swept : Swept doomed store later) {id : String} :
    (∃ row ∈ later.resources, row.id = id) ↔ (∃ row ∈ store.resources, row.id = id) ∧
      ∀ row, doomed row → id ≠ row.id := by
  rw [exists_id_iff, @exists_id_iff store.resources]
  constructor
  · rintro ⟨found, member, rfl⟩
    obtain ⟨old, stays⟩ := (swept.rows found).mp member
    exact ⟨⟨found, old, rfl⟩, stays⟩
  · rintro ⟨⟨found, member, rfl⟩, stays⟩
    exact ⟨found, (swept.rows found).mpr ⟨member, stays⟩, rfl⟩

end ThetaDirectory.Discovery
