import ThetaDirectory.Discovery.Reconcile

/-!
# What the loop over the resources does

What one resource of a payload does to the catalogue, and from it what the whole loop
does: rows it does not report stay as they are, and rows that share nothing with the
payload are not reported.
-/

namespace ThetaDirectory.Discovery

open Library Catalog

variable {context : Context} {start run next : Run} {item : Item}

/-! ## One resource -/

/-- The id a resource gets when it is created. -/
def newId (env : Env) (draws : Nat) (item : Item) : String :=
  (truthy item.id).getD (env.uuid draws)

/-- The row could be taken for the item, whatever the sites. -/
def CouldMatch (cache : TemplateCache) (item : Item) (row : Resource) : Prop :=
  isCandidate cache item row = true ∧ Shares item row

/-- What placing a resource can do: merge it into a row it matches, or add a row. -/
theorem placeItem_cases (placed : placeItem context run item = .ok next) :
    (∃ existing ∈ run.store.resources, CouldMatch context.cache item existing ∧
      next = { run with
        store := run.store.update existing.id (mergeRow context existing item)
        reported := run.reported ++ [⟨item.slug, existing.id⟩] }) ∨
    (∃ row, row = run.store.rowOf (context.env.hex (run.draws + 1))
        (newResource context run.draws item) ∧
      (∀ old ∈ run.store.resources, old.id ≠ row.id ∧ old.slug ≠ row.slug) ∧
      next = {
        store := { run.store with resources := run.store.resources ++ [row] }
        siteOf := run.siteOf.insert row.id context.incomingSiteId
        reported := run.reported ++ [⟨item.slug, row.id⟩]
        draws := run.draws + 2 }) := by
  unfold placeItem at placed
  cases found : matchOf context run item with
  | some existing =>
      rw [found] at placed
      obtain ⟨inPool, shares⟩ := findExistingMatch_spec found
      rw [List.mem_filter] at inPool
      exact Or.inl ⟨existing, inPool.1, ⟨inPool.2, shares⟩, (Except.ok.inj placed).symm⟩
  | none =>
      rw [found] at placed
      cases created : run.store.create (context.env.hex (run.draws + 1))
        (newResource context run.draws item) with
      | error error =>
          rw [created] at placed
          contradiction
      | ok result =>
          obtain ⟨row, store⟩ := result
          rw [created] at placed
          obtain ⟨rowEq, storeEq, free⟩ := Store.create_ok created
          refine Or.inr ⟨row, rowEq, free, ?_⟩
          rw [← Except.ok.inj placed, storeEq]

/-- The loop carries an invariant of its state that every resource keeps, also to the
state an exception leaves behind. -/
theorem placeAll_invariant {Inv : Run → Prop} {items : List Item}
    (step : ∀ run item next, item ∈ items → Inv run → placeItem context run item = .ok next →
      Inv next) (initial : Inv start) : Inv (placeAll context items start).1 := by
  induction items generalizing start with
  | nil => exact initial
  | cons item items ih =>
      unfold placeAll
      cases placed : placeItem context start item with
      | ok next =>
          exact ih (fun run other next member => step run other next (List.mem_cons_of_mem _ member))
            (step start item next List.mem_cons_self initial placed)
      | error error => exact initial

/-! ## Rows the loop does not report -/

/-- Rows are only changed where they are reported, and none goes away. -/
structure Kept (start run : Run) : Prop where
  edges : run.store.edges = start.store.edges
  groups : run.store.groups = start.store.groups
  unreported : ∀ row ∈ start.store.resources,
    (∀ item ∈ run.reported, item.actualId ≠ row.id) → row ∈ run.store.resources
  persists : ∀ row ∈ start.store.resources,
    ∃ later ∈ run.store.resources, later.id = row.id ∧ later.kind = row.kind
  reported : ∀ row ∈ run.store.resources, row ∈ start.store.resources ∨
    ∃ item ∈ run.reported, item.actualId = row.id

theorem Kept.refl (start : Run) : Kept start start where
  edges := rfl
  groups := rfl
  unreported := fun _ member _ => member
  persists := fun row member => ⟨row, member, rfl, rfl⟩
  reported := fun _ member => Or.inl member

theorem Kept.place (kept : Kept start run) (placed : placeItem context run item = .ok next) :
    Kept start next := by
  rcases placeItem_cases placed with ⟨existing, existingMember, -, rfl⟩ | ⟨row, -, -, rfl⟩
  · refine ⟨kept.edges, kept.groups, ?_, ?_, ?_⟩
    · intro row member unreported
      have different : row.id ≠ existing.id := fun same =>
        unreported ⟨item.slug, existing.id⟩ (by simp) same.symm
      refine Store.mem_update (kept.unreported row member fun other otherMember => ?_) different
      exact unreported other (List.mem_append_left _ otherMember)
    · intro row member
      obtain ⟨later, laterMember, idEq, kindEq⟩ := kept.persists row member
      by_cases same : later.id = existing.id
      · exact ⟨mergeRow context existing item later,
          Store.mem_update_iff.mpr (Or.inl ⟨later, laterMember, same, rfl⟩), idEq, kindEq⟩
      · exact ⟨later, Store.mem_update laterMember same, idEq, kindEq⟩
    · intro row member
      rcases Store.mem_update_iff.mp member with ⟨old, -, same, rfl⟩ | ⟨old, -⟩
      · exact Or.inr ⟨⟨item.slug, existing.id⟩, by simp, same.symm⟩
      · rcases kept.reported row old with before | ⟨other, otherMember, same⟩
        · exact Or.inl before
        · exact Or.inr ⟨other, List.mem_append_left _ otherMember, same⟩
  · refine ⟨kept.edges, kept.groups, ?_, ?_, ?_⟩
    · intro old member unreported
      refine List.mem_append_left _ (kept.unreported old member fun other otherMember => ?_)
      exact unreported other (List.mem_append_left _ otherMember)
    · intro old member
      obtain ⟨later, laterMember, same⟩ := kept.persists old member
      exact ⟨later, List.mem_append_left _ laterMember, same⟩
    · intro found member
      rcases List.mem_append.mp member with old | new
      · rcases kept.reported found old with before | ⟨other, otherMember, same⟩
        · exact Or.inl before
        · exact Or.inr ⟨other, List.mem_append_left _ otherMember, same⟩
      · obtain rfl := List.mem_singleton.mp new
        exact Or.inr ⟨⟨item.slug, found.id⟩, by simp, rfl⟩

/-- The loop keeps what it does not report. -/
theorem kept_placeAll (context : Context) (items : List Item) (start : Run) :
    Kept start (placeAll context items start).1 :=
  placeAll_invariant (fun _ _ _ _ kept placed => kept.place placed) (Kept.refl start)

/-! ## Rows that share nothing with the payload -/

/-- The payload cannot be taken for a row with such an id, and creates none. -/
structure Avoids (cache : TemplateCache) (spared : String → Prop) (items : List Item)
    (resources : List Resource) : Prop where
  notMatched : ∀ row ∈ resources, spared row.id → ∀ item ∈ items, ¬ CouldMatch cache item row
  notNamed : ∀ item ∈ items, ∀ id, truthy item.id = some id → ¬ spared id

/-- The rows with such an id are the same before and after, and none is reported. -/
structure Spared (spared : String → Prop) (start run : Run) : Prop where
  iff : ∀ row, spared row.id → (row ∈ run.store.resources ↔ row ∈ start.store.resources)
  notReported : ∀ item ∈ run.reported, ¬ spared item.actualId
  draws : 2 ≤ run.draws

theorem Spared.place {spared : String → Prop} {items : List Item}
    (avoids : Avoids context.cache spared items start.store.resources)
    (notDrawn : ∀ draw, 2 ≤ draw → ¬ spared (context.env.uuid draw))
    (kept : Spared spared start run) (member : item ∈ items) (placed : placeItem context run item = .ok next) :
    Spared spared start next := by
  rcases placeItem_cases placed with ⟨existing, existingMember, could, rfl⟩ | ⟨row, rowEq, -, rfl⟩
  · have notSpared : ¬ spared existing.id := fun isSpared =>
      avoids.notMatched existing ((kept.iff existing isSpared).mp existingMember) isSpared item
        member could
    refine ⟨?_, ?_, kept.draws⟩
    · intro row isSpared
      have different : row.id ≠ existing.id := fun same => notSpared (same ▸ isSpared)
      rw [← kept.iff row isSpared, Store.mem_update_iff]
      constructor
      · rintro (⟨old, -, same, rfl⟩ | ⟨old, -⟩)
        · exact absurd same different
        · exact old
      · exact fun old => Or.inr ⟨old, different⟩
    · intro other otherMember
      rcases List.mem_append.mp otherMember with old | new
      · exact kept.notReported other old
      · rw [List.mem_singleton.mp new]
        exact notSpared
  · have idEq : row.id = newId context.env run.draws item := by
      rw [rowEq]
      rfl
    have notSpared : ¬ spared row.id := by
      rw [idEq, newId]
      cases named : truthy item.id with
      | some id => exact avoids.notNamed item member id named
      | none => exact notDrawn run.draws kept.draws
    refine ⟨?_, ?_, Nat.le_add_right_of_le kept.draws⟩
    · intro found isSpared
      have different : found ≠ row := fun same => notSpared (same ▸ isSpared)
      rw [← kept.iff found isSpared, List.mem_append, List.mem_singleton]
      exact or_iff_left different
    · intro other otherMember
      rcases List.mem_append.mp otherMember with old | new
      · exact kept.notReported other old
      · rw [List.mem_singleton.mp new]
        exact notSpared

/-- The loop leaves the rows alone that its payload avoids. -/
theorem spared_placeAll {spared : String → Prop} {items : List Item}
    (avoids : Avoids context.cache spared items start.store.resources)
    (notDrawn : ∀ draw, 2 ≤ draw → ¬ spared (context.env.uuid draw))
    (nothing : start.reported = []) (draws : 2 ≤ start.draws) :
    Spared spared start (placeAll context items start).1 :=
  placeAll_invariant (fun _ _ _ member kept placed => kept.place avoids notDrawn member placed)
    ⟨fun _ _ => Iff.rfl, by simp [nothing], draws⟩

end ThetaDirectory.Discovery
