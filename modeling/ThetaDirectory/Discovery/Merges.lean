import ThetaDirectory.Discovery.Settling

/-!
# What a run merges

The merges of the loop of `reconcile`, and what becomes of a stored row: it takes up the
items it is matched to, one after the other, and the phases after the loop leave it alone.
-/

namespace ThetaDirectory.Discovery

open Library Catalog

/-! ## Finding a row after a write -/

namespace Store

theorem find_update {store : Store} {id : String} {change : Resource → Resource}
    (sameId : ∀ row, (change row).id = row.id) (wanted : String) :
    (store.update id change).find wanted =
      (store.find wanted).map fun row => if row.id = id then change row else row := by
  have ids : (fun row : Resource => row.id == wanted) ∘
      (fun row => if row.id = id then change row else row) = fun row => row.id == wanted := by
    funext row
    rw [Function.comp_apply, apply_ite Resource.id, sameId, ite_self]
  rw [find, update, List.find?_map, ids]
  rfl

theorem find_update_of_ne {store : Store} {id wanted : String} {change : Resource → Resource}
    (sameId : ∀ row, (change row).id = row.id) (different : wanted ≠ id) :
    (store.update id change).find wanted = store.find wanted := by
  rw [find_update sameId]
  cases found : store.find wanted with
  | none => rfl
  | some row =>
      have idEq : row.id = wanted := by simpa using List.find?_some found
      rw [Option.map_some, if_neg (idEq.trans_ne different)]

theorem find_purge_of_ne {store : Store} {id wanted : String} (different : wanted ≠ id) :
    (store.purge id).find wanted = store.find wanted := by
  rw [find, purge, List.find?_filter]
  apply congrArg (store.resources.find? ·)
  funext row
  cases same : row.id == wanted with
  | false => simp
  | true => simp [(beq_iff_eq.mp same).trans_ne different]

theorem find_append {store : Store} {row added : Resource} {wanted : String}
    (found : store.find wanted = some row) :
    Store.find { store with resources := store.resources ++ [added] } wanted = some row := by
  rw [find, List.find?_append, ← find, found]
  rfl

theorem Keyed.find {store : Store} (keyed : store.Keyed) {row : Resource}
    (member : row ∈ store.resources) : store.find row.id = some row := by
  cases found : store.find row.id with
  | none => exact absurd (beq_self_eq_true row.id) (List.find?_eq_none.mp found row member)
  | some other =>
      have sameId : other.id = row.id := by simpa using List.find?_some found
      rw [keyed.eq_of_id (List.mem_of_find?_eq_some found) member sameId]

/-- The row with an id is the one that is found. -/
theorem Keyed.exists_iff {store : Store} (keyed : store.Keyed) {id : String} {row : Resource}
    (found : store.find id = some row) (holds : Resource → Prop) :
    (∃ other ∈ store.resources, other.id = id ∧ holds other) ↔ holds row := by
  have sameId : row.id = id := by simpa using List.find?_some found
  constructor
  · intro present
    obtain ⟨other, member, idEq, held⟩ := present
    rwa [keyed.eq_of_id (List.mem_of_find?_eq_some found) member (sameId.trans idEq.symm)]
  · exact fun held => ⟨row, List.mem_of_find?_eq_some found, sameId, held⟩

end Store

/-! ## Merges -/

/-- A resource of the payload and the row it is merged into, as the row is just before. -/
structure Merge where
  item : Item
  existing : Resource

/-- The merges of the loop over the resources; an exception ends them. -/
def mergesOf (context : Context) : List Item → Run → List Merge
  | [], _ => []
  | item :: items, run =>
      match placeItem context run item with
      | .ok next =>
          (matchOf context run item).toList.map (Merge.mk item) ++ mergesOf context items next
      | .error _ => []

/-- The merges of a run. -/
def merges (env : Env) (cache : TemplateCache) (sourceName : String) (payload : Payload)
    (options : Options) (store : Store) : List Merge :=
  match resolveTarget env options store with
  | (.refused, _) => []
  | (.site site, later) =>
      mergesOf ⟨env, cache, sourceName, site.map (·.id)⟩
        (payload.resources.map (promote options)) ⟨later, siteMap later, [], 2⟩

/-- The items merged into the row with an id. -/
def itemsInto (id : String) (merges : List Merge) : List Item :=
  (merges.filter fun merge => merge.existing.id == id).map (·.item)

/-- A row takes up an item it is matched to. -/
def absorb (context : Context) (row : Resource) (item : Item) : Resource :=
  mergeRow context row item row

variable {context : Context} {run next : Run} {item : Item} {id : String} {row : Resource}

theorem itemsInto_append (id : String) (first rest : List Merge) :
    itemsInto id (first ++ rest) = itemsInto id first ++ itemsInto id rest := by
  rw [itemsInto, List.filter_append, List.map_append]
  rfl

/-- A merge is of a resource of the payload into a row of its identity class. -/
theorem mem_mergesOf {items : List Item} {merge : Merge}
    (member : merge ∈ mergesOf context items run) :
    merge.item ∈ items ∧ isCandidate context.cache merge.item merge.existing = true := by
  induction items generalizing run with
  | nil => exact absurd member List.not_mem_nil
  | cons item items ih =>
      unfold mergesOf at member
      split at member
      · rcases List.mem_append.mp member with first | rest
        · obtain ⟨existing, found, rfl⟩ := List.mem_map.mp first
          have candidate := (findExistingMatch_spec (Option.mem_toList.mp found)).1
          exact ⟨List.mem_cons_self, (List.mem_filter.mp candidate).2⟩
        · exact ⟨List.mem_cons_of_mem _ (ih rest).1, (ih rest).2⟩
      · exact absurd member List.not_mem_nil

/-! ## One resource -/

/-- Step lemma: a stored row takes up the item if it is matched to it, and stays as it is
otherwise. -/
theorem find_placeItem (keyed : run.store.Keyed) (placed : placeItem context run item = .ok next)
    (stored : run.store.find id = some row) :
    next.store.find id =
      some ((itemsInto id ((matchOf context run item).toList.map (Merge.mk item))).foldl
        (absorb context) row) := by
  have idEq : row.id = id := by simpa using List.find?_some stored
  unfold placeItem at placed
  cases found : matchOf context run item with
  | some existing =>
      rw [found] at placed
      cases placed
      have existingMember : existing ∈ run.store.resources :=
        List.mem_of_mem_filter (findExistingMatch_spec found).1
      rw [@Store.find_update _ _ (mergeRow context existing item) (fun _ => rfl), stored,
        Option.map_some]
      by_cases same : existing.id = id
      · have matched : existing = row :=
          keyed.eq_of_id existingMember (List.mem_of_find?_eq_some stored) (same.trans idEq.symm)
        subst matched
        simp [itemsInto, same, absorb]
      · have different : row.id ≠ existing.id := fun equal => same (equal.symm.trans idEq)
        simp [itemsInto, same, different]
  | none =>
      rw [found] at placed
      cases created : run.store.create (context.env.hex (run.draws + 1))
        (newResource context run.draws item) with
      | error text =>
          rw [created] at placed
          cases placed
      | ok result =>
          rw [created] at placed
          cases placed
          obtain ⟨-, storeEq, -⟩ := Store.create_ok created
          rw [storeEq]
          exact Store.find_append stored

theorem reported_placeItem (placed : placeItem context run item = .ok next) :
    ∃ placedAs, next.reported = run.reported ++ [placedAs] ∧
      ∀ existing, matchOf context run item = some existing → placedAs.actualId = existing.id := by
  unfold placeItem at placed
  cases found : matchOf context run item with
  | some existing =>
      rw [found] at placed
      cases placed
      exact ⟨_, rfl, fun other same => Option.some.inj same ▸ rfl⟩
  | none =>
      rw [found] at placed
      cases created : run.store.create (context.env.hex (run.draws + 1))
        (newResource context run.draws item) with
      | error text =>
          rw [created] at placed
          cases placed
      | ok result =>
          rw [created] at placed
          cases placed
          exact ⟨_, rfl, fun _ same => nomatch same⟩

/-! ## The loop -/

/-- Run lemma: a stored row takes up the items it is matched to, in order. -/
theorem find_placeAll (items : List Item) (keyed : run.store.Keyed)
    (stored : run.store.find id = some row) :
    (placeAll context items run).1.store.find id =
      some ((itemsInto id (mergesOf context items run)).foldl (absorb context) row) := by
  induction items generalizing run row with
  | nil => exact stored
  | cons item items ih =>
      unfold placeAll mergesOf
      cases placed : placeItem context run item with
      | error text => exact stored
      | ok next =>
          have taken := find_placeItem keyed placed stored
          rw [itemsInto_append, List.foldl_append]
          exact ih (keyed_placeItem keyed placed) taken

theorem reported_placeAll (items : List Item) :
    run.reported ⊆ (placeAll context items run).1.reported := by
  apply @placeAll_invariant context run (fun later => run.reported ⊆ later.reported) items _
    (List.Subset.refl _)
  intro before item after _ subset placed
  obtain ⟨placedAs, grows, -⟩ := reported_placeItem placed
  rw [grows]
  exact List.subset_append_of_subset_left _ subset

/-- A row some item is merged into is among the reported ones. -/
theorem reported_of_itemsInto {items : List Item} (member : item ∈ itemsInto id
    (mergesOf context items run)) :
    id ∈ (placeAll context items run).1.reported.map (·.actualId) := by
  induction items generalizing run with
  | nil => exact absurd member List.not_mem_nil
  | cons head items ih =>
      unfold mergesOf at member
      unfold placeAll
      cases placed : placeItem context run head with
      | error text =>
          rw [placed] at member
          exact absurd member List.not_mem_nil
      | ok next =>
          simp only [placed, itemsInto_append] at member ⊢
          rcases List.mem_append.mp member with first | rest
          · obtain ⟨merge, merged, rfl⟩ := List.mem_map.mp first
            obtain ⟨inFirst, same⟩ := List.mem_filter.mp merged
            obtain ⟨existing, found, rfl⟩ := List.mem_map.mp inFirst
            obtain ⟨placedAs, grows, placedAt⟩ := reported_placeItem placed
            have inNext : placedAs ∈ next.reported :=
              grows ▸ List.mem_append_right _ List.mem_cons_self
            apply List.mem_map.mpr ⟨placedAs, reported_placeAll items inNext, _⟩
            exact (placedAt existing (Option.mem_toList.mp found)).trans (beq_iff_eq.mp same)
          · exact ih rest

/-! ## The phases after the loop -/

theorem find_retire {sourceName : String} {hasEdges : Bool} {reportedIds : List String}
    {store : Store} (reported : id ∈ reportedIds) (old : Resource) :
    (retire sourceName hasEdges reportedIds store old).find id = store.find id := by
  rcases retire_cases sourceName hasEdges reportedIds store old with
    same | ⟨-, unreported, updated | ⟨-, -, -, purged⟩⟩
  · rw [same]
  · rw [updated]
    exact Store.find_update_of_ne (fun _ => rfl) fun same => unreported (same ▸ reported)
  · rw [purged]
    exact Store.find_purge_of_ne fun same => unreported (same ▸ reported)

/-- A reported row is left alone after the loop. -/
theorem find_settle (payload : Payload) (reported : id ∈ run.reported.map (·.actualId)) :
    (settle context payload run).find id = run.store.find id := by
  have swept : ∀ (rows : List Resource) (store : Store),
      (rows.foldl (retire context.sourceName (!payload.edges.isEmpty)
        (run.reported.map (·.actualId))) store).find id = store.find id := by
    intro rows
    induction rows with
    | nil => exact fun _ => rfl
    | cons old rows ih =>
        intro store
        exact (ih _).trans (find_retire reported old)
  unfold settle
  dsimp only
  split
  · rfl
  · exact swept _ _

/-! ## The run -/

/-- A run leaves a stored row that it merges items into with what it takes up of them. -/
theorem find_reconcile {env : Env} {cache : TemplateCache} {sourceName : String}
    {payload : Payload} {options : Options} {store : Store} (keyed : store.Keyed)
    (member : row ∈ store.resources)
    (merged : itemsInto row.id (merges env cache sourceName payload options store) ≠ []) :
    (reconcile env cache sourceName payload options store).1.find row.id =
      some ((itemsInto row.id (merges env cache sourceName payload options store)).foldl
        (absorb ⟨env, cache, sourceName, none⟩) row) := by
  rcases reconcile_cases env cache sourceName payload options store with
    ⟨-, later, refused⟩ | ⟨site, later, run, error, found, placed, outcome⟩
  · simp [merges, refused, itemsInto] at merged
  · have mergesEq : merges env cache sourceName payload options store =
        mergesOf ⟨env, cache, sourceName, site.map (·.id)⟩
          (payload.resources.map (promote options)) ⟨later, siteMap later, [], 2⟩ := by
      simp only [merges, found]
    rw [mergesEq] at merged ⊢
    have laterKeyed : later.Keyed := keyed_resolveTarget keyed found
    have stored : later.find row.id = some row :=
      laterKeyed.find ((located_resolveTarget found).keeps row member)
    have taken := @find_placeAll ⟨env, cache, sourceName, site.map (·.id)⟩
      ⟨later, siteMap later, [], 2⟩ row.id row (payload.resources.map (promote options))
      laterKeyed stored
    obtain ⟨item, itemMember⟩ := List.exists_mem_of_ne_nil _ merged
    have reported := reported_of_itemsInto itemMember
    rw [placed] at taken reported
    rcases outcome with ⟨-, thrown⟩ | ⟨-, finished⟩
    · rw [thrown]
      exact taken
    · rw [finished]
      exact (find_settle payload reported).trans taken

end ThetaDirectory.Discovery
