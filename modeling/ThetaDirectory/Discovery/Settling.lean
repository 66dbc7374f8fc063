import ThetaDirectory.Discovery.Linking
import ThetaDirectory.Discovery.Sweep

/-!
# What a run leaves behind

Which rows a run deletes at its end, and what of the catalogue is left after that.
-/

namespace ThetaDirectory.Discovery

open Library Catalog

/-- Only this source knows the row, and it no longer reports it. -/
def vanishes (sourceName : String) (hasEdges : Bool) (reportedIds : List String)
    (row : Resource) : Bool :=
  (sourcesOf row.metadata).contains sourceName && !reportedIds.contains row.id &&
    ((sourcesOf row.metadata).filter (· ≠ sourceName)).isEmpty && !isManual row && hasEdges

theorem sweeps_retire (sourceName : String) (hasEdges : Bool) (reportedIds : List String) :
    Sweeps (retire sourceName hasEdges reportedIds) (vanishes sourceName hasEdges reportedIds) where
  purges := by
    intro store row gone
    simp only [vanishes, Bool.and_eq_true, Bool.not_eq_true', List.isEmpty_iff] at gone
    obtain ⟨⟨⟨⟨known, unreported⟩, alone⟩, notManual⟩, edges⟩ := gone
    simp only [retire, known, unreported, alone, notManual, edges]
    rfl
  spares := by
    intro store row stays
    rcases retire_cases sourceName hasEdges reportedIds store row with
      same | ⟨known, unreported, updated | ⟨alone, notManual, edges, -⟩⟩
    · rw [same]
      exact ⟨rfl, rfl, rfl⟩
    · rw [updated]
      exact ⟨rfl, rfl, map_bare_update store row.id _⟩
    · rw [Bool.eq_false_iff] at stays
      refine absurd ?_ stays
      simp only [vanishes, Bool.and_eq_true, Bool.not_eq_true', List.isEmpty_iff]
      exact ⟨⟨⟨⟨by simpa using known, by simpa using unreported⟩, alone⟩, notManual⟩, edges⟩

/-- The run deletes the row at its end. -/
structure Vanishes (context : Context) (payload : Payload) (run : Run) (row : Resource) :
    Prop where
  resources : payload.resources ≠ []
  member : row ∈ run.store.resources
  vanishes : vanishes context.sourceName (!payload.edges.isEmpty)
    (run.reported.map (·.actualId)) row = true

/-- The phases after the filing delete the rows that vanish from what is kept. -/
theorem swept_settle (context : Context) (payload : Payload) (run : Run) :
    Swept (Vanishes context payload run)
      { run.store with edges := keptEdges context payload run } (settle context payload run) := by
  unfold settle
  dsimp only
  rw [← keptEdges]
  split
  · rename_i empty
    have none : ∀ row, ¬ Vanishes context payload run row := fun row gone =>
      gone.resources (List.isEmpty_iff.mp empty)
    exact ⟨fun edge => by simp [none], fun link => by simp [none], fun found => by simp [none]⟩
  · rename_i resources
    have gone : Vanishes context payload run = fun row => row ∈ run.store.resources ∧
        vanishes context.sourceName (!payload.edges.isEmpty) (run.reported.map (·.actualId)) row =
          true := by
      funext row
      exact propext ⟨fun gone => ⟨gone.member, gone.vanishes⟩,
        fun gone => ⟨by simpa using resources, gone.1, gone.2⟩⟩
    rw [gone]
    exact swept_foldl (sweeps_retire _ _ _) run.store.resources _

/-! ## The whole run -/

/-- A run is refused, ends with an exception after some resources, or settles. -/
theorem reconcile_cases (env : Env) (cache : TemplateCache) (sourceName : String)
    (payload : Payload) (options : Options) (store : Store) :
    reconcile env cache sourceName payload options store = (store, none) ∧
        (∃ later, resolveTarget env options store = (.refused, later)) ∨
      ∃ site later run error,
        resolveTarget env options store = (.site site, later) ∧
        placeAll ⟨env, cache, sourceName, site.map (·.id)⟩
          (payload.resources.map (promote options)) ⟨later, siteMap later, [], 2⟩ = (run, error) ∧
        ((∃ text, error = some text) ∧
            reconcile env cache sourceName payload options store = (run.store, error) ∨
          error = none ∧ reconcile env cache sourceName payload options store =
            (settle ⟨env, cache, sourceName, site.map (·.id)⟩ payload run, none)) := by
  cases found : resolveTarget env options store with
  | mk target later =>
      cases target with
      | refused =>
          refine Or.inl ⟨?_, later, rfl⟩
          simp only [reconcile, found, eq_of_refused found]
      | site site =>
          cases placed : placeAll ⟨env, cache, sourceName, site.map (·.id)⟩
            (payload.resources.map (promote options)) ⟨later, siteMap later, [], 2⟩ with
          | mk run error =>
              refine Or.inr ⟨site, later, run, error, rfl, placed, ?_⟩
              cases error with
              | none => exact Or.inr ⟨rfl, by simp only [reconcile, found, placed]⟩
              | some text => exact Or.inl ⟨⟨text, rfl⟩, by simp only [reconcile, found, placed]⟩

/-- What a run deletes its source alone knew, and no one made by hand. -/
theorem Vanishes.spec {context : Context} {payload : Payload} {run : Run} {row : Resource}
    (gone : Vanishes context payload run row) : row.id ∉ run.reported.map (·.actualId) ∧
      context.sourceName ∈ sourcesOf row.metadata ∧
        (∀ source ∈ sourcesOf row.metadata, source = context.sourceName) ∧
          isManual row = false ∧ payload.edges ≠ [] := by
  have vanished := gone.vanishes
  simp only [Discovery.vanishes, Bool.and_eq_true, Bool.not_eq_true',
    ← Bool.not_eq_true (List.contains _ _), List.contains_iff_mem] at vanished
  obtain ⟨⟨⟨⟨known, unreported⟩, alone⟩, notManual⟩, edges⟩ := vanished
  refine ⟨unreported, known, ?_, notManual, ?_⟩
  · simpa using alone
  · intro empty
    simp [empty] at edges

/-- What a run deletes was there when it began to place its resources. -/
theorem Vanishes.mem_start {context : Context} {payload : Payload} {items : List Item}
    {start run : Run} {row : Resource} (ran : (placeAll context items start).1 = run)
    (gone : Vanishes context payload run row) : row ∈ start.store.resources := by
  have kept := kept_placeAll context items start
  rw [ran] at kept
  rcases kept.reported row gone.member with old | ⟨item, reported, same⟩
  · exact old
  · exact absurd (List.mem_map.mpr ⟨item, reported, same⟩) gone.spec.1

/-- What a run deletes was stored before the run. -/
theorem mem_store_of_vanishes {env : Env} {context : Context} {payload : Payload}
    {items : List Item} {store later : Store} {site : Option Resource} {run : Run}
    {error : Option String} {row : Resource} (located : Located env store later site)
    (placed : placeAll context items ⟨later, siteMap later, [], 2⟩ = (run, error))
    (gone : Vanishes context payload run row) : row ∈ store.resources := by
  obtain ⟨-, -, -, notManual, -⟩ := gone.spec
  rcases located.adds row (gone.mem_start (congrArg Prod.fst placed)) with old | ⟨isSite, -⟩
  · exact old
  · simp [isManual, isSite] at notManual

/-- What a run deletes is not there after it. -/
theorem absent_of_vanishes {context : Context} {payload : Payload} {run : Run} {store : Store}
    {row : Resource} (swept : Swept (Vanishes context payload run)
      { run.store with edges := keptEdges context payload run } store)
    (gone : Vanishes context payload run row) : ∀ found ∈ store.resources, found.id ≠ row.id :=
  fun found member same => (swept.ids.mp ⟨found, member, same⟩).2 row gone rfl

/-! ## Keys -/

/-- Finding the site of a run creates at most one row. -/
theorem resolveTarget_store {env : Env} {options : Options} {store later : Store}
    {target : Target} (found : resolveTarget env options store = (target, later)) :
    later = store ∨ ∃ suffix data row, store.create suffix data = .ok (row, later) := by
  have default : ∀ {target}, defaultSite env store = (target, later) →
      later = store ∨ ∃ suffix data row, store.create suffix data = .ok (row, later) := by
    intro target resolved
    unfold defaultSite at resolved
    split at resolved
    · cases resolved
      exact Or.inl rfl
    · cases resolved
      exact Or.inl rfl
    · cases resolved
      exact Or.inl rfl
    · split at resolved
      · rename_i created
        cases resolved
        exact Or.inr ⟨_, _, _, created⟩
      · cases resolved
        exact Or.inl rfl
  unfold resolveTarget at found
  dsimp only at found
  split at found
  · exact default found
  · unfold siteAtLocation at found
    dsimp only at found
    cases atLocation : store.sites.find? fun row =>
        toLowerCase row.name == toLowerCase (locationOf options) ||
          toLowerCase row.slug == toLowerCase (locationOf options) with
    | some row =>
        simp only [atLocation] at found
        cases found
        exact Or.inl rfl
    | none =>
        simp only [atLocation] at found
        split at found
        · rename_i created
          split at created
          · rename_i made
            cases created
            cases found
            exact Or.inr ⟨_, _, _, made⟩
          · cases created
        · rename_i created
          split at created
          · cases created
          · cases created
            exact default found

theorem keyed_resolveTarget {env : Env} {options : Options} {store later : Store}
    {target : Target} (keyed : store.Keyed)
    (found : resolveTarget env options store = (target, later)) : later.Keyed := by
  rcases resolveTarget_store found with rfl | ⟨suffix, data, row, created⟩
  · exact keyed
  · exact keyed.create created

theorem keyed_placeItem {context : Context} {run next : Run} {item : Item}
    (keyed : run.store.Keyed) (placed : placeItem context run item = .ok next) :
    next.store.Keyed := by
  unfold placeItem at placed
  split at placed
  · cases placed
    exact keyed.update (fun _ => rfl) (fun _ => rfl)
  · cases created : run.store.create (context.env.hex (run.draws + 1))
      (newResource context run.draws item) with
    | error text =>
        rw [created] at placed
        cases placed
    | ok result =>
        rw [created] at placed
        cases placed
        exact keyed.create created

theorem keyed_placeAll {context : Context} {items : List Item} {start : Run}
    (keyed : start.store.Keyed) : (placeAll context items start).1.store.Keyed :=
  @placeAll_invariant context start (fun run => run.store.Keyed) items
    (fun _ _ _ _ keyed placed => keyed_placeItem keyed placed) keyed

theorem keyed_settle {context : Context} {payload : Payload} {run : Run}
    (keyed : run.store.Keyed) : (settle context payload run).Keyed := by
  unfold settle
  dsimp only
  split
  · exact ⟨keyed.ids, keyed.slugs⟩
  · refine Store.Keyed.of_sublist ⟨keyed.ids, keyed.slugs⟩
      (sublist_foldl (sweeps_retire _ _ _) run.store.resources _)

/-- A run keeps ids and slugs unique. -/
theorem keyed_reconcile {env : Env} {cache : TemplateCache} {sourceName : String}
    {payload : Payload} {options : Options} {store : Store} (keyed : store.Keyed) :
    (reconcile env cache sourceName payload options store).1.Keyed := by
  rcases reconcile_cases env cache sourceName payload options store with
    ⟨refused, -⟩ | ⟨site, later, run, error, found, placed, outcome⟩
  · rw [refused]
    exact keyed
  · have runKeyed : run.store.Keyed := by
      have := @keyed_placeAll ⟨env, cache, sourceName, site.map (·.id)⟩
        (payload.resources.map (promote options)) ⟨later, siteMap later, [], 2⟩
        (keyed_resolveTarget keyed found)
      rwa [placed] at this
    rcases outcome with ⟨-, thrown⟩ | ⟨-, finished⟩
    · rw [thrown]
      exact runKeyed
    · rw [finished]
      exact keyed_settle runKeyed

end ThetaDirectory.Discovery
