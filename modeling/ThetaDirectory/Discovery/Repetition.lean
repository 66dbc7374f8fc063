import ThetaDirectory.Discovery.Collisions
import ThetaDirectory.Discovery.Standing

/-!
# Running a report again

What a run must find in the catalogue to leave it as it is: the site, a row for every
resource it reports, nothing that vanishes, and all the edges.  A resource with a MAC that
is none is never found again.
-/

namespace ThetaDirectory.Discovery

open Library Catalog

variable {env : Env} {cache : TemplateCache} {sourceName : String} {payload : Payload}
variable {options : Options} {store later : Store} {context : Context} {start run : Run}

/-! ## The site -/

/-- A row with the id or the slug is stored. -/
def IsTaken (store : Store) (id slug : String) : Prop :=
  ∃ row ∈ store.resources, row.id = id ∨ row.slug = slug

/-- The run adds no site: the one its location names is stored, or else there is a site or
none can be added. -/
def SiteStands (env : Env) (options : Options) (store : Store) : Prop :=
  (locationOf options ≠ "" ∧ ∃ row ∈ store.sites,
      toLowerCase row.name = toLowerCase (locationOf options) ∨
        toLowerCase row.slug = toLowerCase (locationOf options)) ∨
    (locationOf options = "" ∨
        IsTaken store (env.uuid 0) (locationSlug (locationOf options))) ∧
      (store.sites ≠ [] ∨ IsTaken store (env.uuid 1) "site_default")

theorem trim_ne_empty {text : String} {char : Char} {rest : List Char}
    (chars : text.toList = char :: rest) (visible : isSpace char = false) : trim text ≠ "" := by
  have left : (text.toList.dropWhile isSpace).rdropWhile isSpace ≠ [] := by
    rw [chars, List.dropWhile_cons_of_neg (by simp [visible]), ne_eq, List.rdropWhile_eq_nil_iff]
    exact fun allSpace => Bool.false_ne_true (visible.symm.trans
      (allSpace char List.mem_cons_self))
  intro empty
  exact left (by simpa [trim] using empty)

/-- A row is not created exactly when its id or slug is taken; otherwise the table grows. -/
theorem create_cases (store : Store) (suffix : String) (data : NewResource)
    (slugged : trim data.slug ≠ "") :
    (∃ error, store.create suffix data = .error error) ∧ IsTaken store data.id data.slug ∨
      (∃ row, store.create suffix data =
        .ok (row, { store with resources := store.resources ++ [row] })) ∧
        ¬ IsTaken store data.id data.slug := by
  have slug : (store.rowOf suffix data).slug = data.slug := if_neg slugged
  unfold Store.create IsTaken
  dsimp only
  rw [Store.rowOf_id, slug]
  split
  · rename_i taken
    exact Or.inl ⟨⟨_, rfl⟩, by simpa using taken⟩
  · rename_i free
    exact Or.inr ⟨⟨_, rfl⟩, by simpa using free⟩

theorem append_row_ne (store : Store) (row : Resource) :
    { store with resources := store.resources ++ [row] } ≠ store := by
  intro same
  have lengths := congrArg (fun store : Store => store.resources.length) same
  simp at lengths

theorem defaultSite_stays_iff : (defaultSite env store).2 = store ↔
    store.sites ≠ [] ∨ IsTaken store (env.uuid 1) "site_default" := by
  unfold defaultSite
  split
  · rename_i row current
    exact iff_of_true rfl (Or.inl (List.ne_nil_of_mem (List.mem_of_find?_eq_some current)))
  · rename_i row _ only
    exact iff_of_true rfl (Or.inl (by simp [only]))
  · rename_i several
    exact iff_of_true rfl (Or.inl (by simp [several]))
  · rename_i none
    have slugged : trim "site_default" ≠ "" := by decide
    rcases create_cases store (env.hex 1) ⟨env.uuid 1, "site", "Default Site", "site_default",
      (∅ : Metadata).insert "isCurrentSite" (.bool true)⟩ slugged with
      ⟨⟨error, created⟩, taken⟩ | ⟨⟨row, created⟩, free⟩
    · rw [created]
      exact iff_of_true rfl (Or.inr taken)
    · rw [created]
      exact iff_of_false (append_row_ne store row) (not_or.mpr ⟨by simp [none], free⟩)

/-- The site of a run stands exactly when finding it adds no row. -/
theorem siteStands_iff : SiteStands env options store ↔
    (resolveTarget env options store).2 = store := by
  unfold SiteStands resolveTarget
  dsimp only
  split
  · rename_i nowhere
    rw [defaultSite_stays_iff]
    simp [nowhere]
  · rename_i located
    unfold siteAtLocation
    dsimp only
    cases known : store.sites.find? fun row =>
        toLowerCase row.name == toLowerCase (locationOf options) ||
          toLowerCase row.slug == toLowerCase (locationOf options) with
    | some row =>
        have named := List.find?_some known
        simp only [Bool.or_eq_true, beq_iff_eq] at named
        exact iff_of_true (Or.inl ⟨located, row, List.mem_of_find?_eq_some known, named⟩) rfl
    | none =>
        have unnamed : ¬ ∃ row ∈ store.sites, toLowerCase row.name = toLowerCase (locationOf options) ∨
            toLowerCase row.slug = toLowerCase (locationOf options) := by
          simpa using known
        have slugged : trim (locationSlug (locationOf options)) ≠ "" :=
          @trim_ne_empty _ 's' _ (by simp [locationSlug]; rfl) (by decide)
        rcases create_cases store (env.hex 0) ⟨env.uuid 0, "site", locationOf options,
          locationSlug (locationOf options), ∅⟩ slugged with
          ⟨⟨error, created⟩, taken⟩ | ⟨⟨row, created⟩, free⟩
        · simp only [created]
          rw [defaultSite_stays_iff]
          simp [unnamed, taken]
        · simp only [created]
          refine iff_of_false ?_ (append_row_ne store row)
          simp [unnamed, located, free]

/-! ## The resources -/

/-- The ids of the table. -/
def Store.ids (store : Store) : List String := store.resources.map (·.id)

/-- Merging changes no id. -/
theorem placeItem_of_match {item : Item} {existing : Resource}
    (found : matchOf context run item = some existing) :
    ∃ next, placeItem context run item = .ok next ∧ next.store.ids = run.store.ids := by
  unfold placeItem
  rw [found]
  refine ⟨_, rfl, ?_⟩
  simp only [Store.ids, Store.update, List.map_map]
  refine List.map_congr_left fun row _ => ?_
  rw [Function.comp_apply]
  split <;> rfl

/-- A resource with no match is an error or a row with a new id. -/
theorem placeItem_of_no_match {item : Item} (unmatched : matchOf context run item = none)
    {next : Run} (placed : placeItem context run item = .ok next) :
    ∃ row ∈ next.store.resources, row.id ∉ run.store.ids := by
  unfold placeItem at placed
  rw [unmatched] at placed
  cases created : run.store.create (context.env.hex (run.draws + 1))
      (newResource context run.draws item) with
  | error text =>
      rw [created] at placed
      cases placed
  | ok result =>
      obtain ⟨row, made⟩ := result
      rw [created] at placed
      cases placed
      obtain ⟨-, rfl, free⟩ := Store.create_ok created
      refine ⟨row, List.mem_append_right _ (List.mem_singleton_self _), ?_⟩
      intro taken
      obtain ⟨old, member, same⟩ := List.mem_map.mp taken
      exact (free old member).1 same

/-- The loop throws nothing and creates nothing exactly when every resource it comes to is
taken for a stored row. -/
theorem placeAll_ids_iff (context : Context) (items : List Item) (start : Run) :
    ((placeAll context items start).2 = none ∧
        (placeAll context items start).1.store.ids ⊆ start.store.ids) ↔
      ∀ before item after, items = before ++ item :: after → ∀ run,
        placeAll context before start = (run, none) →
          ∃ row ∈ run.store.resources, Matches context.cache (scopeOf context run) item row := by
  induction items generalizing start with
  | nil => simp [placeAll]
  | cons head items ih =>
      cases found : matchOf context start head with
      | none =>
          have unmatched : ¬ ∃ row ∈ start.store.resources,
              Matches context.cache (scopeOf context start) head row := by
            rw [← matchOf_isSome, found]
            exact Bool.false_ne_true
          refine iff_of_false ?_ fun every => unmatched (every [] head items rfl start rfl)
          rintro ⟨noError, ids⟩
          unfold placeAll at noError ids
          cases placed : placeItem context start head with
          | error text =>
              rw [placed] at noError
              cases noError
          | ok next =>
              rw [placed] at ids
              obtain ⟨row, member, fresh⟩ := placeItem_of_no_match found placed
              obtain ⟨stays, inEnd, idEq, -⟩ :=
                (kept_placeAll context items next).persists row member
              exact fresh (idEq ▸ ids (List.mem_map_of_mem inEnd))
      | some existing =>
          obtain ⟨next, placed, ids⟩ := placeItem_of_match found
          have unfolded : ∀ rest, placeAll context (head :: rest) start =
              placeAll context rest next := by
            intro rest
            simp only [placeAll, placed]
          rw [unfolded, ← ids, ih]
          constructor
          · intro every before item after split run ran
            cases before with
            | nil =>
                cases split
                cases ran
                rw [← matchOf_isSome, found]
                rfl
            | cons other before =>
                cases split
                rw [unfolded] at ran
                exact every before item after rfl run ran
          · intro every before item after split run ran
            exact every (head :: before) item after (by rw [split]; rfl) run
              ((unfolded before).trans ran)

/-! ## The whole run -/

/-- The run comes to such a state when it has placed these resources. -/
def Reaches (env : Env) (cache : TemplateCache) (sourceName : String) (items : List Item)
    (options : Options) (store : Store) (context : Context) (run : Run) : Prop :=
  ∃ site later, resolveTarget env options store = (.site site, later) ∧
    context = ⟨env, cache, sourceName, site.map (·.id)⟩ ∧
      placeAll context items ⟨later, siteMap later, [], 2⟩ = (run, none)

/-- The run finds its rows: the site stands, some tier takes each resource to a row when the
run comes to it, and no row vanishes. -/
structure RowsStand (env : Env) (cache : TemplateCache) (sourceName : String)
    (payload : Payload) (options : Options) (store : Store) : Prop where
  site : SiteStands env options store
  recognised : ∀ before item after,
    payload.resources.map (promote options) = before ++ item :: after → ∀ context run,
      Reaches env cache sourceName before options store context run →
        ∃ row ∈ run.store.resources, Matches cache (scopeOf context run) item row
  reported : ∀ context run, Reaches env cache sourceName
    (payload.resources.map (promote options)) options store context run →
      ∀ row, ¬ Vanishes context payload run row

/-- The run finds its rows and its edges. -/
structure Settled (env : Env) (cache : TemplateCache) (sourceName : String)
    (payload : Payload) (options : Options) (store : Store) : Prop
    extends RowsStand env cache sourceName payload options store where
  links : ∀ context run, Reaches env cache sourceName
    (payload.resources.map (promote options)) options store context run →
      LinksStand context payload run

/-- No two edges of the payload give a relation to one row, and each has one. -/
def OneParentEach (env : Env) (cache : TemplateCache) (sourceName : String)
    (payload : Payload) (options : Options) (store : Store) : Prop :=
  ∀ context run, Reaches env cache sourceName (payload.resources.map (promote options)) options
    store context run → Uncontested run payload.edges

/-- The run throws nothing and leaves the ids and the edges as they are. -/
structure Repeats (env : Env) (cache : TemplateCache) (sourceName : String)
    (payload : Payload) (options : Options) (store : Store) : Prop where
  noError : (reconcile env cache sourceName payload options store).2 = none
  ids : SameElements (reconcile env cache sourceName payload options store).1.ids store.ids
  edges : SameElements
    ((reconcile env cache sourceName payload options store).1.edges.map EdgeRow.triple)
    (store.edges.map EdgeRow.triple)

theorem SameElements.refl {α : Type} (xs : List α) : SameElements xs xs :=
  ⟨List.Subset.refl xs, List.Subset.refl xs⟩

/-- Without a row that vanishes the run ends with the rows and edges it comes to. -/
theorem settle_of_none_vanishes (none : ∀ row, ¬ Vanishes context payload run row) :
    SameElements (settle context payload run).ids run.store.ids ∧
      SameElements ((settle context payload run).edges.map EdgeRow.triple)
        ((keptEdges context payload run).map EdgeRow.triple) := by
  have swept := swept_settle context payload run
  have ids : ∀ id, id ∈ (settle context payload run).ids ↔ id ∈ run.store.ids := by
    intro id
    unfold Store.ids
    rw [List.mem_map, List.mem_map, swept.ids]
    exact and_iff_left fun row gone => absurd gone (none row)
  have edges : ∀ edge, edge ∈ (settle context payload run).edges ↔
      edge ∈ keptEdges context payload run := by
    intro edge
    rw [swept.edges]
    exact and_iff_left fun row gone => absurd gone (none row)
  exact ⟨⟨fun id => (ids id).mp, fun id => (ids id).mpr⟩,
    List.map_subset _ fun edge => (edges edge).mp, List.map_subset _ fun edge => (edges edge).mpr⟩

/-- A run that is refused comes to no resource. -/
theorem not_reaches_of_refused {items : List Item}
    (found : resolveTarget env options store = (.refused, later)) :
    ¬ Reaches env cache sourceName items options store context run := by
  rintro ⟨site, other, resolved, -⟩
  rw [found] at resolved
  cases resolved

/-- A run that throws nothing and leaves the ids has found its rows. -/
theorem rowsStand_of_ids
    (noError : (reconcile env cache sourceName payload options store).2 = none)
    (ids : SameElements (reconcile env cache sourceName payload options store).1.ids store.ids) :
    RowsStand env cache sourceName payload options store := by
  rcases reconcile_cases env cache sourceName payload options store with
    ⟨-, later, found⟩ | ⟨site, later, run, error, found, placed, ⟨⟨text, isError⟩, thrown⟩ |
      ⟨isNone, finished⟩⟩
  · refine ⟨?_, fun _ _ _ _ _ _ reaches => absurd reaches (not_reaches_of_refused found),
      fun _ _ reaches => absurd reaches (not_reaches_of_refused found)⟩
    rw [siteStands_iff, found]
    exact eq_of_refused found
  · rw [thrown, isError] at noError
    cases noError
  · subst isNone
    rw [finished] at ids
    have located := located_resolveTarget found
    have kept := kept_placeAll ⟨env, cache, sourceName, site.map (·.id)⟩
      (payload.resources.map (promote options)) ⟨later, siteMap later, [], 2⟩
    rw [placed] at kept
    have swept := swept_settle ⟨env, cache, sourceName, site.map (·.id)⟩ payload run
    have placedIds : run.store.ids ⊆ store.ids := by
      intro id member
      by_cases gone : ∃ row, Vanishes ⟨env, cache, sourceName, site.map (·.id)⟩ payload run row ∧
          id = row.id
      · obtain ⟨row, vanished, rfl⟩ := gone
        exact List.mem_map_of_mem (mem_store_of_vanishes located placed vanished)
      · apply ids.1
        refine List.mem_map.mpr (swept.ids.mpr ⟨List.mem_map.mp member, ?_⟩)
        exact fun row vanished same => gone ⟨row, vanished, same⟩
    have unchanged : later = store := by
      rcases resolveTarget_store found with same | ⟨suffix, data, row, created⟩
      · exact same
      · obtain ⟨-, rfl, free⟩ := Store.create_ok created
        obtain ⟨stays, inRun, idEq, -⟩ := kept.persists row
          (List.mem_append_right _ (List.mem_singleton_self _))
        obtain ⟨old, member, same⟩ := List.mem_map.mp
          (placedIds (List.mem_map.mpr ⟨stays, inRun, idEq⟩))
        exact absurd same (free old member).1
    subst unchanged
    have loop := (placeAll_ids_iff ⟨env, cache, sourceName, site.map (·.id)⟩
      (payload.resources.map (promote options)) ⟨later, siteMap later, [], 2⟩).mp
      (by rw [placed]; exact ⟨rfl, placedIds⟩)
    refine ⟨?_, ?_, ?_⟩
    · rw [siteStands_iff, found]
    · rintro before item after split context other ⟨site', later', resolved, rfl, ran⟩
      rw [found] at resolved
      cases resolved
      exact loop before item after split other ran
    · rintro context other ⟨site', later', resolved, rfl, ran⟩ row gone
      rw [found] at resolved
      cases resolved
      rw [placed] at ran
      cases ran
      obtain ⟨left, member, same⟩ := List.mem_map.mp
        (ids.2 (List.mem_map_of_mem (mem_store_of_vanishes located placed gone)))
      exact absent_of_vanishes swept gone left member same

/-- A run that finds its rows is refused or comes to its end with the rows and the edges it
started with. -/
theorem RowsStand.reaches (stand : RowsStand env cache sourceName payload options store) :
    reconcile env cache sourceName payload options store = (store, none) ∧
        (∃ later, resolveTarget env options store = (.refused, later)) ∨
      ∃ context run, Reaches env cache sourceName (payload.resources.map (promote options))
          options store context run ∧
        reconcile env cache sourceName payload options store =
          (settle context payload run, none) ∧
        SameElements run.store.ids store.ids ∧ run.store.edges = store.edges := by
  rcases reconcile_cases env cache sourceName payload options store with
    refused | ⟨site, later, run, error, found, placed, outcome⟩
  · exact Or.inl refused
  · right
    have unchanged : later = store := by
      have site := siteStands_iff.mp stand.site
      rwa [found] at site
    subst unchanged
    have loop := (placeAll_ids_iff ⟨env, cache, sourceName, site.map (·.id)⟩
      (payload.resources.map (promote options)) ⟨later, siteMap later, [], 2⟩).mpr
      (fun before item after split other ran =>
        stand.recognised before item after split _ other ⟨site, later, found, rfl, ran⟩)
    have kept := kept_placeAll ⟨env, cache, sourceName, site.map (·.id)⟩
      (payload.resources.map (promote options)) ⟨later, siteMap later, [], 2⟩
    rw [placed] at loop kept
    obtain ⟨rfl, ids⟩ := loop
    refine ⟨_, run, ⟨site, later, found, rfl, placed⟩, ?_, ⟨ids, ?_⟩, kept.edges⟩
    · rcases outcome with ⟨⟨text, isError⟩, -⟩ | ⟨-, finished⟩
      · cases isError
      · exact finished
    · intro id member
      obtain ⟨row, stored, rfl⟩ := List.mem_map.mp member
      obtain ⟨stays, inRun, idEq, -⟩ := kept.persists row stored
      exact List.mem_map.mpr ⟨stays, inRun, idEq⟩

theorem SameElements.trans {α : Type} {xs ys zs : List α} (first : SameElements xs ys)
    (second : SameElements ys zs) : SameElements xs zs :=
  ⟨fun _ member => second.1 (first.1 member), fun _ member => first.2 (second.2 member)⟩

theorem SameElements.symm {α : Type} {xs ys : List α} (same : SameElements xs ys) :
    SameElements ys xs := ⟨same.2, same.1⟩

/-- A run that finds its rows and its edges changes nothing. -/
theorem Settled.repeats (settled : Settled env cache sourceName payload options store) :
    Repeats env cache sourceName payload options store := by
  rcases settled.toRowsStand.reaches with ⟨refused, -⟩ | ⟨context, run, reaches, finished, ids, edges⟩
  · constructor <;> rw [refused]
    · exact SameElements.refl _
    · exact SameElements.refl _
  · obtain ⟨sameIds, sameEdges⟩ := settle_of_none_vanishes (settled.reported context run reaches)
    constructor <;> rw [finished]
    · exact sameIds.trans ids
    · rw [← edges]
      exact sameEdges.trans (settled.links context run reaches).sameElements

/-- Where no two reported edges compete, only a run that finds its rows and its edges changes
nothing. -/
theorem settled_of_repeats
    (uncontested : OneParentEach env cache sourceName payload options store)
    (again : Repeats env cache sourceName payload options store) :
    Settled env cache sourceName payload options store := by
  have stand := rowsStand_of_ids again.noError again.ids
  refine ⟨stand, fun context run reaches => ?_⟩
  apply linksStand_of_sameElements (uncontested context run reaches)
  rcases stand.reaches with ⟨-, _, found⟩ | ⟨context', run', reaches', finished, -, edges⟩
  · exact absurd reaches (not_reaches_of_refused found)
  · obtain ⟨site, later, found, rfl, placed⟩ := reaches
    obtain ⟨site', later', found', rfl, placed'⟩ := reaches'
    rw [found] at found'
    cases found'
    rw [placed] at placed'
    cases placed'
    have sameEdges := again.edges
    rw [finished] at sameEdges
    rw [edges]
    refine SameElements.trans ?_ sameEdges
    exact (settle_of_none_vanishes
      (stand.reported _ run ⟨site, later, found, rfl, placed⟩)).2.symm

private def pollEnv : Env :=
  ⟨1000, fun draw => String.ofList (List.replicate (draw + 1) 'x'), fun _ => "0"⟩

/-- A later run, with a clock and random ids of its own. -/
private def laterEnv : Env :=
  ⟨2000, fun draw => String.ofList (List.replicate (draw + 1) 'y'), fun _ => "1"⟩

private def homeSite : Store where
  resources := [⟨"s", "site", "Home", "site_home", none, none, ∅⟩]
  edges := []
  groups := []

/-- A node and its guest, each with an address. -/
private def guestReport : Payload where
  resources := [
    ⟨none, some "host", some "pve", some "pve", none,
      (∅ : Metadata).insert "macAddress" (.str "aa:bb:cc:dd:ee:01")⟩,
    ⟨none, some "host", some "guest", some "guest", none,
      (∅ : Metadata).insert "ip" (.str "10.0.0.2")⟩]
  edges := [⟨some "pve", some "guest", some "hosts"⟩]

end ThetaDirectory.Discovery
