import ThetaDirectory.Discovery.Store

/-!
# The site a report is filed under

How `reconcile` (`services/discovery_reconciler.js`) finds the site of a run and
the site of each stored resource.
-/

namespace ThetaDirectory.Discovery

open Library Catalog

/-- The options of a run. -/
structure Options where
  location : Option String := none
  site : Option String := none
  autoPromote : Bool := false

/-- What a run is filed under: with several sites and none marked current it is
refused, and a site that cannot be created leaves it without one. -/
inductive Target where
  | refused
  | site (row : Option Resource)

def locationOf (options : Options) : String :=
  trim (((truthy options.location).or (truthy options.site)).getD "")

/-- The slug of a site created for a location. -/
def locationSlug (location : String) : String :=
  let clean := (fillRuns '_' false (toLowerCase location).toList)
  "site_" ++ String.ofList ((clean.dropWhile (· == '_')).rdropWhile (· == '_'))

def Store.sites (store : Store) : List Resource :=
  store.resources.filter fun row => row.kind = "site"

def isCurrentSite (row : Resource) : Bool := (row.metadata.field "isCurrentSite").isTruthy

/-- The site named by the location; an unknown one is created. -/
def siteAtLocation (env : Env) (location : String) (store : Store) : Option Resource × Store :=
  let wanted := toLowerCase location
  match store.sites.find? fun row =>
      toLowerCase row.name == wanted || toLowerCase row.slug == wanted with
  | some row => (some row, store)
  | none =>
      match store.create (env.hex 0)
          ⟨env.uuid 0, "site", location, locationSlug location, ∅⟩ with
      | .ok (row, store) => (some row, store)
      | .error _ => (none, store)

/-- The directory's own site. -/
def defaultSite (env : Env) (store : Store) : Target × Store :=
  match store.sites.find? isCurrentSite, store.sites with
  | some row, _ => (.site (some row), store)
  | none, [row] => (.site (some row), store)
  | none, _ :: _ :: _ => (.refused, store)
  | none, [] =>
      match store.create (env.hex 1) ⟨env.uuid 1, "site", "Default Site", "site_default",
          (∅ : Metadata).insert "isCurrentSite" (.bool true)⟩ with
      | .ok (row, store) => (.site (some row), store)
      | .error _ => (.site none, store)

def resolveTarget (env : Env) (options : Options) (store : Store) : Target × Store :=
  let location := locationOf options
  if location = "" then defaultSite env store
  else
    match siteAtLocation env location store with
    | (some row, store) => (.site (some row), store)
    | (none, store) => defaultSite env store

/-- Finding the site of a run adds at most the row of that site. -/
structure Located (env : Env) (store later : Store) (site : Option Resource) : Prop where
  edges : later.edges = store.edges
  groups : later.groups = store.groups
  keeps : ∀ row ∈ store.resources, row ∈ later.resources
  adds : ∀ row ∈ later.resources, row ∈ store.resources ∨
    row.kind = "site" ∧ site = some row ∧ ∃ draw < 2, row.id = env.uuid draw
  isSite : ∀ row, site = some row → row ∈ later.resources ∧ row.kind = "site"

theorem Located.stay {env : Env} {store : Store} {site : Option Resource}
    (known : ∀ row, site = some row → row ∈ store.sites) : Located env store store site where
  edges := rfl
  groups := rfl
  keeps := fun _ member => member
  adds := fun _ member => Or.inl member
  isSite := fun row found => by simpa [Store.sites] using known row found

theorem Located.create {env : Env} {store later : Store} {suffix : String} {data : NewResource}
    {row : Resource} (created : store.create suffix data = .ok (row, later))
    (isSite : data.kind = "site") (drawn : ∃ draw < 2, data.id = env.uuid draw) :
    Located env store later (some row) := by
  obtain ⟨rowEq, laterEq, -⟩ := Store.create_ok created
  subst laterEq
  have kind : row.kind = "site" := by simp [rowEq, Store.rowOf, isSite]
  have drawnRow : ∃ draw < 2, row.id = env.uuid draw := by rwa [rowEq, Store.rowOf_id]
  refine ⟨rfl, rfl, fun _ member => List.mem_append_left _ member, ?_, ?_⟩
  · intro found member
    rcases List.mem_append.mp member with old | new
    · exact Or.inl old
    · rw [List.mem_singleton.mp new]
      exact Or.inr ⟨kind, rfl, drawnRow⟩
  · rintro found same
    obtain rfl := Option.some.inj same
    exact ⟨List.mem_append_right _ (List.mem_singleton_self _), kind⟩

theorem located_defaultSite {env : Env} {store later : Store} {site : Option Resource}
    (found : defaultSite env store = (.site site, later)) : Located env store later site := by
  unfold defaultSite at found
  split at found
  · rename_i row current
    cases found
    exact Located.stay fun other same => Option.some.inj same ▸ List.mem_of_find?_eq_some current
  · rename_i row _ only
    cases found
    exact Located.stay fun other same => by
      rw [only, ← Option.some.inj same]
      exact List.mem_singleton_self _
  · cases found
  · split at found
    · rename_i created
      cases found
      exact Located.create created rfl ⟨1, by decide, rfl⟩
    · cases found
      exact Located.stay (by simp)

theorem located_resolveTarget {env : Env} {options : Options} {store later : Store}
    {site : Option Resource} (found : resolveTarget env options store = (.site site, later)) :
    Located env store later site := by
  unfold resolveTarget at found
  dsimp only at found
  split at found
  · exact located_defaultSite found
  · unfold siteAtLocation at found
    dsimp only at found
    split at found
    · rename_i atLocation
      cases found
      split at atLocation
      · rename_i row known
        cases atLocation
        exact Located.stay fun other same => Option.some.inj same ▸ List.mem_of_find?_eq_some known
      · split at atLocation
        · rename_i created
          cases atLocation
          exact Located.create created rfl ⟨0, by decide, rfl⟩
        · cases atLocation
    · rename_i atLocation
      split at atLocation
      · cases atLocation
      · split at atLocation
        · cases atLocation
        · cases atLocation
          exact located_defaultSite found

/-- A run that is refused has written nothing. -/
theorem eq_of_refused {env : Env} {options : Options} {store later : Store}
    (found : resolveTarget env options store = (.refused, later)) : later = store := by
  have default : ∀ {store}, defaultSite env store = (.refused, later) → later = store := by
    intro store refused
    unfold defaultSite at refused
    split at refused
    · cases refused
    · cases refused
    · cases refused
      rfl
    · split at refused <;> cases refused
  unfold resolveTarget siteAtLocation at found
  dsimp only at found
  split at found
  · exact default found
  · split at found
    · cases found
    · rename_i atLocation
      split at atLocation
      · cases atLocation
      · split at atLocation
        · cases atLocation
        · cases atLocation
          exact default found

/-! ## The site above a resource -/

def parentsOf (edges : List EdgeRow) (id : String) : List String :=
  (edges.filter fun edge => edge.childId == id && id != "" && edge.parentId != "").map (·.parentId)

/-- The map `siteOf` and the set `visited` of one traversal. -/
structure SiteWalk where
  siteOf : JsMap (Option String)
  visited : List String

/-- Visit the parents until one has a site.  A visit cut short by a cycle is not
cached. -/
def climb (edges : List EdgeRow) (visit : String → SiteWalk → Option String × SiteWalk)
    (id : String) (walk : SiteWalk) : Option String × SiteWalk :=
  let (found, walk) := (parentsOf edges id).foldl (fun (state : Option String × SiteWalk) parent =>
    if state.1.isSome then state else visit parent state.2) (none, walk)
  if found.isSome || walk.visited.length = 1 then
    (found, { walk with siteOf := walk.siteOf.insert id found })
  else (found, walk)

/-- Walk up to the nearest site.  Each call but the last adds an end of an edge to
`visited`, so a depth of the number of edges and two is never used up. -/
def computeSiteOf (resources : List Resource) (edges : List EdgeRow) :
    Nat → String → SiteWalk → Option String × SiteWalk
  | 0, _, walk => (none, walk)
  | depth + 1, id, walk =>
      match walk.siteOf.lookup id with
      | some known => (known, walk)
      | none =>
          if id ∈ walk.visited then (none, walk)
          else
            let walk := { walk with visited := id :: walk.visited }
            match resources.findRev? fun row => row.id == id with
            | some row =>
                if row.kind = "site" then
                  (some row.id, { walk with siteOf := walk.siteOf.insert id (some row.id) })
                else climb edges (computeSiteOf resources edges depth) id walk
            | none => climb edges (computeSiteOf resources edges depth) id walk

/-- The site of every stored resource. -/
def siteMap (store : Store) : JsMap (Option String) :=
  store.resources.foldl (fun siteOf row =>
    (computeSiteOf store.resources store.edges (store.edges.length + 2) row.id ⟨siteOf, []⟩).2.siteOf)
    ∅

end ThetaDirectory.Discovery
