import ThetaDirectory.Discovery.Sites
import ThetaDirectory.Library.DepthFirst

/-!
# Every site above is found

The shared map of `computeSiteOf` (`services/discovery_reconciler.js`) against the graph
of the edges.  A visit without a site leaves behind a set that only leads back into
itself or to keys without a site, so a visit that started with nothing visited has seen
everything above its start.
-/

namespace ThetaDirectory.Discovery

open Library Catalog DepthFirst Relation

/-! ## The graph -/

/-- The last row with the id is a site. -/
def IsSite (resources : List Resource) (id : String) : Prop :=
  ∃ row, (resources.findRev? fun row => row.id == id) = some row ∧ row.kind = "site"

/-- An edge with two ends leads from the parent to the child. -/
def IsParent (edges : List EdgeRow) (child parent : String) : Prop :=
  child ≠ "" ∧ parent ≠ "" ∧ IsChild edges parent child

/-- The site is the key itself or one of its ancestors. -/
def SiteAbove (resources : List Resource) (edges : List EdgeRow) (id site : String) : Prop :=
  IsSite resources site ∧ ReflTransGen (IsParent edges) id site

variable {resources : List Resource} {edges : List EdgeRow} {id : String}

theorem mem_parentsOf {parent : String} :
    parent ∈ parentsOf edges id ↔ IsParent edges id parent := by
  simp only [parentsOf, List.mem_map, List.mem_filter, Bool.and_eq_true, beq_iff_eq, bne_iff_ne,
    IsParent, IsChild]
  constructor
  · rintro ⟨edge, ⟨known, ⟨isChild, named⟩, parented⟩, rfl⟩
    exact ⟨named, parented, edge, known, rfl, isChild⟩
  · rintro ⟨named, parented, edge, known, rfl, isChild⟩
    exact ⟨edge, ⟨known, ⟨isChild, named⟩, parented⟩, rfl⟩

theorem parentsOf_subset (edges : List EdgeRow) (id : String) :
    parentsOf edges id ⊆ edges.map (·.parentId) :=
  List.map_subset _ (List.filter_subset_self _)

theorem SiteAbove.up {parent site : String} (isParent : IsParent edges id parent)
    (above : SiteAbove resources edges parent site) : SiteAbove resources edges id site :=
  ⟨above.1, above.2.head isParent⟩

theorem mem_of_findRev {row : Resource} :
    (resources.findRev? fun row => row.id == id) = some row → row ∈ resources ∧ row.id = id := by
  induction resources with
  | nil => exact nofun
  | cons first resources ih =>
      intro found
      rw [List.findRev?] at found
      split at found
      · rename_i later behind
        obtain ⟨member, same⟩ := ih (behind.trans found)
        exact ⟨List.mem_cons_of_mem first member, same⟩
      · split at found
        · rename_i same
          cases found
          exact ⟨List.mem_cons_self, eq_of_beq same⟩
        · cases found

def NoSite (resources : List Resource) (edges : List EdgeRow) (id : String) : Prop :=
  ∀ site, ¬ SiteAbove resources edges id site

/-! ## The cache -/

/-- Everything the map holds is right. -/
structure Sound (resources : List Resource) (edges : List EdgeRow)
    (siteOf : JsMap (Option String)) : Prop where
  isAbove : ∀ id site, siteOf.lookup id = some (some site) → SiteAbove resources edges id site
  isNone : ∀ id, siteOf.lookup id = some none → NoSite resources edges id

theorem Sound.empty : Sound resources edges ∅ where
  isAbove := fun id site found => by simp at found
  isNone := fun id found => by simp at found

theorem Sound.insert {siteOf : JsMap (Option String)} (sound : Sound resources edges siteOf)
    {found : Option String} (isAbove : ∀ site, found = some site → SiteAbove resources edges id site)
    (isNone : found = none → NoSite resources edges id) :
    Sound resources edges (siteOf.insert id found) where
  isAbove := by
    intro other site known
    rw [JsMap.lookup_insert] at known
    split at known
    · rename_i same
      exact same ▸ isAbove site (Option.some.inj known)
    · exact sound.isAbove other site known
  isNone := by
    intro other known
    rw [JsMap.lookup_insert] at known
    split at known
    · rename_i same
      exact same ▸ isNone (Option.some.inj known)
    · exact sound.isNone other known

/-! ## What a visit leaves behind -/

/-- The key is no site, and its parents are visited or have none. -/
def Shut (resources : List Resource) (edges : List EdgeRow) (visited : List String)
    (id : String) : Prop :=
  ¬ IsSite resources id ∧
    ∀ parent, IsParent edges id parent → parent ∈ visited ∨ NoSite resources edges parent

theorem Shut.mono {visited more : List String} (shut : Shut resources edges visited id)
    (subset : visited ⊆ more) : Shut resources edges more id :=
  ⟨shut.1, fun parent isParent => (shut.2 parent isParent).imp_left (@subset parent)⟩

/-- A shut set hides no site. -/
theorem noSite_of_shut {visited : List String}
    (shut : ∀ key ∈ visited, Shut resources edges visited key) :
    ∀ key ∈ visited, NoSite resources edges key := by
  intro key member site ⟨isSite, path⟩
  induction path using ReflTransGen.head_induction_on with
  | refl => exact (shut site member).1 isSite
  | head isParent path ih =>
      rcases (shut _ member).2 _ isParent with inside | noSite
      · exact ih inside
      · exact noSite site ⟨isSite, path⟩

/-- The outcome of visiting keys one after the other. -/
structure Climbed (resources : List Resource) (edges : List EdgeRow) (ids : List String)
    (walk : SiteWalk) (found : Option String) (after : SiteWalk) : Prop where
  sound : Sound resources edges after.siteOf
  keeps : ∀ key ∈ walk.siteOf, key ∈ after.siteOf
  visits : walk.visited ⊆ after.visited
  isAbove : ∀ site, found = some site → ∃ id ∈ ids, SiteAbove resources edges id site
  isNone : found = none → ∀ id ∈ ids, id ∈ after.visited ∨ NoSite resources edges id
  isShut : found = none → ∀ key ∈ after.visited, key ∉ walk.visited →
    Shut resources edges after.visited key

variable {walk middle after : SiteWalk} {found : Option String} {ids : List String}

theorem Climbed.nothing (sound : Sound resources edges walk.siteOf)
    (isNone : id ∈ walk.visited ∨ NoSite resources edges id) :
    Climbed resources edges [id] walk none walk where
  sound := sound
  keeps := fun _ member => member
  visits := List.Subset.refl _
  isAbove := fun _ => nofun
  isNone := fun _ _ member => List.mem_singleton.mp member ▸ isNone
  isShut := fun _ _ member fresh => absurd member fresh

theorem Climbed.ofSite {site : String} (above : SiteAbove resources edges id site)
    (sound : Sound resources edges after.siteOf)
    (keeps : ∀ key ∈ walk.siteOf, key ∈ after.siteOf) (visits : walk.visited ⊆ after.visited) :
    Climbed resources edges [id] walk (some site) after where
  sound := sound
  keeps := keeps
  visits := visits
  isAbove := fun _ same => ⟨id, List.mem_singleton_self id, Option.some.inj same ▸ above⟩
  isNone := nofun
  isShut := nofun

theorem Climbed.nil (sound : Sound resources edges walk.siteOf) :
    Climbed resources edges [] walk none walk where
  sound := sound
  keeps := fun _ member => member
  visits := List.Subset.refl _
  isAbove := nofun
  isNone := fun _ => nofun
  isShut := fun _ _ member fresh => absurd member fresh

theorem Climbed.cons (first : Climbed resources edges [id] walk none middle)
    (later : Climbed resources edges ids middle found after) :
    Climbed resources edges (id :: ids) walk found after where
  sound := later.sound
  keeps := fun key member => later.keeps key (first.keeps key member)
  visits := List.Subset.trans first.visits later.visits
  isAbove := by
    intro site same
    obtain ⟨other, member, above⟩ := later.isAbove site same
    exact ⟨other, List.mem_cons_of_mem id member, above⟩
  isNone := by
    intro none other member
    rcases List.mem_cons.mp member with rfl | behind
    · exact (first.isNone rfl other (List.mem_singleton_self other)).imp_left (@later.visits other)
    · exact later.isNone none other behind
  isShut := by
    intro none key member fresh
    by_cases early : key ∈ middle.visited
    · exact (first.isShut rfl key early fresh).mono later.visits
    · exact later.isShut none key member early

theorem Climbed.weaken {more : List String} (climbed : Climbed resources edges [id] walk found after)
    (isFound : found ≠ none) : Climbed resources edges (id :: more) walk found after where
  sound := climbed.sound
  keeps := climbed.keeps
  visits := climbed.visits
  isAbove := by
    intro site same
    obtain ⟨other, member, above⟩ := climbed.isAbove site same
    exact ⟨other, List.mem_cons.mpr (Or.inl (List.mem_singleton.mp member)), above⟩
  isNone := fun none => absurd none isFound
  isShut := fun none => absurd none isFound

/-- The parents of a new key are visited after the key itself. -/
theorem Climbed.close (fresh : id ∉ walk.visited) (notSite : ¬ IsSite resources id)
    (along : Climbed resources edges (parentsOf edges id)
      { walk with visited := id :: walk.visited } found after) :
    Climbed resources edges [id] walk found after where
  sound := along.sound
  keeps := along.keeps
  visits := List.Subset.trans (List.subset_cons_self id walk.visited) along.visits
  isAbove := by
    intro site same
    obtain ⟨parent, isParent, above⟩ := along.isAbove site same
    exact ⟨id, List.mem_singleton_self id, above.up (mem_parentsOf.mp isParent)⟩
  isNone := by
    intro _ other member
    rw [List.mem_singleton.mp member]
    exact Or.inl (along.visits List.mem_cons_self)
  isShut := by
    intro none key member early
    by_cases same : key = id
    · subst same
      exact ⟨notSite, fun parent isParent => along.isNone none parent (mem_parentsOf.mpr isParent)⟩
    · apply along.isShut none key member
      exact List.not_mem_cons_of_ne_of_not_mem same early

/-- A right answer may be kept in the map. -/
theorem Climbed.cache (climbed : Climbed resources edges [id] walk found after)
    (isNone : found = none → NoSite resources edges id) :
    Climbed resources edges [id] walk found
      { after with siteOf := after.siteOf.insert id found } where
  sound := by
    apply climbed.sound.insert _ isNone
    intro site same
    obtain ⟨other, member, above⟩ := climbed.isAbove site same
    rwa [List.mem_singleton.mp member] at above
  keeps := fun key member => (AList.mem_insert _).mpr (Or.inr (climbed.keeps key member))
  visits := climbed.visits
  isAbove := climbed.isAbove
  isNone := climbed.isNone
  isShut := climbed.isShut

/-- A visit that started with nothing visited has seen everything above. -/
theorem Climbed.noSite (climbed : Climbed resources edges [id] walk none after)
    (early : walk.visited = []) : NoSite resources edges id := by
  have shut (key : String) (member : key ∈ after.visited) :
      Shut resources edges after.visited key :=
    climbed.isShut rfl key member (early ▸ List.not_mem_nil)
  rcases climbed.isNone rfl id (List.mem_singleton_self id) with visited | noSite
  · exact noSite_of_shut shut id visited
  · exact noSite

/-- A visit that has seen nothing but its start started with nothing visited. -/
theorem Climbed.early (climbed : Climbed resources edges [id] walk found after)
    (visited : id ∈ after.visited) (fresh : id ∉ walk.visited)
    (single : after.visited.length = 1) : walk.visited = [] := by
  obtain ⟨only, alone⟩ := List.length_eq_one_iff.mp single
  apply List.eq_nil_iff_forall_not_mem.mpr
  intro key member
  have same : key = id := by
    have isOnly := climbed.visits member
    rw [alone] at isOnly visited
    exact (List.mem_singleton.mp isOnly).trans (List.mem_singleton.mp visited).symm
  exact fresh (same ▸ member)

/-! ## Visiting the parents -/

/-- Visits of parents that climb once some keys are visited. -/
def Climbs (resources : List Resource) (edges : List EdgeRow) (visited : List String)
    (visit : String → SiteWalk → Option String × SiteWalk) : Prop :=
  ∀ parent ∈ edges.map (·.parentId), ∀ walk : SiteWalk, Sound resources edges walk.siteOf →
    visited ⊆ walk.visited →
    Climbed resources edges [parent] walk (visit parent walk).1 (visit parent walk).2

/-- One parent of the loop in `climb`. -/
def tryParent (visit : String → SiteWalk → Option String × SiteWalk)
    (state : Option String × SiteWalk) (parent : String) : Option String × SiteWalk :=
  if state.1.isSome then state else visit parent state.2

variable {visit : String → SiteWalk → Option String × SiteWalk}

theorem foldl_tryParent_some (parents : List String) (site : String) (walk : SiteWalk) :
    parents.foldl (tryParent visit) (some site, walk) = (some site, walk) := by
  induction parents with
  | nil => rfl
  | cons parent parents ih => exact ih

theorem Climbs.foldl {visited : List String} (climbs : Climbs resources edges visited visit)
    {parents : List String} (known : parents ⊆ edges.map (·.parentId)) {walk : SiteWalk}
    (sound : Sound resources edges walk.siteOf) (onward : visited ⊆ walk.visited) :
    Climbed resources edges parents walk (parents.foldl (tryParent visit) (none, walk)).1
      (parents.foldl (tryParent visit) (none, walk)).2 := by
  induction parents generalizing walk with
  | nil => exact .nil sound
  | cons parent parents ih =>
      obtain ⟨isParent, others⟩ := List.cons_subset.mp known
      have first := climbs parent isParent walk sound onward
      rw [List.foldl_cons]
      change Climbed _ _ _ _ (parents.foldl _ (visit parent walk)).1
        (parents.foldl _ (visit parent walk)).2
      cases outcome : visit parent walk with
      | mk found middle =>
          rw [outcome] at first
          cases found with
          | none => exact first.cons (ih others first.sound (List.Subset.trans onward first.visits))
          | some site =>
              rw [foldl_tryParent_some]
              exact first.weaken (Option.some_ne_none site)

theorem climb_eq (id : String) (walk : SiteWalk) :
    climb edges visit id walk =
      let state := (parentsOf edges id).foldl (tryParent visit) (none, walk)
      if state.1.isSome || state.2.visited.length = 1 then
        (state.1, { state.2 with siteOf := state.2.siteOf.insert id state.1 })
      else state := rfl

/-- The loop of a key that is no site and was not visited before. -/
theorem Climbs.step {walk : SiteWalk} (sound : Sound resources edges walk.siteOf)
    (climbs : Climbs resources edges (id :: walk.visited) visit) (fresh : id ∉ walk.visited)
    (notSite : ¬ IsSite resources id) :
    let state := climb edges visit id { walk with visited := id :: walk.visited }
    Climbed resources edges [id] walk state.1 state.2 := by
  let entered : SiteWalk := { walk with visited := id :: walk.visited }
  have along : Climbed resources edges (parentsOf edges id) entered _ _ :=
    climbs.foldl (parentsOf_subset edges id) sound (List.Subset.refl _)
  have closed := along.close fresh notSite
  have visited := along.visits List.mem_cons_self
  rw [climb_eq]
  generalize (parentsOf edges id).foldl (tryParent visit) (none, entered) = state at closed visited
  dsimp only
  split
  · rename_i settled
    apply closed.cache
    intro none
    rw [none] at closed
    have single : state.2.visited.length = 1 := by simpa [none] using settled
    exact closed.noSite (closed.early visited fresh single)
  · exact closed

/-! ## One visit -/

/-- Every visit with a depth that is not used up climbs. -/
theorem climbed_computeSiteOf {depth : Nat} {walk : SiteWalk}
    (sound : Sound resources edges walk.siteOf)
    (enough : id ∈ walk.visited ∨ unseen (edges.map (·.parentId)) (id :: walk.visited) < depth) :
    Climbed resources edges [id] walk (computeSiteOf resources edges depth id walk).1
      (computeSiteOf resources edges depth id walk).2 := by
  induction depth generalizing id walk with
  | zero =>
      exact Climbed.nothing sound (Or.inl (enough.resolve_right (Nat.not_lt_zero _)))
  | succ depth ih =>
      rw [computeSiteOf]
      split
      · rename_i known cached
        cases known with
        | none => exact Climbed.nothing sound (Or.inr (sound.isNone id cached))
        | some site =>
            exact Climbed.ofSite (sound.isAbove id site cached) sound (fun _ member => member)
              (List.Subset.refl _)
      · split
        · rename_i visited
          exact Climbed.nothing sound (Or.inl visited)
        · rename_i fresh
          have climbs : Climbs resources edges (id :: walk.visited)
              (computeSiteOf resources edges depth) := by
            intro parent isParent later sound onward
            apply ih sound
            by_cases seen : parent ∈ later.visited
            · exact Or.inl seen
            · have fewer := unseen_cons_lt isParent seen
              have atMost := unseen_mono (edges.map (·.parentId)) onward
              have behind := enough.resolve_left fresh
              exact Or.inr (by omega)
          split
          · rename_i row stored
            split
            · rename_i isSite
              obtain ⟨member, same⟩ := mem_of_findRev stored
              have above : SiteAbove resources edges id row.id :=
                ⟨⟨row, same.symm ▸ stored, isSite⟩, same ▸ .refl⟩
              apply Climbed.ofSite above
              · exact sound.insert (fun site named => Option.some.inj named ▸ above) nofun
              · exact fun key member => (AList.mem_insert _).mpr (Or.inr member)
              · exact List.subset_cons_self id walk.visited
            · rename_i notSite
              apply climbs.step sound fresh
              rintro ⟨other, found, isSite⟩
              cases stored.symm.trans found
              exact notSite isSite
          · rename_i missing
            apply climbs.step sound fresh
            rintro ⟨other, found, -⟩
            cases missing.symm.trans found

/-- A site that is found is kept in the map. -/
theorem mem_of_computeSiteOf {depth : Nat} {walk : SiteWalk} {site : String}
    (found : (computeSiteOf resources edges depth id walk).1 = some site) :
    id ∈ (computeSiteOf resources edges depth id walk).2.siteOf := by
  have climbed (entered : SiteWalk)
      (found : (climb edges (computeSiteOf resources edges (depth - 1)) id entered).1 = some site) :
      id ∈ (climb edges (computeSiteOf resources edges (depth - 1)) id entered).2.siteOf := by
    rw [climb_eq] at found ⊢
    dsimp only at found ⊢
    split
    · exact (AList.mem_insert _).mpr (Or.inl rfl)
    · rename_i unsettled
      rw [if_neg unsettled] at found
      simp [found] at unsettled
  cases depth with
  | zero => cases found
  | succ depth =>
      rw [computeSiteOf] at found ⊢
      split at found
      · rename_i known cached
        exact JsMap.mem_iff_lookup.mpr ⟨known, cached⟩
      · split at found
        · cases found
        · rename_i fresh
          rw [if_neg fresh]
          split at found
          · rename_i row stored
            split at found
            · rename_i isSite
              simp only [if_pos isSite]
              exact (AList.mem_insert _).mpr (Or.inl rfl)
            · rename_i notSite
              simp only [if_neg notSite]
              exact climbed _ found
          · exact climbed _ found

/-! ## The whole list -/

/-- The answer is a site above, and only without one there is none. -/
def Answers (resources : List Resource) (edges : List EdgeRow) (id : String)
    (answer : Option String) : Prop :=
  (answer = none ↔ NoSite resources edges id) ∧
    ∀ site, answer = some site → SiteAbove resources edges id site

/-- The site looked up with the map at hand. -/
def siteLookup (store : Store) (siteOf : JsMap (Option String)) (id : String) :
    Option String × SiteWalk :=
  computeSiteOf store.resources store.edges (store.edges.length + 2) id ⟨siteOf, []⟩

/-- One resource of the loop that fills the map. -/
def lookUpRow (store : Store) (siteOf : JsMap (Option String)) (row : Resource) :
    JsMap (Option String) :=
  (siteLookup store siteOf row.id).2.siteOf

variable {store : Store} {siteOf : JsMap (Option String)}

theorem climbed_siteLookup (sound : Sound store.resources store.edges siteOf) (id : String) :
    Climbed store.resources store.edges [id] ⟨siteOf, []⟩ (siteLookup store siteOf id).1
      (siteLookup store siteOf id).2 := by
  apply climbed_computeSiteOf sound
  right
  apply Nat.lt_of_le_of_lt (unseen_mono _ (List.nil_subset [id]))
  apply Nat.lt_of_le_of_lt (unseen_nil_le _)
  rw [List.length_map]
  omega

theorem answers_siteLookup (sound : Sound store.resources store.edges siteOf) (id : String) :
    Answers store.resources store.edges id (siteLookup store siteOf id).1 := by
  have climbed := climbed_siteLookup sound id
  have isAbove : ∀ site, (siteLookup store siteOf id).1 = some site →
      SiteAbove store.resources store.edges id site := by
    intro site found
    obtain ⟨other, member, above⟩ := climbed.isAbove site found
    rwa [List.mem_singleton.mp member] at above
  refine ⟨⟨?_, ?_⟩, isAbove⟩
  · intro none
    rw [none] at climbed
    exact climbed.noSite rfl
  · intro noSite
    cases found : (siteLookup store siteOf id).1 with
    | none => rfl
    | some site => exact absurd (isAbove site found) (noSite site)

/-- A sound map with an entry for every key below a site answers every lookup. -/
theorem Sound.answers (sound : Sound resources edges siteOf)
    (kept : (∃ site, SiteAbove resources edges id site) → id ∈ siteOf) :
    Answers resources edges id (siteOf.lookup id).join := by
  refine ⟨⟨?_, ?_⟩, ?_⟩
  · intro none site above
    obtain ⟨answer, cached⟩ := JsMap.mem_iff_lookup.mp (kept ⟨site, above⟩)
    rw [cached, Option.join_some] at none
    rw [none] at cached
    exact sound.isNone id cached site above
  · intro noSite
    apply Option.eq_none_iff_forall_ne_some.mpr
    intro site found
    exact noSite site (sound.isAbove id site (Option.join_eq_some_iff.mp found))
  · exact fun site found => sound.isAbove id site (Option.join_eq_some_iff.mp found)

/-- The rows in turn keep the map sound and settle every row of theirs. -/
theorem sound_foldl (store : Store) (rows : List Resource) {siteOf : JsMap (Option String)}
    (sound : Sound store.resources store.edges siteOf) :
    Sound store.resources store.edges (rows.foldl (lookUpRow store) siteOf) ∧
      (∀ key ∈ siteOf, key ∈ rows.foldl (lookUpRow store) siteOf) ∧
      ∀ row ∈ rows, (∃ site, SiteAbove store.resources store.edges row.id site) →
        row.id ∈ rows.foldl (lookUpRow store) siteOf := by
  induction rows generalizing siteOf with
  | nil => exact ⟨sound, fun _ member => member, nofun⟩
  | cons row rows ih =>
      have climbed := climbed_siteLookup sound row.id
      obtain ⟨later, keeps, settled⟩ := ih climbed.sound
      refine ⟨later, fun key member => keeps key (climbed.keeps key member), ?_⟩
      intro other member above
      rcases List.mem_cons.mp member with rfl | behind
      · obtain ⟨site, above⟩ := above
        apply keeps
        cases found : (siteLookup store siteOf other.id).1 with
        | none => exact absurd above ((answers_siteLookup sound other.id).1.mp found site)
        | some other => exact mem_of_computeSiteOf found
      · exact settled other behind above

/-- Every row finds a site above it at its own turn, in the finished map, and in every
later lookup, exactly when there is one. -/
theorem siteMap_answers {before after : List Resource} {row : Resource}
    (inTurn : store.resources = before ++ row :: after) :
    Answers store.resources store.edges row.id
        (siteLookup store (before.foldl (lookUpRow store) ∅) row.id).1 ∧
      Answers store.resources store.edges row.id ((siteMap store).lookup row.id).join ∧
      Answers store.resources store.edges row.id (siteLookup store (siteMap store) row.id).1 := by
  obtain ⟨early, -, -⟩ := sound_foldl store before Sound.empty
  obtain ⟨sound, -, settled⟩ := sound_foldl store store.resources Sound.empty
  have known : row ∈ store.resources := by simp [inTurn]
  refine ⟨answers_siteLookup early row.id, ?_, answers_siteLookup sound row.id⟩
  exact sound.answers (settled row known)

def ringRow (id kind : String) : Resource := ⟨id, kind, id, id, none, none, ∅⟩

/-- Two hosts in a ring, one of them below a site. -/
def ring : Store where
  resources := [ringRow "a" "host", ringRow "b" "host", ringRow "s" "site"]
  edges :=
    [⟨"1", "b", "a", "contains", none⟩, ⟨"2", "a", "b", "contains", none⟩,
      ⟨"3", "s", "b", "contains", none⟩]
  groups := []

theorem siteMap_answers_ring :
    Answers ring.resources ring.edges "b" ((siteMap ring).lookup "b").join ∧
      ((siteMap ring).lookup "b").join = some "s" :=
  ⟨(@siteMap_answers ring [ringRow "a" "host"] [ringRow "s" "site"] (ringRow "b" "host") rfl).2.1,
    by decide +kernel⟩

end ThetaDirectory.Discovery
