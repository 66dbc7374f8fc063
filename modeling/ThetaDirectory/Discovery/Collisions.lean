import ThetaDirectory.Discovery.Settling
import ThetaDirectory.Discovery.Validation

/-!
# When a run fails on a taken slug

The weaker tiers of the matcher keep to one site and one identity class, slugs are unique
over the whole catalogue.  A run throws exactly when some resource of its payload has the
slug or the id of a stored row and no tier takes it to a row.
-/

namespace ThetaDirectory.Discovery

open Library Catalog

/-- Some tier takes the row for the item: the id; a MAC; and, for a row of the site with no
MAC of its own, an IP, or the name or slug of an item that reports no address. -/
def Matches (cache : TemplateCache) (scope : Scope) (item : Item) (row : Resource) : Prop :=
  isCandidate cache item row = true ∧
    (truthy item.id = some row.id ∨ sharesMac (macsOf item.metadata) row = true ∨
      hasStrongIdentity row = false ∧ scope.admits row.id = true ∧
        (sharesIp (ipsOf item.metadata) row = true ∨
          macsOf item.metadata = [] ∧ ipsOf item.metadata = [] ∧
            sharesName item.name item.slug row = true))

/-- The matcher finds a row exactly when some tier takes one of the pool. -/
theorem findExistingMatch_isSome {item : Item} {pool : List Resource} {scope : Scope} :
    (findExistingMatch item pool scope).isSome = true ↔ ∃ row ∈ pool,
      truthy item.id = some row.id ∨ sharesMac (macsOf item.metadata) row = true ∨
        hasStrongIdentity row = false ∧ scope.admits row.id = true ∧
          (sharesIp (ipsOf item.metadata) row = true ∨
            macsOf item.metadata = [] ∧ ipsOf item.metadata = [] ∧
              sharesName item.name item.slug row = true) := by
  have byId : ((truthy item.id).bind fun id => pool.find? fun row => row.id == id).isSome =
      true ↔ ∃ row ∈ pool, truthy item.id = some row.id := by
    cases given : truthy item.id with
    | none => simp
    | some id =>
        simp only [Option.bind_some, List.find?_isSome, beq_iff_eq, Option.some.injEq]
        exact exists_congr fun row => and_congr_right fun _ => eq_comm
  have byMac : (matchByMac (macsOf item.metadata) pool).isSome = true ↔
      ∃ row ∈ pool, sharesMac (macsOf item.metadata) row = true := by
    unfold matchByMac
    split
    · rename_i none
      rw [List.isEmpty_iff] at none
      simp [none, sharesMac_nil]
    · simp [List.find?_isSome]
  have byIp : (matchByIp (ipsOf item.metadata) pool scope).isSome = true ↔
      ∃ row ∈ pool, hasStrongIdentity row = false ∧ scope.admits row.id = true ∧
        sharesIp (ipsOf item.metadata) row = true := by
    unfold matchByIp
    split
    · rename_i none
      rw [List.isEmpty_iff] at none
      simp [none, sharesIp_nil]
    · simp [List.find?_isSome, and_assoc]
  have byName : (matchByNameOrSlug item.name item.slug pool scope).isSome = true ↔
      ∃ row ∈ pool, hasStrongIdentity row = false ∧ scope.admits row.id = true ∧
        sharesName item.name item.slug row = true := by
    unfold matchByNameOrSlug
    split
    · rename_i blank
      simp only [Bool.and_eq_true, Option.isNone_iff_eq_none] at blank
      simp [sharesName_blank _ blank.1 blank.2]
    · simp [List.find?_isSome, and_assoc]
  simp only [findExistingMatch, Option.isSome_or, Bool.or_eq_true, byId, byMac, byIp]
  split
  · rename_i addressless
    simp only [Bool.and_eq_true, List.isEmpty_iff] at addressless
    simp only [byName, addressless, true_and, ← exists_or, ← and_or_left]
  · rename_i addressed
    simp only [Bool.and_eq_true, List.isEmpty_iff, not_and] at addressed
    have never : ∀ row, ¬ (macsOf item.metadata = [] ∧ ipsOf item.metadata = [] ∧
        sharesName item.name item.slug row = true) :=
      fun row blank => addressed blank.1 blank.2.1
    simp only [Option.isSome_none, Bool.false_eq_true, or_false, never, ← exists_or,
      ← and_or_left]

/-- The site the weaker tiers keep to, as the loop knows it. -/
def scopeOf (context : Context) (run : Run) : Scope :=
  ⟨fun id => (run.siteOf.lookup id).join, context.incomingSiteId⟩

/-- The row a resource is filed as when no tier takes it to a row. -/
def filedRow (context : Context) (run : Run) (item : Item) : Resource :=
  run.store.rowOf (context.env.hex (run.draws + 1)) (newResource context run.draws item)

/-- If a stored row has the id or the slug the item would be filed under, then some tier
takes the item to a row. -/
def Placeable (context : Context) (run : Run) (item : Item) : Prop :=
  (∃ row ∈ run.store.resources, row.id = (filedRow context run item).id ∨
      row.slug = (filedRow context run item).slug) →
    ∃ row ∈ run.store.resources, Matches context.cache (scopeOf context run) item row

theorem matchOf_isSome {context : Context} {run : Run} {item : Item} :
    (matchOf context run item).isSome = true ↔
      ∃ row ∈ run.store.resources, Matches context.cache (scopeOf context run) item row := by
  rw [matchOf, findExistingMatch_isSome]
  simp only [List.mem_filter, Matches, scopeOf, and_assoc]

/-- Step lemma: placing one resource throws unless it is placeable. -/
theorem placeItem_isOk_iff (context : Context) (run : Run) (item : Item) :
    (placeItem context run item).isOk = true ↔ Placeable context run item := by
  unfold placeItem
  cases found : matchOf context run item with
  | some existing =>
      have matched := matchOf_isSome.mp (by rw [found]; rfl)
      exact iff_of_true rfl fun _ => matched
  | none =>
      have unmatched : ¬ ∃ row ∈ run.store.resources,
          Matches context.cache (scopeOf context run) item row := by
        rw [← matchOf_isSome, found]
        decide
      unfold Placeable Store.create filedRow
      dsimp only
      split
      · rename_i taken
        simp only [List.any_eq_true, Bool.or_eq_true, beq_iff_eq] at taken
        exact iff_of_false (fun ok => Bool.false_ne_true ok) fun placeable =>
          unmatched (placeable taken)
      · rename_i free
        simp only [List.any_eq_true, Bool.or_eq_true, beq_iff_eq] at free
        exact iff_of_true rfl fun taken => absurd taken free

/-- Run lemma: the loop throws nothing exactly when every resource it comes to is
placeable. -/
theorem placeAll_ok_iff (context : Context) (items : List Item) (start : Run) :
    (placeAll context items start).2 = none ↔
      ∀ before item after, items = before ++ item :: after →
        (placeAll context before start).2 = none →
          Placeable context (placeAll context before start).1 item := by
  induction items generalizing start with
  | nil => simp [placeAll]
  | cons head items ih =>
      have first := placeItem_isOk_iff context start head
      cases placed : placeItem context start head with
      | error text =>
          rw [placed] at first
          have notPlaceable : ¬ Placeable context start head := fun placeable =>
            Bool.false_ne_true (first.mpr placeable)
          simp only [placeAll, placed, reduceCtorEq, false_iff]
          exact fun every => notPlaceable (every [] head items rfl rfl)
      | ok next =>
          rw [placed] at first
          have unfolded : ∀ rest, placeAll context (head :: rest) start =
              placeAll context rest next := by
            intro rest
            simp only [placeAll, placed]
          rw [unfolded, ih]
          constructor
          · intro every before item after split noError
            cases before with
            | nil =>
                cases split
                exact first.mp rfl
            | cons other before =>
                cases split
                rw [unfolded] at noError ⊢
                exact every before item after rfl noError
          · intro every before item after split noError
            have later := every (head :: before) item after (by rw [split]; rfl)
            rw [unfolded] at later
            exact later noError

/-- Every resource of the payload is placeable when the run comes to it. -/
def EveryPlaceable (env : Env) (cache : TemplateCache) (sourceName : String) (payload : Payload)
    (options : Options) (store : Store) : Prop :=
  ∀ site later, resolveTarget env options store = (.site site, later) →
    ∀ before item after, payload.resources.map (promote options) = before ++ item :: after →
      ∀ run, placeAll ⟨env, cache, sourceName, site.map (·.id)⟩ before
          ⟨later, siteMap later, [], 2⟩ = (run, none) →
        Placeable ⟨env, cache, sourceName, site.map (·.id)⟩ run item

/-- A run throws nothing exactly when it can place every resource. -/
theorem everyPlaceable_iff {env : Env} {cache : TemplateCache} {sourceName : String}
    {payload : Payload} {options : Options} {store : Store} :
    EveryPlaceable env cache sourceName payload options store ↔
      (reconcile env cache sourceName payload options store).2 = none := by
  unfold EveryPlaceable
  rcases reconcile_cases env cache sourceName payload options store with
    ⟨refused, later, found⟩ | ⟨site, later, run, error, found, placed, outcome⟩
  · rw [refused]
    refine iff_of_true (fun site other resolved => ?_) rfl
    rw [found] at resolved
    cases resolved
  · have loop := placeAll_ok_iff ⟨env, cache, sourceName, site.map (·.id)⟩
      (payload.resources.map (promote options)) ⟨later, siteMap later, [], 2⟩
    have errorEq : (reconcile env cache sourceName payload options store).2 = error := by
      rcases outcome with ⟨-, thrown⟩ | ⟨noError, finished⟩
      · rw [thrown]
      · rw [finished, noError]
    rw [errorEq]
    rw [placed] at loop
    rw [loop]
    constructor
    · intro every before item after split noError
      refine every site later found before item after split _ ?_
      rw [← noError]
    · intro every site' later' resolved before item after split run' ran
      rw [found] at resolved
      cases resolved
      have placeable := every before item after split
      rw [ran] at placeable
      exact placeable rfl

/-- A host of one site, which another source found there. -/
private def officeUbuntu : Store where
  resources := [⟨"o", "site", "office", "site_office", none, none, ∅⟩,
    ⟨"l", "site", "lab", "site_lab", none, none, ∅⟩,
    ⟨"u", "host", "ubuntu", "ubuntu", none, none, withSources ∅ ["nmap"]⟩]
  edges := [⟨"e", "o", "u", "hosts", some "nmap"⟩]
  groups := []

end ThetaDirectory.Discovery
