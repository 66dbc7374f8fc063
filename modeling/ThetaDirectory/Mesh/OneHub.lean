import ThetaDirectory.Mesh.Roster

/-!
# One hub

Which rows of a roster are marked as hub, through every run in which no call marks a site behind
the back of another one, and an adoption that brings a new hub also clears the old one.
-/

namespace ThetaDirectory.Mesh.Roster

open Library Library.Interleaving

/-! ## Where a call stands -/

/-- The site a call is going to mark, and those it is going to clear before that. -/
def Phase.claim : Phase → Option (Nat × List Nat)
  | .clearing target site rest => some (target.siteId, (site :: rest).map MeshSite.siteId)
  | .marking target => some (target.siteId, [])
  | .creating own true _ => some (own, [])
  | _ => none

/-- The sites that an adoption is still going to write as not being the hub. -/
def Phase.clears : Phase → List Nat
  | .adopting row rest | .writing row _ rest =>
      ((row :: rest).filter fun row => !row.isHub).map MeshSite.siteId
  | _ => []

/-- The site that the write of a phase marks. -/
def Phase.marks : Phase → Option Nat
  | .marking target => some target.siteId
  | .creating own true _ => some own
  | .writing row _ _ => if row.isHub then some row.siteId else none
  | _ => none

/-- The sites that an adoption clears behind its present write. -/
def Phase.later : Phase → Option (List Nat)
  | .writing _ _ rest => some (adoptNext rest).clears
  | _ => none

/-- The rows that a call has read and is going to write. -/
def Phase.held : Phase → List MeshSite
  | .listing target | .marking target => [target]
  | .clearing target site rest => target :: site :: rest
  | .updating existing _ => [existing]
  | .writing _ (some existing) _ => [existing]
  | _ => []

def Phase.ended : Phase → Bool
  | .returned | .thrown _ _ => true
  | _ => false

/-! ## The property -/

/-- When no call is on its way, at most one row is marked. -/
def OneHub (pool : Pool Sites Phase) : Prop :=
  (∀ phase ∈ pool.calls, phase.ended = true) →
    (pool.shared.rows.filter MeshSite.isHub).length ≤ 1

instance (pool : Pool Sites Phase) : Decidable (OneHub pool) := by
  unfold OneHub
  infer_instance

/-- A row is marked only when every other call about to mark a row is going to mark the same one
or still to clear this one, and by an adoption only when it clears all other marked rows later.
An adoption fails only when none of the rows it has still to clear is one of two that are
marked. -/
def Orderly (event : Interleaving.Event Input Outcome) (pool : Pool Sites Phase) : Prop :=
  match event with
  | .call _ => True
  | .turn index outcome =>
      match pool.calls[index]? with
      | none => True
      | some phase =>
          let hubs := pool.shared.rows.filter MeshSite.isHub
          match phase.write outcome pool.shared with
          | some _ => ∀ siteId ∈ phase.marks,
              (∀ called ∈ pool.calls.eraseIdx index, ∀ claim ∈ called.claim,
                siteId = claim.1 ∨ siteId ∈ claim.2) ∧
              ∀ later ∈ phase.later, ∀ site ∈ hubs, site.siteId = siteId ∨ site.siteId ∈ later
          | none => ∀ site ∈ hubs, site.siteId ∈ phase.clears → ∀ other ∈ hubs,
              other.siteId = site.siteId

instance (event : Interleaving.Event Input Outcome) (pool : Pool Sites Phase) :
    Decidable (Orderly event pool) := by
  unfold Orderly
  split
  · infer_instance
  · split
    · infer_instance
    · dsimp only
      split <;> infer_instance

/-! ## The invariant -/

def Marked (sites : List MeshSite) (siteId : Nat) : Prop :=
  ∃ site ∈ sites, site.siteId = siteId ∧ site.isHub = true

/-- What a call relies on: the rows it has read are there, and those marked are the one it is
going to mark and ones it is going to clear. -/
structure Own (sites : List MeshSite) (phase : Phase) : Prop where
  held : ∀ copy ∈ phase.held, Known sites copy
  claim : ∀ claim ∈ phase.claim, ∀ siteId, Marked sites siteId →
    siteId = claim.1 ∨ siteId ∈ claim.2
  existing : ∀ row existing rest, phase = .writing row (some existing) rest →
    existing.siteId = row.siteId
  unmarked : ∀ existing fields, phase = .updating existing fields → fields.isHub = none

/-- All marked rows but one are going to be cleared by an adoption. -/
def Settling (pool : Pool Sites Phase) : Prop :=
  ∃ hub, ∀ siteId, Marked pool.shared.rows siteId → siteId = hub ∨
    pool.Has fun phase => siteId ∈ phase.clears

/-! ## Writes -/

variable {sites after : Sites} {siteId : Nat} {fields : SiteFields} {id : String}
variable {copy : MeshSite}

/-- An update of a row that is known leaves the marks of the others, and sets its own if the
fields say so. -/
theorem marked_updateSite (known : Known sites.rows copy)
    (marked : Marked (updateSite copy.id fields sites).rows siteId) :
    siteId = copy.siteId ∧ fields.isHub ≠ some false ∧
        (fields.isHub = some true ∨ Marked sites.rows siteId) ∨
      siteId ≠ copy.siteId ∧ Marked sites.rows siteId := by
  obtain ⟨row, there, sameId, sameSite⟩ := known
  obtain ⟨site, member, named, isHub⟩ := marked
  obtain ⟨old, memberOld, rfl⟩ := mem_updateSite.mp member
  by_cases same : old.id = copy.id
  · have one : old = row := eq_of_id memberOld there (same.trans sameId.symm)
    rw [if_pos same] at named isHub
    change old.siteId = siteId at named
    change fields.isHub.getD old.isHub = true at isHub
    refine Or.inl ⟨?_, ?_, ?_⟩
    · rw [← named, one, sameSite]
    · intro cleared
      rw [cleared] at isHub
      cases isHub
    · cases written : fields.isHub with
      | none =>
          rw [written] at isHub
          exact Or.inr ⟨old, memberOld, named, isHub⟩
      | some value =>
          rw [written] at isHub
          exact Or.inl (congrArg some isHub)
  · rw [if_neg same] at named isHub
    refine Or.inr ⟨?_, old, memberOld, named, isHub⟩
    intro sameNumber
    have one : old = row :=
      eq_of_siteId memberOld there (named.trans (sameNumber.trans sameSite.symm))
    exact same (one ▸ sameId)

theorem marked_createSite {new : Nat} (created : createSite fields id new sites = some after)
    (marked : Marked after.rows siteId) :
    siteId = new ∧ fields.isHub = some true ∨ Marked sites.rows siteId := by
  obtain ⟨site, member, named, isHub⟩ := marked
  rcases (mem_createSite created).mp member with old | rfl
  · exact Or.inr ⟨site, old, named, isHub⟩
  · refine Or.inl ⟨named.symm, ?_⟩
    cases written : fields.isHub with
    | none => simp [SiteFields.made, SiteFields.onto, written] at isHub
    | some value =>
        simp only [SiteFields.made, SiteFields.onto, written, Option.getD_some] at isHub
        exact congrArg some isHub

theorem not_marked_of_created {new : Nat} (created : createSite fields id new sites = some after) :
    ¬ Marked sites.rows new := by
  rintro ⟨site, member, same, -⟩
  have fits := Table.insert_isSome.mp (Option.isSome_of_eq_some created)
  exact fits site member MeshSite.key (by simp) (congrArg toString same)

/-! ## One turn -/

/-- What a turn that is carried out does to the marks. -/
structure Moves (sites after : Sites) (phase next : Phase) : Prop where
  known : ∀ copy, Known sites.rows copy → Known after.rows copy
  marked : ∀ siteId, Marked after.rows siteId → siteId ∈ phase.marks ∨ Marked sites.rows siteId
  own : Own after.rows next
  clears : ∀ siteId ∈ phase.clears, Marked after.rows siteId →
    siteId ∈ phase.marks ∨ siteId ∈ next.clears
  sole : ∀ marks ∈ phase.marks, ∀ siteId, Marked after.rows siteId →
    siteId = marks ∨ siteId ∈ next.clears

variable {phase next : Phase} {outcome : Outcome} {target site row existing : MeshSite}
variable {rest : List MeshSite}

/-- A call that has read nothing relies on nothing. -/
theorem own_of_none (held : next.held = []) (claim : next.claim = none) : Own sites.rows next where
  held := fun copy member => by
    rw [held] at member
    cases member
  claim := fun pair member => by
    rw [claim] at member
    cases member
  existing := fun row existing rest same => by
    rw [same] at held
    cases held
  unmarked := fun existing fields same => by
    rw [same] at held
    cases held

theorem own_adoptNext (rest : List MeshSite) : Own sites.rows (adoptNext rest) := by
  cases rest with
  | nil => exact own_of_none rfl rfl
  | cons row rest => exact own_of_none rfl rfl

/-- A read leaves the table. -/
theorem moves_of_read (own : Own sites.rows next) (marks : phase.marks = none)
    (clears : ∀ siteId ∈ phase.clears, siteId ∈ next.clears) : Moves sites sites phase next where
  known := fun _ known => known
  marked := fun _ marked => Or.inr marked
  own := own
  clears := fun siteId listed _ => Or.inr (clears siteId listed)
  sole := fun siteId same => by
    rw [marks] at same
    cases same

theorem own_clearNext (target_known : Known sites.rows target)
    (known : ∀ copy ∈ rest, Known sites.rows copy)
    (marked : ∀ siteId, Marked sites.rows siteId →
      siteId = target.siteId ∨ siteId ∈ rest.map MeshSite.siteId) :
    Own sites.rows (clearNext target rest) := by
  cases rest with
  | nil =>
      constructor
      · intro copy member
        rw [List.mem_singleton.mp member]
        exact target_known
      · intro claim member
        cases member
        exact marked
      · exact fun row existing rest same => by cases same
      · exact fun existing fields same => by cases same
  | cons site rest =>
      constructor
      · intro copy member
        rcases List.mem_cons.mp member with rfl | listed
        · exact target_known
        · exact known copy listed
      · intro claim member
        cases member
        exact marked
      · exact fun row existing rest same => by cases same
      · exact fun existing fields same => by cases same

theorem moves_listing (own : Own sites.rows (.listing target)) :
    Moves sites sites (.listing target) (Phase.next sites.rows (.listing target)) := by
  apply moves_of_read _ rfl fun siteId listed => by cases listed
  apply own_clearNext (own.held target (List.mem_singleton_self target))
  · intro copy member
    exact ⟨copy, (List.mem_filter.mp member).1, rfl, rfl⟩
  · rintro siteId ⟨site, member, rfl, isHub⟩
    by_cases same : site.siteId = target.siteId
    · exact Or.inl same
    · apply Or.inr (List.mem_map.mpr ⟨site, List.mem_filter.mpr ⟨member, ?_⟩, rfl⟩)
      simp [isHub, same]

theorem moves_clearing (own : Own sites.rows (.clearing target site rest)) :
    Moves sites (updateSite site.id (isHubField false) sites) (.clearing target site rest)
      (clearNext target rest) := by
  have siteKnown := own.held site (by simp [Phase.held])
  have others {siteId : Nat}
      (marked : Marked (updateSite site.id (isHubField false) sites).rows siteId) :
      siteId ≠ site.siteId ∧ Marked sites.rows siteId := by
    rcases marked_updateSite siteKnown marked with ⟨-, cleared, -⟩ | other
    · exact absurd rfl cleared
    · exact other
  constructor
  · exact fun _ => known_updateSite
  · exact fun siteId marked => Or.inr (others marked).2
  · apply own_clearNext (known_updateSite (own.held target (by simp [Phase.held])))
    · exact fun copy member => known_updateSite (own.held copy (by simp [Phase.held, member]))
    · intro siteId marked
      obtain ⟨different, before⟩ := others marked
      rcases own.claim _ rfl siteId before with same | listed
      · exact Or.inl same
      · exact Or.inr ((List.mem_cons.mp listed).resolve_left different)
  · exact fun siteId listed => by cases listed
  · exact fun marks same => by cases same

theorem moves_marking (own : Own sites.rows (.marking target)) :
    Moves sites (updateSite target.id (isHubField true) sites) (.marking target) .returned := by
  have targetKnown := own.held target (List.mem_singleton_self target)
  constructor
  · exact fun _ => known_updateSite
  · intro siteId marked
    rcases marked_updateSite targetKnown marked with ⟨rfl, -⟩ | ⟨-, before⟩
    · exact Or.inl rfl
    · exact Or.inr before
  · exact own_of_none rfl rfl
  · exact fun siteId listed => by cases listed
  · intro marks same siteId marked
    cases same
    rcases marked_updateSite targetKnown marked with ⟨rfl, -⟩ | ⟨-, before⟩
    · exact Or.inl rfl
    · exact (own.claim _ rfl siteId before).imp_right fun listed => by cases listed

theorem moves_updating (own : Own sites.rows (.updating existing fields)) :
    Moves sites (updateSite existing.id fields sites) (.updating existing fields) .pushing := by
  have known := own.held existing (List.mem_singleton_self existing)
  constructor
  · exact fun _ => known_updateSite
  · intro siteId marked
    rcases marked_updateSite known marked with ⟨-, -, written | before⟩ | ⟨-, before⟩
    · rw [own.unmarked existing fields rfl] at written
      cases written
    · exact Or.inr before
    · exact Or.inr before
  · exact own_of_none rfl rfl
  · exact fun siteId listed => by cases listed
  · exact fun marks same => by cases same

theorem moves_creating {siteId : Nat} {isHub : Bool} {uuid : String}
    (own : Own sites.rows (.creating siteId isHub fields))
    (created : createSite (fields.published isHub) uuid siteId sites = some after) :
    Moves sites after (.creating siteId isHub fields) .pushing := by
  constructor
  · exact fun _ => known_createSite created
  · intro other marked
    rcases marked_createSite created marked with ⟨rfl, written⟩ | before
    · cases Option.some.inj written
      exact Or.inl rfl
    · exact Or.inr before
  · exact own_of_none rfl rfl
  · exact fun other listed => by cases listed
  · intro marks same other marked
    cases isHub with
    | false => cases same
    | true =>
        cases same
        rcases marked_createSite created marked with ⟨rfl, -⟩ | before
        · exact Or.inl rfl
        · exact (own.claim _ rfl other before).imp_right fun listed => by cases listed

theorem moves_looking {own : Nat} {siteSlug : String} {patch : Publication} :
    Moves sites sites (.looking own siteSlug patch)
      (Phase.next sites.rows (.looking own siteSlug patch)) := by
  apply moves_of_read _ rfl fun siteId listed => by cases listed
  simp only [Phase.next]
  split
  · rename_i existing found
    constructor
    · intro copy member
      rw [List.mem_singleton.mp member]
      exact (known_of_bySiteId found).1
    · exact fun claim same => by cases same
    · exact fun row existing rest same => by cases same
    · intro existing fields same
      cases same
      rfl
  · split <;> exact own_of_none rfl rfl

theorem moves_counting {own : Nat} :
    Moves sites sites (.counting own fields) (Phase.next sites.rows (.counting own fields)) := by
  apply moves_of_read _ rfl fun siteId listed => by cases listed
  cases none : sites.rows.any MeshSite.isHub with
  | true =>
      simp only [Phase.next, none, Bool.not_true]
      exact own_of_none rfl rfl
  | false =>
      simp only [Phase.next, none, Bool.not_false]
      constructor
      · exact fun copy member => by cases member
      · rintro claim same siteId ⟨site, member, -, isHub⟩
        rw [List.any_eq_false.mp none site member |> Bool.eq_false_iff.mpr] at isHub
        cases isHub
      · exact fun row existing rest same => by cases same
      · exact fun existing fields same => by cases same

theorem moves_adopting :
    Moves sites sites (.adopting row rest)
      (.writing row (bySiteId sites.rows row.siteId) rest) := by
  have still : ∀ siteId ∈ (Phase.adopting row rest).clears,
      siteId ∈ (Phase.writing row (bySiteId sites.rows row.siteId) rest).clears :=
    fun siteId listed => listed
  apply moves_of_read _ rfl still
  cases found : bySiteId sites.rows row.siteId with
  | none => exact own_of_none rfl rfl
  | some existing =>
      obtain ⟨known, same⟩ := known_of_bySiteId found
      constructor
      · intro copy member
        rw [List.mem_singleton.mp member]
        exact known
      · exact fun claim equal => by cases equal
      · intro row existing rest equal
        cases equal
        exact same
      · exact fun existing fields equal => by cases equal

/-- The marks behind the write for an adopted row: its own as it says, the others as before. -/
theorem moves_writing {found : Option MeshSite}
    (known : ∀ copy, Known sites.rows copy → Known after.rows copy)
    (marked : ∀ siteId, Marked after.rows siteId →
      siteId = row.siteId ∧ row.isHub = true ∨ siteId ≠ row.siteId ∧ Marked sites.rows siteId)
    (later : row.isHub = true → ∀ siteId, Marked sites.rows siteId →
      siteId = row.siteId ∨ siteId ∈ (adoptNext rest).clears) :
    Moves sites after (.writing row found rest) (adoptNext rest) := by
  have marks (isHub : row.isHub = true) :
      (Phase.writing row found rest).marks = some row.siteId := if_pos isHub
  constructor
  · exact known
  · intro siteId there
    rcases marked siteId there with ⟨rfl, isHub⟩ | ⟨-, before⟩
    · exact Or.inl (marks isHub)
    · exact Or.inr before
  · exact own_adoptNext rest
  · intro siteId listed there
    rcases marked siteId there with ⟨rfl, isHub⟩ | ⟨different, -⟩
    · exact Or.inl (marks isHub)
    · obtain ⟨cleared, member, rfl⟩ := List.mem_map.mp listed
      obtain ⟨among, unmarked⟩ := List.mem_filter.mp member
      rcases List.mem_cons.mp among with rfl | behind
      · exact absurd rfl different
      · cases rest with
        | nil => cases behind
        | cons row rest =>
            exact Or.inr (List.mem_map.mpr ⟨cleared, List.mem_filter.mpr ⟨behind, unmarked⟩, rfl⟩)
  · intro written same siteId there
    cases isHub : row.isHub with
    | false => simp [Phase.marks, isHub] at same
    | true =>
        cases (marks isHub).symm.trans same
        rcases marked siteId there with ⟨rfl, -⟩ | ⟨-, before⟩
        · exact Or.inl rfl
        · exact later isHub siteId before

theorem moves_turn (own : Own sites.rows phase) (written : phase.write outcome sites = some after)
    (later : ∀ siteId ∈ phase.marks, ∀ later ∈ phase.later,
      ∀ site ∈ sites.rows.filter MeshSite.isHub, site.siteId = siteId ∨ site.siteId ∈ later) :
    Moves sites after phase (phase.next sites.rows) := by
  have carried (sameTable : (if outcome.ok = true then some sites else none) = some after) :
      sites = after := by
    split at sameTable
    · exact Option.some.inj sameTable
    · cases sameTable
  have updated {change : Sites} (same : (if outcome.ok = true then some change else none) = some after) :
      change = after := by
    split at same
    · exact Option.some.inj same
    · cases same
  cases phase with
  | finding siteId =>
      cases carried written
      apply moves_of_read _ rfl fun siteId listed => by cases listed
      simp only [Phase.next]
      split
      · rename_i target found
        constructor
        · intro copy member
          rw [List.mem_singleton.mp member]
          exact (known_of_bySiteId found).1
        · exact fun claim same => by cases same
        · exact fun row existing rest same => by cases same
        · exact fun existing fields same => by cases same
      · exact own_of_none rfl rfl
  | listing target =>
      cases carried written
      exact moves_listing own
  | clearing target site rest =>
      cases updated written
      exact moves_clearing own
  | marking target =>
      cases updated written
      exact moves_marking own
  | looking siteId siteSlug patch =>
      cases carried written
      exact moves_looking
  | updating existing fields =>
      cases updated written
      exact moves_updating own
  | counting siteId fields =>
      cases carried written
      exact moves_counting
  | creating siteId isHub fields =>
      simp only [Phase.write] at written
      split at written
      · exact moves_creating own written
      · cases written
  | adopting row rest =>
      cases carried written
      exact moves_adopting
  | writing row found rest =>
      have behind (isHub : row.isHub = true) : ∀ siteId, Marked sites.rows siteId →
          siteId = row.siteId ∨ siteId ∈ (adoptNext rest).clears := by
        rintro siteId ⟨site, member, rfl, marked⟩
        exact later row.siteId (if_pos isHub) _ rfl site (List.mem_filter.mpr ⟨member, marked⟩)
      cases found with
      | some existing =>
          cases updated written
          have known := own.held existing (List.mem_singleton_self existing)
          have same := own.existing row existing rest rfl
          apply moves_writing (fun _ => known_updateSite) _ behind
          intro siteId marked
          rw [← same]
          rcases marked_updateSite known marked with ⟨rfl, kept, -⟩ | other
          · exact Or.inl ⟨rfl, by simpa [MeshSite.adopted] using kept⟩
          · exact Or.inr other
      | none =>
          simp only [Phase.write] at written
          split at written
          · apply moves_writing (fun _ => known_createSite written) _ behind
            intro siteId marked
            rcases marked_createSite written marked with ⟨rfl, kept⟩ | before
            · exact Or.inl ⟨rfl, Option.some.inj kept⟩
            · refine Or.inr ⟨?_, before⟩
              rintro rfl
              exact not_marked_of_created written before
          · cases written
  | pushing | returned | thrown error status =>
      cases Option.some.inj written
      exact moves_of_read (own_of_none rfl rfl) rfl fun siteId listed => by cases listed

/-! ## Every event -/

/-- The outline of a run, and that all marked rows but one are going to be cleared. -/
structure Sound (pool : Pool Sites Phase) : Prop where
  own : ∀ (index : Nat) (phase : Phase), pool.calls[index]? = some phase → Own pool.shared.rows phase
  settling : Settling pool

variable {pool : Pool Sites Phase} {index : Nat}

theorem own_start (input : Input) : Own sites.rows input.start := by
  cases input with
  | setHub siteId => exact own_of_none rfl rfl
  | publishLocalSite own siteSlug patch =>
      simp only [Input.start]
      split
      · exact own_of_none rfl rfl
      · split
        · exact own_of_none rfl rfl
        · exact own_of_none rfl rfl
  | adoptRoster own meshSites => exact own_adoptNext _

theorem sound_call {input : Input} (sound : Sound pool) :
    Sound (roster.apply (.call input) pool) where
  own := by
    intro index phase found
    rcases getElem?_apply_call roster pool input found with old | ⟨-, rfl⟩
    · exact sound.own index phase old
    · exact own_start input
  settling := by
    obtain ⟨hub, settling⟩ := sound.settling
    exact ⟨hub, fun siteId marked => (settling siteId marked).imp_right has_apply_call⟩

/-- The others rely on what a turn leaves, if it marks nothing behind their backs. -/
theorem own_moves {called : Phase} (moves : Moves sites after phase next)
    (own : Own sites.rows called)
    (aware : ∀ siteId ∈ phase.marks, ∀ claim ∈ called.claim, siteId = claim.1 ∨ siteId ∈ claim.2) :
    Own after.rows called where
  held := fun copy member => moves.known copy (own.held copy member)
  claim := by
    intro claim member siteId marked
    rcases moves.marked siteId marked with new | before
    · exact aware siteId new claim member
    · exact own.claim claim member siteId before
  existing := own.existing
  unmarked := own.unmarked

theorem settling_moves (found : pool.calls[index]? = some phase) (settling : Settling pool)
    (moves : Moves pool.shared after phase next) :
    Settling ⟨after, pool.calls.set index next⟩ := by
  obtain ⟨hub, before⟩ := settling
  cases marks : phase.marks with
  | some siteId =>
      refine ⟨siteId, fun other marked => ?_⟩
      exact (moves.sole siteId marks other marked).imp_right (has_set_self found)
  | none =>
      refine ⟨hub, fun other marked => ?_⟩
      rcases moves.marked other marked with new | old
      · rw [marks] at new
        cases new
      · apply (before other old).imp_right (has_set found _)
        intro listed
        rcases moves.clears other listed marked with new | still
        · rw [marks] at new
          cases new
        · exact still

/-- A call that fails leaves the marks, and no one waits for it to clear one of two. -/
theorem settling_thrown {next : Phase} (found : pool.calls[index]? = some phase)
    (settling : Settling pool)
    (alone : ∀ site ∈ pool.shared.rows.filter MeshSite.isHub, site.siteId ∈ phase.clears →
      ∀ other ∈ pool.shared.rows.filter MeshSite.isHub, other.siteId = site.siteId) :
    Settling ⟨pool.shared, pool.calls.set index next⟩ := by
  obtain ⟨hub, before⟩ := settling
  by_cases waits : ∃ site ∈ pool.shared.rows.filter MeshSite.isHub, site.siteId ∈ phase.clears
  · obtain ⟨site, member, listed⟩ := waits
    refine ⟨site.siteId, ?_⟩
    rintro siteId ⟨other, there, rfl, isHub⟩
    exact Or.inl (alone site member listed other (List.mem_filter.mpr ⟨there, isHub⟩))
  · refine ⟨hub, ?_⟩
    rintro siteId ⟨site, there, rfl, isHub⟩
    apply (before site.siteId ⟨site, there, rfl, isHub⟩).imp_right (has_set found _)
    exact fun listed => absurd ⟨site, List.mem_filter.mpr ⟨there, isHub⟩, listed⟩ waits

theorem sound_turn {outcome : Outcome} (sound : Sound pool)
    (orderly : Orderly (.turn index outcome) pool) :
    Sound (roster.apply (.turn index outcome) pool) := by
  cases found : pool.calls[index]? with
  | none => rwa [apply_turn_of_none found]
  | some phase =>
      have own := sound.own index phase found
      simp only [Orderly, found] at orderly
      rw [apply_turn_of_some found]
      cases written : phase.write outcome pool.shared with
      | none =>
          simp only [roster, written] at orderly ⊢
          refine ⟨?_, settling_thrown found sound.settling orderly⟩
          intro other called there
          rcases (Positions.getElem?_set_iff (List.getElem?_eq_some_iff.mp found).1).mp there with
            ⟨-, rfl⟩ | ⟨-, old⟩
          · exact own_of_none rfl rfl
          · exact sound.own other called old
      | some after =>
          simp only [roster, written] at orderly ⊢
          have moves := moves_turn own written fun siteId marks => (orderly siteId marks).2
          refine ⟨?_, settling_moves found sound.settling moves⟩
          intro other called there
          rcases (Positions.getElem?_set_iff (List.getElem?_eq_some_iff.mp found).1).mp there with
            ⟨-, rfl⟩ | ⟨different, old⟩
          · exact moves.own
          · apply own_moves moves (sound.own other called old)
            intro siteId marks
            apply (orderly siteId marks).1 called
            exact List.mem_eraseIdx_iff_getElem?.mpr ⟨other, different, old⟩

theorem sound_apply (event : Interleaving.Event Input Outcome) (pool : Pool Sites Phase) (sound : Sound pool)
    (orderly : Orderly event pool) : Sound (roster.apply event pool) := by
  cases event with
  | call input => exact sound_call sound
  | turn index outcome => exact sound_turn sound orderly

theorem oneHub_of_sound (sound : Sound pool) : OneHub pool := by
  intro ended
  obtain ⟨hub, settling⟩ := sound.settling
  have only : ∀ site ∈ pool.shared.rows.filter MeshSite.isHub, site.siteId = hub := by
    intro site member
    obtain ⟨there, isHub⟩ := List.mem_filter.mp member
    rcases settling site.siteId ⟨site, there, rfl, isHub⟩ with same | clearing
    · exact same
    · obtain ⟨index, phase, found, listed⟩ := clearing
      have closed := ended phase (List.mem_of_getElem? found)
      cases phase <;> first | cases listed | cases closed
  have apart : (pool.shared.rows.filter MeshSite.isHub).Pairwise
      (Differ [MeshSite.id, MeshSite.key]) := pool.shared.unique.filter _
  generalize pool.shared.rows.filter MeshSite.isHub = hubs at only apart
  match hubs with
  | [] => exact Nat.zero_le 1
  | [site] => exact Nat.le_refl 1
  | site :: other :: rest =>
      have differ := (List.pairwise_cons.mp apart).1 other List.mem_cons_self
      have same : site.siteId = other.siteId := (only site List.mem_cons_self).trans
        (only other (List.mem_cons_of_mem _ List.mem_cons_self)).symm
      exact absurd (congrArg toString same) (differ MeshSite.key (by simp))

theorem sound_start {sites : Sites} (initial : (sites.rows.filter MeshSite.isHub).length ≤ 1) :
    Sound (start sites) where
  own := fun index phase found => by cases found
  settling := by
    cases hubs : sites.rows.filter MeshSite.isHub with
    | nil =>
        refine ⟨0, ?_⟩
        rintro siteId ⟨site, member, -, isHub⟩
        have there : site ∈ sites.rows.filter MeshSite.isHub :=
          List.mem_filter.mpr ⟨member, isHub⟩
        rw [hubs] at there
        cases there
    | cons hub rest =>
        rw [hubs, List.length_cons] at initial
        have none : rest = [] := List.eq_nil_of_length_eq_zero (by omega)
        refine ⟨hub.siteId, ?_⟩
        rintro siteId ⟨site, member, rfl, isHub⟩
        have there : site ∈ sites.rows.filter MeshSite.isHub :=
          List.mem_filter.mpr ⟨member, isHub⟩
        rw [hubs, none] at there
        exact Or.inl (congrArg MeshSite.siteId (List.mem_singleton.mp there))

/-- In a run of `setHub`, `publishLocalSite` and `adoptRoster` calls from a roster with at most
one hub, there is at most one whenever no call is on its way, if all writes are orderly. -/
theorem one_hub_run {sites : Sites} {events : List (Interleaving.Event Input Outcome)}
    (initial : (sites.rows.filter MeshSite.isHub).length ≤ 1)
    (orderly : ∀ step ∈ Runs.steps roster.apply events (start sites),
      Orderly step.operation step.before) :
    ∀ step ∈ Runs.steps roster.apply events (start sites), OneHub step.after := by
  intro step member
  have sound := Runs.forall_steps_inv (sound_start initial) orderly sound_apply step member
  exact oneHub_of_sound sound.2

private def carriesOut (uuid : String) : Outcome := ⟨true, "", uuid⟩

private def answers (index turns : Nat) (uuid : String) : List (Interleaving.Event Input Outcome) :=
  List.replicate turns (.turn index (carriesOut uuid))

private def publication : Publication :=
  ⟨none, none, some "key", none, none, none, none, none, none, none, none, none⟩

private def exported (siteId : Nat) (isHub : Bool) : MeshSite :=
  (isHubField isHub).made "" siteId

/-- The master publishes itself, takes over the roster of another node, and the hub is moved
there and by the next roster back. -/
private def moved : List (Interleaving.Event Input Outcome) :=
  [.call (.publishLocalSite (some 1) "home" publication)] ++ answers 0 4 "s1" ++
    [.call (.adoptRoster (some 1) [exported 1 true, exported 2 false])] ++ answers 1 2 "s2" ++
    [.call (.setHub 2)] ++ answers 2 4 "" ++
    [.call (.adoptRoster none [exported 1 true, exported 2 false])] ++ answers 3 4 ""

theorem one_hub_moved :
    List.Forall (fun step : Runs.Step (Interleaving.Event Input Outcome) (Pool Sites Phase) =>
      OneHub step.after) (Runs.steps roster.apply moved (start .empty)) ∧
    (Runs.run roster.apply moved (start .empty)).shared.rows.map (fun site =>
      (site.siteId, site.isHub)) = [(1, true), (2, false)] := by
  constructor
  · have initial : ((.empty : Sites).rows.filter MeshSite.isHub).length ≤ 1 := Nat.zero_le 1
    apply List.forall_iff_forall_mem.mpr
    apply one_hub_run initial
    decide +kernel
  · decide +kernel

/-- An adoption that marks another site skips the node's own row, which stays marked, and so does
one that is missing from the roster; and two hubs set at once are both marked. -/
theorem not_one_hub :
    (¬ ∀ (sites : Sites) (events : List (Interleaving.Event Input Outcome)),
      (sites.rows.filter MeshSite.isHub).length ≤ 1 →
      (∀ own meshSites, .call (.adoptRoster own meshSites) ∈ events →
        (meshSites.filter MeshSite.isHub).length ≤ 1) →
      ∀ step ∈ Runs.steps roster.apply events (start sites), OneHub step.after) ∧
    ¬ OneHub (Runs.run roster.apply ([.call (.publishLocalSite (some 1) "home" publication)] ++
      answers 0 4 "s1" ++ [.call (.adoptRoster (some 2) [exported 3 true])] ++ answers 1 2 "s3")
      (start .empty)) ∧
    ¬ OneHub (Runs.run roster.apply ([.call (.adoptRoster none [exported 1 false, exported 2 false])] ++
      answers 0 2 "s1" ++ answers 0 2 "s2" ++ [.call (.setHub 1), .call (.setHub 2)] ++
      answers 1 2 "" ++ answers 2 2 "" ++ answers 1 1 "" ++ answers 2 1 "") (start .empty)) := by
  refine ⟨fun always => ?_, by decide +kernel, by decide +kernel⟩
  have oneHub := List.forall_iff_forall_mem.mpr <| always .empty
    ([.call (.publishLocalSite (some 1) "home" publication)] ++ answers 0 4 "s1" ++
      [.call (.adoptRoster (some 1) [exported 2 true])] ++ answers 1 2 "s2") (Nat.zero_le 1) (by
        intro own meshSites member
        simp [answers] at member
        rw [member.2]
        decide)
  revert oneHub
  decide +kernel

end ThetaDirectory.Mesh.Roster
