import ThetaDirectory.Library.Runs
import ThetaDirectory.Mesh.Clients
import ThetaDirectory.Mesh.Enrolment
import ThetaDirectory.Mesh.Sites

/-!
# Exits of devices

`allowedExits`, `setExit`, `grantExit` and `revokeExit` of `utils/mesh_clients.js` and the writes
to a site's row, among them those of its `exitOpen` flag (`PUT /sites/:siteId` of
`routes/api_mesh.js`), and whether the exits of all devices are allowed through every run in which
no site is closed that a device still needs.
-/

namespace ThetaDirectory.Mesh.Exits

open Library

structure State where
  clients : Clients
  grants : Grants
  sites : Sites

/-- The sites a user may choose: those that are open to everyone, and those granted. -/
def allowedExits (state : State) (uid : String) : List Nat :=
  (state.sites.rows.filter MeshSite.exitOpen).map MeshSite.siteId ++
    (state.grants.rows.filter fun grant => grant.uid == uid).map MeshExitGrant.siteId

def withExit (exitSiteId : Option Nat) (client : MeshClient) : MeshClient :=
  { client with exitSiteId }

/-- Write the exit of the devices with these ids. -/
def updateExits (ids : List String) (exitSiteId : Option Nat) (clients : Clients) : Clients :=
  clients.map (fun client => if client.id ∈ ids then withExit exitSiteId client else client) (by
    intro column listed client
    simp only [List.mem_cons, List.not_mem_nil, or_false] at listed
    split
    · rcases listed with rfl | rfl | rfl <;> rfl
    · rfl)

/-- `setExit` by someone who is not an administrator. -/
def setExit (client : MeshClient) (exitSiteId : Option Nat) (state : State) :
    Except Failure State :=
  match exitSiteId with
  | none => .ok { state with clients := updateExits [client.id] none state.clients }
  | some target => do
      let _ ← (assertSiteId target).mapError fun message => ⟨message, none⟩
      if target ∈ allowedExits state client.uid then
        return { state with clients := updateExits [client.id] (some target) state.clients }
      throw ⟨client.uid ++ " is not permitted to use site " ++ toString target ++ " as an exit",
        some 403⟩

def grantOf (state : State) (uid : String) (siteId : Nat) : Option MeshExitGrant :=
  state.grants.rows.find? fun grant => grant.uid == uid && grant.siteId == siteId

def grantExit (uid : String) (siteId : Nat) (grantedBy uuid error : String) (state : State) :
    Except Failure State := do
  let _ ← (assertSiteId siteId).mapError fun message => ⟨message, none⟩
  match grantOf state uid siteId with
  | some _ => return state
  | none =>
      match state.grants.insert ⟨uuid, uid, siteId, grantedBy⟩ with
      | some grants => return { state with grants }
      | none => throw ⟨error, none⟩

/-- The devices that `revokeExit` clears. -/
def affected (state : State) (uid : String) (siteId : Nat) : List MeshClient :=
  state.clients.rows.filter fun client => client.uid == uid && client.exitSiteId == some siteId

/-- `revokeExit`, which clears the devices one by one before it deletes the grant.  The database
may fail it after some of these writes. -/
def revokeExit (uid : String) (siteId : Nat) (writes : Option Nat) (state : State) : State :=
  match grantOf state uid siteId with
  | none => state
  | some existing =>
      let devices := (affected state uid siteId).map MeshClient.id
      match writes with
      | some writes =>
          { state with clients := updateExits (devices.take writes) none state.clients }
      | none =>
          { state with
            clients := updateExits devices none state.clients
            grants := state.grants.remove fun grant => grant.id == existing.id }

inductive Operation where
  | enroll (enrolment : Enrolment) (generated : Generated)
  | deleteClient (id : String)
  | setExit (id : String) (exitSiteId : Option Nat)
  | grantExit (uid : String) (siteId : Nat) (grantedBy uuid error : String)
  | revokeExit (uid : String) (siteId : Nat) (writes : Option Nat)
  | updateSite (siteId : Nat) (patch : SiteFields)
  deriving DecidableEq, Repr

/-- What an operation leaves; one that throws leaves what was there. -/
def Operation.apply : Operation → State → State
  | .enroll enrolment generated, state =>
      match Mesh.enroll enrolment generated state.clients with
      | .ok enrolled => { state with clients := enrolled.clients }
      | .error _ => state
  | .deleteClient id, state =>
      match Mesh.deleteClient id state.clients with
      | .ok clients => { state with clients }
      | .error _ => state
  | .setExit id exitSiteId, state =>
      match state.clients.rows.find? fun client => client.id == id with
      | some client =>
          match Exits.setExit client exitSiteId state with
          | .ok after => after
          | .error _ => state
      | none => state
  | .grantExit uid siteId grantedBy uuid error, state =>
      match Exits.grantExit uid siteId grantedBy uuid error state with
      | .ok after => after
      | .error _ => state
  | .revokeExit uid siteId writes, state => Exits.revokeExit uid siteId writes state
  | .updateSite siteId patch, state =>
      match bySiteId state.sites.rows siteId with
      | some site => { state with sites := Mesh.updateSite site.id patch state.sites }
      | none => state

/-- No device is enrolled. -/
def start (grants : Grants) (sites : Sites) : State := ⟨.empty, grants, sites⟩

/-! ## The property -/

/-- Every device is without an exit or has one that its owner is allowed. -/
def Allowed (state : State) : Prop :=
  ∀ client ∈ state.clients.rows, ∀ exitSiteId ∈ client.exitSiteId,
    exitSiteId ∈ allowedExits state client.uid

instance (state : State) : Decidable (Allowed state) := by
  unfold Allowed
  infer_instance

/-- A site is closed only when the owner of every device that uses it as an exit has a grant. -/
def Unneeded (operation : Operation) (state : State) : Prop :=
  match operation with
  | .updateSite siteId patch => patch.exitOpen = some false →
      ∀ client ∈ state.clients.rows, client.exitSiteId = some siteId →
        (grantOf state client.uid siteId).isSome
  | _ => True

instance (operation : Operation) (state : State) : Decidable (Unneeded operation state) := by
  unfold Unneeded
  split <;> infer_instance

/-! ## Every operation -/

variable {state after : State} {uid : String} {siteId : Nat} {client : MeshClient}
variable {ids : List String} {exitSiteId : Option Nat}

theorem mem_allowedExits : siteId ∈ allowedExits state uid ↔
    (∃ site ∈ state.sites.rows, site.exitOpen = true ∧ site.siteId = siteId) ∨
      ∃ grant ∈ state.grants.rows, grant.uid = uid ∧ grant.siteId = siteId := by
  simp only [allowedExits, List.mem_append, List.mem_map, List.mem_filter, beq_iff_eq, and_assoc]

theorem mem_updateExits : client ∈ (updateExits ids exitSiteId state.clients).rows ↔
    ∃ old ∈ state.clients.rows,
      (if old.id ∈ ids then withExit exitSiteId old else old) = client :=
  List.mem_map

/-- Devices are allowed behind a write of exits if the written ones are and nothing else is
withdrawn from the others. -/
theorem allowed_updateExits (allowed : Allowed state)
    (written : ∀ old ∈ state.clients.rows, old.id ∈ ids → ∀ target ∈ exitSiteId,
      target ∈ allowedExits after old.uid)
    (kept : ∀ old ∈ state.clients.rows, old.id ∉ ids → ∀ target ∈ old.exitSiteId,
      target ∈ allowedExits state old.uid → target ∈ allowedExits after old.uid)
    (same : after.clients = updateExits ids exitSiteId state.clients) : Allowed after := by
  intro client member target uses
  rw [same] at member
  obtain ⟨old, there, rfl⟩ := mem_updateExits.mp member
  by_cases listed : old.id ∈ ids
  · rw [if_pos listed] at uses ⊢
    exact written old there listed target uses
  · rw [if_neg listed] at uses ⊢
    exact kept old there listed target uses (allowed old there target uses)

theorem allowed_setExit (allowed : Allowed state) (member : client ∈ state.clients.rows)
    (done : setExit client exitSiteId state = .ok after) : Allowed after := by
  cases exitSiteId with
  | none =>
      cases done
      apply allowed_updateExits allowed _ _ rfl
      · exact fun old _ _ target none => by cases none
      · exact fun old _ _ target _ kept => kept
  | some target =>
      simp only [setExit] at done
      cases checked : assertSiteId target with
      | error message =>
          rw [checked] at done
          cases done
      | ok same =>
          rw [checked] at done
          simp only [Except.mapError, bind, Except.bind] at done
          split at done
          · rename_i permitted
            cases done
            apply allowed_updateExits allowed _ _ rfl
            · intro old there listed chosen same
              cases same
              have one : old = client := Table.eq_of_column MeshClient.id (by simp) there member
                (List.mem_singleton.mp listed)
              rw [one]
              exact permitted
            · exact fun old _ _ target _ kept => kept
          · cases done

theorem allowed_grantExit {grantedBy uuid error : String} (allowed : Allowed state)
    (done : grantExit uid siteId grantedBy uuid error state = .ok after) : Allowed after := by
  unfold grantExit at done
  cases checked : assertSiteId siteId with
  | error message =>
      rw [checked] at done
      cases done
  | ok same =>
      rw [checked] at done
      simp only [Except.mapError, bind, Except.bind] at done
      split at done
      · cases done
        exact allowed
      · split at done
        · rename_i grants inserted
          cases done
          intro client member target uses
          apply mem_allowedExits.mpr
          refine (mem_allowedExits.mp (allowed client member target uses)).imp_right ?_
          rintro ⟨grant, there, same⟩
          exact ⟨grant, (Table.mem_insert inserted).mpr (Or.inl there), same⟩
        · cases done

theorem grantOf_isSome : (grantOf state uid siteId).isSome ↔
    ∃ grant ∈ state.grants.rows, grant.uid = uid ∧ grant.siteId = siteId := by
  simp only [grantOf, List.find?_isSome, Bool.and_eq_true, beq_iff_eq]

theorem allowed_revokeExit {writes : Option Nat} (allowed : Allowed state) :
    Allowed (revokeExit uid siteId writes state) := by
  unfold revokeExit
  split
  · exact allowed
  · rename_i existing found
    cases writes with
    | some writes =>
        apply allowed_updateExits allowed _ _ rfl
        · exact fun old _ _ target none => by cases none
        · exact fun old _ _ target _ kept => kept
    | none =>
        apply allowed_updateExits allowed _ _ rfl
        · exact fun old _ _ target none => by cases none
        · intro old there unlisted target uses kept
          apply mem_allowedExits.mpr
          refine (mem_allowedExits.mp kept).imp_right ?_
          rintro ⟨grant, member, owner, site⟩
          refine ⟨grant, Table.mem_remove.mpr ⟨member, beq_false_of_ne ?_⟩, owner, site⟩
          intro same
          have equal := List.find?_some found
          rw [Bool.and_eq_true, beq_iff_eq, beq_iff_eq] at equal
          have one : grant = existing := Table.eq_of_column MeshExitGrant.id (by simp) member
            (List.mem_of_find?_eq_some found) same
          apply unlisted
          refine List.mem_map.mpr ⟨old, List.mem_filter.mpr ⟨there, ?_⟩, rfl⟩
          rw [one] at owner site
          rw [Bool.and_eq_true, beq_iff_eq, beq_iff_eq]
          refine ⟨owner.symm.trans equal.1, ?_⟩
          rw [Option.mem_def.mp uses, ← site, equal.2]

theorem allowed_updateSite {patch : SiteFields} {site : MeshSite} (allowed : Allowed state)
    (unneeded : Unneeded (.updateSite siteId patch) state)
    (found : bySiteId state.sites.rows siteId = some site) :
    Allowed { state with sites := Mesh.updateSite site.id patch state.sites } := by
  intro client member target uses
  rcases mem_allowedExits.mp (allowed client member target uses) with
    ⟨exit, there, isOpen, same⟩ | granted
  · by_cases closing : patch.exitOpen = some false ∧ exit.id = site.id
    · have one : exit = site :=
        eq_of_id there (List.mem_of_find?_eq_some found) closing.2
      have named : site.siteId = siteId := by
        have equal := List.find?_some found
        exact eq_of_beq equal
      rw [← same, one, named] at uses
      have granted := grantOf_isSome.mp (unneeded closing.1 client member uses)
      rw [← same, one, named]
      exact mem_allowedExits.mpr (Or.inr granted)
    · apply mem_allowedExits.mpr (Or.inl _)
      refine ⟨_, mem_updateSite.mpr ⟨exit, there, rfl⟩, ?_⟩
      split
      · rename_i here
        refine ⟨?_, same⟩
        cases written : patch.exitOpen with
        | none => simpa only [SiteFields.onto, written, Option.getD_none] using isOpen
        | some value =>
            cases value with
            | true => simp only [SiteFields.onto, written, Option.getD_some]
            | false => exact absurd ⟨written, here⟩ closing
      · exact ⟨isOpen, same⟩
  · exact mem_allowedExits.mpr (Or.inr granted)

theorem allowed_enroll {enrolment : Enrolment} {generated : Generated} {enrolled : Enrolled}
    (allowed : Allowed state)
    (done : Mesh.enroll enrolment generated state.clients = .ok enrolled) :
    Allowed { state with clients := enrolled.clients } := by
  obtain ⟨-, -, -, -, -, -, breakout, inserted⟩ := enroll_eq_ok done
  intro client member target uses
  rcases (Table.mem_insert inserted).mp member with old | rfl
  · exact allowed client old target uses
  · rw [breakout] at uses
    cases uses

theorem allowed_apply (operation : Operation) (state : State) (allowed : Allowed state)
    (unneeded : Unneeded operation state) : Allowed (operation.apply state) := by
  cases operation with
  | enroll enrolment generated =>
      simp only [Operation.apply]
      split
      · rename_i done
        exact allowed_enroll allowed done
      · exact allowed
  | deleteClient id =>
      simp only [Operation.apply, Mesh.deleteClient]
      split
      · rename_i done
        split at done
        · cases done
          exact fun client member => allowed client (Table.mem_remove.mp member).1
        · cases done
      · exact allowed
  | setExit id exitSiteId =>
      simp only [Operation.apply]
      split
      · rename_i client found
        split
        · rename_i done
          exact allowed_setExit allowed (List.mem_of_find?_eq_some found) done
        · exact allowed
      · exact allowed
  | grantExit uid siteId grantedBy uuid error =>
      simp only [Operation.apply]
      split
      · rename_i done
        exact allowed_grantExit allowed done
      · exact allowed
  | revokeExit uid siteId writes => exact allowed_revokeExit allowed
  | updateSite siteId patch =>
      simp only [Operation.apply]
      split
      · rename_i site found
        exact allowed_updateSite allowed unneeded found
      · exact allowed

/-- From no devices on, every device has an exit that its owner is allowed, or none, in every run
in which a site is closed only when all who use it as an exit have a grant. -/
theorem allowed_run {grants : Grants} {sites : Sites} {operations : List Operation}
    (unneeded : ∀ step ∈ Runs.steps Operation.apply operations (start grants sites),
      Unneeded step.operation step.before) :
    ∀ step ∈ Runs.steps Operation.apply operations (start grants sites), Allowed step.after := by
  have initial : Allowed (start grants sites) := fun client member => by cases member
  exact fun step member =>
    (Runs.forall_steps_inv initial unneeded allowed_apply step member).2

private def exitOpen (isOpen : Bool) : SiteFields :=
  ⟨none, none, none, none, none, none, some isOpen, none, none, none, none, none⟩

private def twoSites : Sites :=
  (((.empty : Sites).insert ((exitOpen true).made "s5" 5)).bind
    fun sites => sites.insert ((exitOpen false).made "s6" 6)).getD .empty

private def laptopOf (uid : String) : Operation :=
  .enroll ⟨uid, "laptop", 2, none, none, none⟩ ⟨uid ++ "-key", "private", uid, ""⟩

/-- Ada uses the open site and Bob a granted one; Bob's grant is revoked, and the open site closed
when Ada has a grant for it. -/
private def exits : List Operation :=
  [laptopOf "ada", laptopOf "bob", .setExit "ada" (some 5), .setExit "bob" (some 6),
    .grantExit "bob" 6 "admin" "g1" "", .setExit "bob" (some 6), .revokeExit "bob" 6 none,
    .grantExit "ada" 5 "admin" "g2" "", .updateSite 5 (exitOpen false)]

theorem allowed_exits :
    List.Forall (fun step : Runs.Step Operation State => Allowed step.after)
      (Runs.steps Operation.apply exits (start .empty twoSites)) ∧
    (Runs.run Operation.apply exits (start .empty twoSites)).clients.rows.map
      MeshClient.exitSiteId = [some 5, none] := by
  constructor
  · apply List.forall_iff_forall_mem.mpr
    apply allowed_run
    decide +kernel
  · decide +kernel

/-- A site that stops offering an exit leaves the devices that use it where they are. -/
theorem not_allowed_closed :
    ¬ ∀ (grants : Grants) (sites : Sites) (operations : List Operation),
      ∀ step ∈ Runs.steps Operation.apply operations (start grants sites), Allowed step.after := by
  intro always
  have allowed := List.forall_iff_forall_mem.mpr <| always .empty twoSites
    [laptopOf "ada", .setExit "ada" (some 5), .updateSite 5 (exitOpen false)]
  revert allowed
  decide +kernel

end ThetaDirectory.Mesh.Exits
