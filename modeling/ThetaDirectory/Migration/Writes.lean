import ThetaDirectory.Migration.Rows

/-!
# Writes of an import

What the steps of an import leave whatever becomes of their operations: which of them write neither
accounts nor groups, and what a call of `User.add` has left wherever it ends.
-/

namespace ThetaDirectory.Migration

open Accounts Library Library.Effect

/-- Neither accounts nor groups nor locks differ. -/
structure SameEntries (before after : Stores) : Prop where
  directory : after.directory = before.directory
  locked : after.locked = before.locked

instance : Std.Refl SameEntries := ⟨fun _ => ⟨rfl, rfl⟩⟩

instance : IsTrans Stores SameEntries where
  trans _ _ _ first second :=
    ⟨second.directory.trans first.directory, second.locked.trans first.locked⟩

/-! ## Steps that write no entry -/

section Idle

variable {α : Type} {action : Importing α} {conf : LdapConf} {row : PlannedUser}

theorem idle_await : Keeps SameEntries await := by
  intro stores
  unfold await
  split <;> exact ⟨rfl, rfl⟩

section Keeping

variable {related : Stores → Stores → Prop} [Std.Refl related] [IsTrans Stores related]

theorem keeps_perform (widens : ∀ before after, SameEntries before after → related before after)
    (keeps : Keeps related action) : Keeps related (perform action) := by
  apply (idle_await.mono widens).bind
  intro thrown
  cases thrown with
  | some error => exact Keeps.throw _
  | none => exact keeps

theorem keeps_catching {handler : AddError → Importing α} (keeps : Keeps related action)
    (rest : ∀ error, Keeps related (handler error)) : Keeps related (catching action handler) := by
  apply keeps.tryCatch
  intro failure
  cases failure with
  | thrown error => exact rest error
  | stopped => exact Keeps.throw _

end Keeping

theorem idle_perform (idle : Keeps SameEntries action) : Keeps SameEntries (perform action) :=
  keeps_perform (fun _ _ same => same) idle

theorem idle_get {read : Stores → α} : Keeps SameEntries (do return read (← get) : Importing α) :=
  fun _ => ⟨rfl, rfl⟩

theorem idle_getOrCreate (uid : String) : Keeps SameEntries (getOrCreate uid) := by
  apply (idle_perform idle_get).bind
  intro found
  cases found with
  | some row => exact Keeps.pure row
  | none => exact idle_perform fun _ => ⟨rfl, rfl⟩

theorem idle_updateVerification (uid : String) (change : Verification → Verification) :
    Keeps SameEntries (updateVerification uid change) :=
  idle_perform fun _ => ⟨rfl, rfl⟩

theorem idle_getUser (uid : String) : Keeps SameEntries (getUser conf uid) := by
  apply (idle_perform idle_get).bind
  intro found
  cases found with
  | none => exact Keeps.throw _
  | some user =>
      apply (idle_getOrCreate user.uid).bind
      intro verification
      dsimp only
      split
      · exact (idle_updateVerification _ _).bind fun _ => Keeps.pure user
      · exact Keeps.pure user

theorem idle_readAdded (adding : Adding) : Keeps SameEntries (readAdded conf adding) := by
  cases adding with
  | added data =>
      apply (idle_getUser data.uidText).bind
      intro user
      exact (idle_getOrCreate user.uid).bind fun _ => Keeps.pure user
  | failed error => exact Keeps.throw _
  | checkMail data opts | checkMobile data opts | searchGroups data opts | addGroup data opts
  | searchPeople data opts | addAccount numbers data opts | rollback uid error => exact Keeps.throw _

theorem idle_getGroup (name : String) : Keeps SameEntries (getGroup conf name) := by
  apply (idle_perform idle_get).bind
  intro found
  cases found with
  | none => exact Keeps.throw _
  | some group => exact Keeps.pure group

theorem idle_verifyUser (options : ApplyOptions) (row : PlannedUser) :
    Keeps SameEntries (verifyUser options row) := by
  apply (idle_getOrCreate _).bind
  intro verification
  dsimp only
  split
  · exact idle_updateVerification _ _
  · exact Keeps.pure ()

/-- `User.add` is all that an account of the row takes. -/
structure Settled (row : PlannedUser) : Prop where
  decision : row.decision ≠ .service
  unlocked : row.locked = false

theorem idle_settleUser (options : ApplyOptions) (settled : Settled row) (created : AccountEntry) :
    Keeps SameEntries (settleUser conf options row created) := by
  have joined : joinService conf row created = pure () := if_neg settled.decision
  unfold settleUser
  rw [joined, settled.unlocked]
  apply (Keeps.pure ()).bind
  intro _
  exact (idle_verifyUser options row).bind fun _ => Keeps.pure ()

theorem keeps_reportUser {related : Stores → Stores → Prop} [Std.Refl related]
    [IsTrans Stores related] {options : ApplyOptions} {created : AccountEntry}
    (keeps : Keeps related (settleUser conf options row created)) :
    Keeps related (reportUser conf options row created) :=
  keeps_catching (keeps.bind fun _ => Keeps.pure _) fun _ => Keeps.pure _

end Idle

/-! ## Steps that write members -/

/-- Neither accounts nor the places of groups differ. -/
structure Framed (before after : Stores) : Prop where
  people : after.directory.people = before.directory.people
  places : after.directory.groups.map (·.dn) = before.directory.groups.map (·.dn)

instance : Std.Refl Framed := ⟨fun _ => ⟨rfl, rfl⟩⟩

instance : IsTrans Stores Framed where
  trans _ _ _ first second :=
    ⟨second.people.trans first.people, second.places.trans first.places⟩

section Frame

variable {conf : LdapConf}

theorem SameEntries.framed {before after : Stores} (same : SameEntries before after) :
    Framed before after := by
  constructor <;> rw [same.directory]

theorem dn_withMember {dn : String} {group changed : GroupEntry}
    (isChanged : withMember dn group = .ok changed) : changed.dn = group.dn := by
  have same := congrArg GroupEntry.dn (bare_withMember isChanged)
  exact same

theorem places_modifyGroup {dn : String} {change : GroupEntry → Except AddError GroupEntry}
    {before after : LdapDirectory}
    (stays : ∀ group changed, change group = .ok changed → changed.dn = group.dn)
    (isModified : before.modifyGroup dn change = .ok after) :
    after.people = before.people ∧ after.groups.map (·.dn) = before.groups.map (·.dn) := by
  unfold LdapDirectory.modifyGroup at isModified
  cases found : before.groups.find? fun group => group.dn == dn with
  | none =>
      rw [found] at isModified
      cases isModified
  | some group =>
      rw [found] at isModified
      dsimp only at isModified
      cases isChanged : change group with
      | error error =>
          rw [isChanged] at isModified
          cases isModified
      | ok changed =>
          rw [isChanged] at isModified
          cases isModified
          have isDn := List.find?_some found
          have named := (stays group changed isChanged).trans (eq_of_beq isDn)
          refine ⟨rfl, List.map_map.trans (List.map_congr_left ?_)⟩
          intro other _
          by_cases same : other.dn = dn
          · exact (congrArg GroupEntry.dn (if_pos same)).trans (named.trans same.symm)
          · exact congrArg GroupEntry.dn (if_neg same)

theorem framed_modifyGroup (dn : String) {change : GroupEntry → Except AddError GroupEntry}
    (stays : ∀ group changed, change group = .ok changed → changed.dn = group.dn) :
    Keeps Framed (modifyGroup dn change) := by
  apply keeps_perform fun _ _ same => same.framed
  intro stores
  dsimp only
  cases isModified : stores.directory.modifyGroup dn change with
  | error error => exact ⟨rfl, rfl⟩
  | ok after =>
      obtain ⟨people, places⟩ := places_modifyGroup stays isModified
      exact ⟨people, places⟩

theorem framed_settleUser (options : ApplyOptions) (row : PlannedUser) (created : AccountEntry) :
    Keeps Framed (settleUser conf options row created) := by
  have joins : Keeps Framed (joinService conf row created) := by
    unfold joinService
    split
    · apply ((idle_getGroup _).mono fun _ _ same => same.framed).bind
      intro service
      apply keeps_catching (framed_modifyGroup _ fun _ _ => dn_withMember)
      intro error
      split
      · exact Keeps.pure ()
      · exact Keeps.throw _
    · exact Keeps.pure ()
  have deactivates : Keeps Framed (deactivate created) := by
    apply keeps_catching
    · apply keeps_perform fun _ _ same => same.framed
      intro stores
      dsimp only
      split <;> exact ⟨rfl, rfl⟩
    · intro error
      split <;> exact Keeps.throw _
  apply joins.bind
  intro _
  apply ((idle_verifyUser options row).mono fun _ _ same => same.framed).bind
  intro _
  split
  · exact deactivates
  · exact Keeps.pure ()

end Frame

/-! ## A call of `User.add` -/

variable (conf : LdapConf) (row : PlannedUser)

/-- The personal group of a row. -/
def ownGroup (number : Option Int) : GroupEntry :=
  ⟨groupDn conf row.username, row.username, ["posixGroup", "top"], number, [], []⟩

/-- The row has added its group with the number. -/
structure GroupLeft (number : Option Int) (before after : LdapDirectory) : Prop where
  left : after = before.withGroup (ownGroup conf row number)
  isNew : isTaken importOptions before.gidNumbers (readInteger row.gidNumber) = false
  absent : ∀ group ∈ before.groups, group.dn ≠ groupDn conf row.username
  asked : (readInteger row.gidNumber).isSome → number = readInteger row.gidNumber

/-- The row has added no account, and no more than its group. -/
def Grouped (before after : LdapDirectory) : Prop :=
  after = before ∨ ∃ number, GroupLeft conf row number before after

/-- The row has added its account. -/
def AccountLeft (before after : LdapDirectory) : Prop :=
  ∃ middle account, Grouped conf row before middle ∧ account.uid = row.username ∧
    after = middle.withAccount account

/-- Where the call of a row is that found `before`. -/
def Partway (before directory : LdapDirectory) : Adding → Prop
  | .checkMail data opts => directory = before ∧ data = newUser row ∧ opts = importOptions
  | .checkMobile data opts => directory = before ∧ data = newUser row ∧ opts = importOptions
  | .searchGroups data opts =>
      directory = before ∧ prepare conf importOptions (newUser row) = .ok data ∧ opts = importOptions
  | .addGroup data _ =>
      directory = before ∧ data.uidText = row.username ∧
        isTaken importOptions before.gidNumbers (readInteger row.gidNumber) = false ∧
          ((readInteger row.gidNumber).isSome → data.gidNumber = readInteger row.gidNumber)
  | .searchPeople data _ => Grouped conf row before directory ∧ data.uidText = row.username
  | .addAccount _ data _ => Grouped conf row before directory ∧ data.uidText = row.username
  | .rollback uid _ => Grouped conf row before directory ∧ uid = row.username
  | .failed _ => Grouped conf row before directory
  | .added _ => AccountLeft conf row before directory

variable {conf row} {before directory : LdapDirectory} {adding : Adding} {prepared data : NewUser}
  {stores : Stores} {refused : Faults}

theorem grouped_without (clear : ∀ group ∈ before.groups, group.dn ≠ rollbackDn conf row.username)
    (grouped : Grouped conf row before directory) :
    Grouped conf row before (directory.without conf row.username) := by
  have same : before.without conf row.username = before := by
    unfold LdapDirectory.without
    rw [List.filter_eq_self.mpr fun group listed => decide_eq_true (clear group listed)]
  cases grouped with
  | inl unchanged => exact Or.inl (unchanged ▸ same)
  | inr added =>
      obtain ⟨number, added⟩ := added
      have split : directory.without conf row.username =
          { before with groups := (before.without conf row.username).groups ++
            [ownGroup conf row number].filter fun group =>
              group.dn ≠ rollbackDn conf row.username } := by
        rw [added.left]
        unfold LdapDirectory.without LdapDirectory.withGroup
        rw [List.filter_append]
      rw [split, same]
      by_cases deleted : (ownGroup conf row number).dn = rollbackDn conf row.username
      · apply Or.inl
        simp [deleted]
      · apply Or.inr
        refine ⟨number, ?_, added.isNew, added.absent, added.asked⟩
        simp [deleted, LdapDirectory.withGroup]

theorem partway_addLdapUser :
    Partway conf row before before (addLdapUser conf importOptions (newUser row)) := by
  unfold addLdapUser
  cases isPrepared : prepare conf importOptions (newUser row) with
  | error error => exact ⟨Or.inl rfl, rfl⟩
  | ok data => exact ⟨rfl, isPrepared, rfl⟩

theorem partway_chooseGid (named : row.username ≠ "")
    (isPrepared : prepare conf importOptions (newUser row) = .ok prepared) :
    Partway conf row before before (chooseGid conf before.groups prepared importOptions) := by
  have uid := uidText_prepare named isPrepared
  have gid := gidNumber_newUser isPrepared
  rw [chooseGid_taken, gid]
  cases taken : isTaken importOptions before.gidNumbers (readInteger row.gidNumber) with
  | true => exact ⟨Or.inl rfl, uid⟩
  | false =>
      refine ⟨rfl, uid, taken, fun isSome => ?_⟩
      obtain ⟨number, isNumber⟩ := Option.isSome_iff_exists.mp isSome
      rw [withGid, gid, isNumber]
      rfl

theorem partway_turn (named : row.username ≠ "")
    (clear : ∀ group ∈ before.groups, group.dn ≠ rollbackDn conf row.username)
    (fault : Option AddError) (partway : Partway conf row before directory adding) :
    Partway conf row before (adding.turn conf fault directory).1
      (adding.turn conf fault directory).2 := by
  cases adding with
  | checkMail data opts =>
      obtain ⟨rfl, rfl, rfl⟩ := partway
      dsimp only [Adding.turn]
      split
      · exact Or.inl rfl
      · split
        · exact ⟨rfl, rfl, rfl⟩
        · exact partway_addLdapUser
  | checkMobile data opts =>
      obtain ⟨rfl, rfl, rfl⟩ := partway
      dsimp only [Adding.turn]
      split
      · exact Or.inl rfl
      · exact partway_addLdapUser
  | searchGroups data opts =>
      obtain ⟨rfl, isPrepared, rfl⟩ := partway
      cases fault with
      | some error => exact ⟨Or.inl rfl, uidText_prepare named isPrepared⟩
      | none => exact partway_chooseGid named isPrepared
  | addGroup data opts =>
      obtain ⟨rfl, uid, isNew, asked⟩ := partway
      cases fault with
      | some error => exact ⟨Or.inl rfl, uid⟩
      | none =>
          dsimp only [Adding.turn]
          split
          · exact ⟨Or.inl rfl, uid⟩
          · rename_i absent
            refine ⟨Or.inr ⟨data.gidNumber, ?_, isNew, ?_, asked⟩, uid⟩
            · rw [ownGroup, ← uid]
              rfl
            · rw [← uid]
              simpa using absent
  | searchPeople data opts =>
      obtain ⟨grouped, uid⟩ := partway
      cases fault with
      | some error => exact ⟨grouped, uid⟩
      | none =>
          dsimp only [Adding.turn, chooseUid]
          split
          · split <;> exact ⟨grouped, uid⟩
          · exact ⟨grouped, uid⟩
  | addAccount numbers data opts =>
      obtain ⟨grouped, uid⟩ := partway
      cases fault with
      | some error => exact ⟨grouped, uid⟩
      | none =>
          dsimp only [Adding.turn]
          split
          · exact ⟨grouped, uid⟩
          · exact ⟨directory, posixAccount conf data, grouped, uid, rfl⟩
  | rollback uid error =>
      obtain ⟨grouped, rfl⟩ := partway
      cases fault with
      | some thrown => exact grouped
      | none => exact grouped_without clear grouped
  | failed error => exact partway
  | added data => exact partway

theorem addTurns_succ {more : Nat} (waits : adding.left ≠ 0) :
    addTurns conf refused (more + 1) adding = await >>= fun thrown middle =>
      addTurns conf refused more
        (adding.turn conf (thrown.or (refused.on adding)) middle.directory).2
        { middle with
          directory := (adding.turn conf (thrown.or (refused.on adding)) middle.directory).1 } := by
  cases adding with
  | added data => exact absurd rfl waits
  | failed error => exact absurd rfl waits
  | checkMail data opts | checkMobile data opts | searchGroups data opts | addGroup data opts
  | searchPeople data opts | addAccount numbers data opts | rollback uid error => rfl

theorem grouped_of_partway (waits : adding.left ≠ 0)
    (partway : Partway conf row before directory adding) : Grouped conf row before directory := by
  cases adding with
  | checkMail data opts => exact Or.inl partway.1
  | checkMobile data opts => exact Or.inl partway.1
  | searchGroups data opts => exact Or.inl partway.1
  | addGroup data opts => exact Or.inl partway.1
  | searchPeople data opts => exact partway.1
  | addAccount numbers data opts => exact partway.1
  | rollback uid error => exact partway.1
  | failed error => exact partway
  | added data => exact absurd rfl waits

theorem addTurns_partway (named : row.username ≠ "")
    (clear : ∀ group ∈ before.groups, group.dn ≠ rollbackDn conf row.username) (more : Nat)
    (partway : Partway conf row before stores.directory adding) :
    Ends
      (fun later after => Partway conf row before after.directory later ∧ after.locked = stores.locked)
      (fun _ after => Grouped conf row before after.directory ∧ after.locked = stores.locked)
      (addTurns conf refused more adding stores) := by
  induction more generalizing adding stores with
  | zero => exact ⟨partway, rfl⟩
  | succ more ih =>
      by_cases ended : adding.left = 0
      · cases adding with
        | added data => exact ⟨partway, rfl⟩
        | failed error => exact ⟨partway, rfl⟩
        | checkMail data opts | checkMobile data opts | searchGroups data opts | addGroup data opts
        | searchPeople data opts | addAccount numbers data opts | rollback uid error => cases ended
      · rw [addTurns_succ ended]
        have awaited := (idle_await stores).mono (fun _ _ same => same)
          fun _ after same => (⟨same.directory ▸ grouped_of_partway ended partway, same.locked⟩ :
            Grouped conf row before after.directory ∧ after.locked = stores.locked)
        apply awaited.bind
        intro thrown middle same
        rw [← same.locked]
        exact ih (partway_turn named clear _ (same.directory ▸ partway))

theorem partway_userAdd :
    Partway conf row before before (userAdd conf ⟨newUser row, importOptions⟩) := by
  unfold userAdd
  split
  · exact ⟨rfl, rfl, rfl⟩
  · exact ⟨rfl, rfl, rfl⟩
  · exact partway_addLdapUser

/-! ## A call that is not refused -/

/-- The searches for mail and phone number that the call has before it find nothing. -/
def Passes (conf : LdapConf) (directory : LdapDirectory) : Adding → Prop
  | .checkMail data _ => directory.has conf (·.mail) data.mail = false ∧
      ((truthy data.mobile).isSome → directory.has conf (·.mobile) data.mobile = false)
  | .checkMobile data _ => directory.has conf (·.mobile) data.mobile = false
  | _ => True

theorem passes_of_left (beyond : adding.left ≤ 5) : Passes conf directory adding := by
  cases adding with
  | checkMail data opts => simp [Adding.left] at beyond
  | checkMobile data opts => simp [Adding.left] at beyond
  | searchGroups data opts | addGroup data opts | searchPeople data opts
  | addAccount numbers data opts | rollback uid error | added data | failed error => trivial

theorem passes_userAdd {call : AddCall} (unclaimed : Unclaimed conf directory call.data) :
    Passes conf directory (userAdd conf call) := by
  unfold userAdd
  cases mail : truthy call.data.mail with
  | some text => exact ⟨unclaimed.mail (mail ▸ rfl), unclaimed.mobile⟩
  | none =>
      cases mobile : truthy call.data.mobile with
      | some text => exact unclaimed.mobile (mobile ▸ rfl)
      | none => exact passes_of_left left_addLdapUser

/-- A turn that is not the last step of a failing call is one without faults from outside. -/
theorem turn_passes {thrown : Option AddError} (passes : Passes conf directory adding)
    (waits : adding.left ≠ 0) :
    (∃ uid error, (adding.turn conf (thrown.or (refused.on adding)) directory).2 =
        .rollback uid error) ∨
      (∃ error, (adding.turn conf (thrown.or (refused.on adding)) directory).2 = .failed error) ∨
        adding.turn conf (thrown.or (refused.on adding)) directory =
            adding.turn conf (refused.on adding) directory ∧
          Passes conf (adding.turn conf (refused.on adding) directory).1
            (adding.turn conf (refused.on adding) directory).2 := by
  cases adding with
  | checkMail data opts =>
      apply Or.inr
      apply Or.inr
      rw [turn_checkMail_free passes.1, turn_checkMail_free passes.1]
      refine ⟨rfl, ?_⟩
      unfold afterMail
      cases mobile : truthy data.mobile with
      | some text => exact passes.2 (mobile ▸ rfl)
      | none => exact passes_of_left left_addLdapUser
  | checkMobile data opts =>
      apply Or.inr
      apply Or.inr
      rw [turn_checkMobile_free passes, turn_checkMobile_free passes]
      exact ⟨rfl, passes_of_left left_addLdapUser⟩
  | searchGroups data opts | addGroup data opts | searchPeople data opts
  | addAccount numbers data opts =>
      cases thrown with
      | some error => exact Or.inl ⟨_, _, rfl⟩
      | none =>
          apply Or.inr
          apply Or.inr
          refine ⟨rfl, passes_of_left ((left_turn _).trans ?_)⟩
          simp [Adding.left]
  | rollback uid error =>
      apply Or.inr
      apply Or.inl
      cases thrown <;> exact ⟨_, rfl⟩
  | added data => exact absurd rfl waits
  | failed error => exact absurd rfl waits

theorem addTurns_failed_ne {more : Nat} {error : AddError} {after : Stores} :
    addTurns conf refused more (.failed error) stores ≠ .ok (.added data) after := by
  cases more <;> exact nofun

theorem addTurns_rollback_ne {more : Nat} {uid : String} {error : AddError} {after : Stores} :
    addTurns conf refused more (.rollback uid error) stores ≠ .ok (.added data) after := by
  cases more with
  | zero => exact nofun
  | succ more =>
      intro ran
      obtain ⟨thrown, middle, -, rest⟩ := exists_of_bind_ok ran
      cases thrown <;> exact addTurns_failed_ne rest

/-- A call that adds its account is one without faults. -/
theorem turns_of_added {more : Nat} {after : Stores} (passes : Passes conf stores.directory adding)
    (ran : addTurns conf refused more adding stores = .ok (.added data) after) :
    Adding.turns conf refused more stores.directory adding = (after.directory, .added data) := by
  induction more generalizing adding stores with
  | zero =>
      cases ran
      rfl
  | succ more ih =>
      by_cases ended : adding.left = 0
      · cases adding with
        | added data =>
            cases ran
            exact turns_added
        | failed error => cases ran
        | checkMail data opts | checkMobile data opts | searchGroups data opts | addGroup data opts
        | searchPeople data opts | addAccount numbers data opts | rollback uid error => cases ended
      · rw [addTurns_succ ended] at ran
        obtain ⟨thrown, middle, awaited, rest⟩ := exists_of_bind_ok ran
        have same := idle_await stores
        rw [awaited] at same
        rw [same.directory] at rest
        rcases @turn_passes conf stores.directory adding refused thrown passes ended with
          ⟨uid, error, rolls⟩ | ⟨error, fails⟩ | ⟨turned, next⟩
        · rw [rolls] at rest
          exact absurd rest addTurns_rollback_ne
        · rw [fails] at rest
          exact absurd rest addTurns_failed_ne
        · rw [turned] at rest
          exact @ih _ { middle with
            directory := (adding.turn conf (refused.on adding) stores.directory).1 } next rest

/-! ## What a call leaves -/

/-- The call has added its account, as a call without faults does where it passes the searches. -/
structure Added (conf : LdapConf) (row : PlannedUser) (before after : Stores) : Prop where
  account : AccountLeft conf row before.directory after.directory
  locked : after.locked = before.locked
  calm : Unclaimed conf before.directory (newUser row) → ∃ data,
    Adding.turns conf (refusals row) 7 before.directory
      (userAdd conf ⟨newUser row, importOptions⟩) = (after.directory, .added data)

/-- What a call of the row has left wherever it ends. -/
def Ended (conf : LdapConf) (row : PlannedUser) (before after : Stores) : Prop :=
  (Grouped conf row before.directory after.directory ∧ after.locked = before.locked) ∨
    Added conf row before after

variable {first second third : Stores}

theorem Added.congr (added : Added conf row first second) (same : SameEntries second third) :
    Added conf row first third :=
  ⟨same.directory ▸ added.account, same.locked.trans added.locked, same.directory ▸ added.calm⟩

theorem addUser_ended (named : row.username ≠ "")
    (clear : ∀ group ∈ stores.directory.groups, group.dn ≠ rollbackDn conf row.username) :
    Ends (fun _ after => Added conf row stores after) (fun _ after => Ended conf row stores after)
      (addUser conf row stores) := by
  have turned := @addTurns_partway conf row stores.directory
    (userAdd conf ⟨newUser row, importOptions⟩) stores (refusals row) named clear 7 partway_userAdd
  have called : Ends (fun _ after => Added conf row stores after)
      (fun _ after => Ended conf row stores after)
      ((addTurns conf (refusals row) 7 (userAdd conf ⟨newUser row, importOptions⟩) >>=
        readAdded conf) stores) := by
    cases ran : addTurns conf (refusals row) 7 (userAdd conf ⟨newUser row, importOptions⟩) stores with
    | error error after =>
        rw [ran] at turned
        rw [bind_error ran]
        exact Or.inl turned
    | ok later middle =>
        rw [ran] at turned
        rw [bind_ok ran]
        obtain ⟨reached, locked⟩ := turned
        cases later with
        | added data =>
            have added : Added conf row stores middle :=
              ⟨reached, locked, fun unclaimed =>
                ⟨data, turns_of_added (passes_userAdd unclaimed) ran⟩⟩
            exact (idle_readAdded (.added data) middle).mono (fun _ _ => added.congr)
              fun _ _ same => Or.inr (added.congr same)
        | failed error => exact Or.inl ⟨reached, locked⟩
        | checkMail data opts | checkMobile data opts | searchGroups data opts | addGroup data opts
        | searchPeople data opts | addAccount numbers data opts | rollback uid error =>
            refine Or.inl ⟨grouped_of_partway ?_ reached, locked⟩
            exact Nat.succ_ne_zero _
  apply called.tryCatch
  intro failure middle reached
  cases failure with
  | stopped => exact reached
  | thrown error =>
      dsimp only
      split <;> exact reached

/-! ## A row -/

/-- The call has added the account, and what came behind it kept a relation. -/
def Behind (conf : LdapConf) (row : PlannedUser) (related : Stores → Stores → Prop)
    (before after : Stores) : Prop :=
  ∃ middle, Added conf row before middle ∧ related middle after

/-- What the import of a row has left wherever it ends. -/
def Left (conf : LdapConf) (row : PlannedUser) (related : Stores → Stores → Prop)
    (before after : Stores) : Prop :=
  (Grouped conf row before.directory after.directory ∧ after.locked = before.locked) ∨
    Behind conf row related before after

theorem importUser_ended {options : ApplyOptions} {related : Stores → Stores → Prop}
    [Std.Refl related] [IsTrans Stores related] (named : row.username ≠ "")
    (clear : ∀ group ∈ stores.directory.groups, group.dn ≠ rollbackDn conf row.username)
    (importable : row.importable = true)
    (keeps : ∀ created, Keeps related (settleUser conf options row created)) :
    Ends
      (fun result after => Left conf row related stores after ∧
        (result.2.isSome → Behind conf row related stores after))
      (fun _ after => Left conf row related stores after) (importUser conf options row stores) := by
  have called : Ends
      (fun result after => Left conf row related stores after ∧
        (result.2.isSome → Behind conf row related stores after))
      (fun _ after => Left conf row related stores after)
      ((addUser conf row >>= fun created => reportUser conf options row created >>= fun report =>
        pure (report, some created)) stores) := by
    have adds := (addUser_ended named clear).mono (fun _ _ added => added) fun _ after ended =>
      (ended.imp_right fun added => ⟨after, added, Std.Refl.refl after⟩ :
        Left conf row related stores after)
    apply adds.bind
    intro created middle added
    have reported := (keeps_reportUser (keeps created) middle).mono (fun _ _ kept => kept)
      fun _ after kept => (Or.inr ⟨middle, added, kept⟩ : Left conf row related stores after)
    apply reported.bind
    intro report after kept
    exact ⟨Or.inr ⟨middle, added, kept⟩, fun _ => ⟨middle, added, kept⟩⟩
  unfold importUser
  rw [if_pos importable]
  apply called.tryCatch
  intro failure middle reached
  cases failure with
  | stopped => exact reached
  | thrown error => exact ⟨reached, nofun⟩

end ThetaDirectory.Migration
