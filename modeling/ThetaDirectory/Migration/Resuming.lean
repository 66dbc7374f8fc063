import ThetaDirectory.Migration.Interruption

/-!
# Importing again

A second run of an import that stopped.  `User.add` refuses each account that the first run has
stored, so the second run neither finishes what such an account was still to get nor writes its
memberships.
-/

namespace ThetaDirectory.Migration

open Accounts Library Library.Effect

variable {conf : LdapConf} {row : PlannedUser} {rows plan : List PlannedUser}
  {whole : ImportPlan} {before after : LdapDirectory} {stores later : Stores}
  {imported known : Imported} {options : ApplyOptions} {refused : Faults}

/-! ## Accounts that are refused -/

theorem turns_checkMobile_claimed {more : Nat} {data : NewUser} {opts : AddOptions}
    (taken : before.has conf (·.mobile) data.mobile = true) :
    ∃ error, Adding.turns conf refused (more + 1) before (.checkMobile data opts) =
      (before, .failed error) := by
  rw [@turns_of_turn conf refused before (.checkMobile data opts) _ _ _ rfl
    (turn_checkMobile_taken taken) more]
  exact ⟨_, turns_failed⟩

theorem turns_afterMail_claimed {more : Nat} {data : NewUser} {opts : AddOptions}
    (given : (truthy data.mobile).isSome) (taken : before.has conf (·.mobile) data.mobile = true) :
    ∃ error, Adding.turns conf refused (more + 1) before (afterMail conf opts data) =
      (before, .failed error) := by
  obtain ⟨text, isText⟩ := Option.isSome_iff_exists.mp given
  unfold afterMail
  rw [isText]
  exact turns_checkMobile_claimed taken

theorem turns_of_claimed (claimed : ∃ person ∈ before.people, Claims conf row person) :
    ∃ error, Adding.turns conf refused 7 before (userAdd conf ⟨newUser row, importOptions⟩) =
      (before, .failed error) := by
  have taken : ¬ Unclaimed conf before (newUser row) := fun unclaimed => by
    obtain ⟨person, listed, claims⟩ := claimed
    exact unclaimed_iff.mp unclaimed person listed claims
  -- Where the mail passes, the mobile number is what some entry has.
  have mobile (free : (truthy (newUser row).mail).isSome →
      before.has conf (·.mail) (newUser row).mail = false) :
      (truthy (newUser row).mobile).isSome ∧
        before.has conf (·.mobile) (newUser row).mobile = true := by
    by_contra passes
    exact taken ⟨free, fun given => Bool.eq_false_iff.mpr fun found => passes ⟨given, found⟩⟩
  cases given : truthy (newUser row).mail with
  | none =>
      have both := mobile fun some => nomatch given ▸ some
      rw [userAdd_afterMail given]
      exact turns_afterMail_claimed both.1 both.2
  | some address =>
      rw [userAdd_checkMail given]
      cases mail : before.has conf (·.mail) (newUser row).mail with
      | true =>
          rw [@turns_of_turn conf refused before (.checkMail (newUser row) importOptions) _ _ _ rfl
            (turn_checkMail_taken mail) 6]
          exact ⟨_, turns_failed⟩
      | false =>
          have both := mobile fun _ => mail
          rw [@turns_of_turn conf refused before (.checkMail (newUser row) importOptions) _ _ _ rfl
            (turn_checkMail_free mail) 6]
          exact turns_afterMail_claimed both.1 both.2

theorem importUser_refused (importable : row.importable = true) (calm : stores.fates = [])
    (claimed : ∃ person ∈ stores.directory.people, Claims conf row person) :
    ∃ report, importUser conf options row stores = .ok (report, none) stores := by
  obtain ⟨error, turned⟩ := @turns_of_claimed conf row stores.directory (refusals row) claimed
  have ran := @addTurns_eq conf row stores calm 7 (userAdd conf ⟨newUser row, importOptions⟩)
  rw [turned] at ran
  have called : (addTurns conf (refusals row) 7 (userAdd conf ⟨newUser row, importOptions⟩) >>=
      readAdded conf) stores = .error (.thrown error) stores := bind_ok ran
  have adds : ∃ thrown, addUser conf row stores = .error (.thrown thrown) stores := by
    unfold addUser catching
    rw [tryCatch_error called]
    dsimp only
    split
    · exact ⟨_, rfl⟩
    · exact ⟨_, rfl⟩
  obtain ⟨thrown, adds⟩ := adds
  refine ⟨⟨row.username, .failed, thrown.message⟩, ?_⟩
  unfold importUser
  rw [if_pos importable]
  exact tryCatch_error (bind_error adds)

/-- A second run passes the rows of stored accounts with a failure each. -/
theorem importUsers_refused (calm : stores.fates = [])
    (claimed : ∀ row ∈ importables plan, ∃ person ∈ stores.directory.people, Claims conf row person) :
    ∃ reports, importUsers conf options plan imported stores = .ok (reports, imported) stores := by
  induction plan with
  | nil => exact ⟨[], rfl⟩
  | cons row plan ih =>
      cases importable : row.importable with
      | false =>
          rw [importables_skip importable] at claimed
          obtain ⟨reports, rest⟩ := ih claimed
          exact ⟨_, (bind_ok (importUser_skipped importable)).trans (bind_ok rest)⟩
      | true =>
          rw [importables_cons importable] at claimed
          obtain ⟨report, ran⟩ := @importUser_refused conf row stores options importable calm
            (claimed row List.mem_cons_self)
          obtain ⟨reports, rest⟩ := ih fun other listed =>
            claimed other (List.mem_cons_of_mem _ listed)
          exact ⟨report :: reports, (bind_ok ran).trans (bind_ok rest)⟩

/-! ## A row whose group is there -/

theorem turns_of_left {adding : Adding} {more : Nat} (ends : adding.left ≤ more) :
    Adding.turns conf refused (more + 1) before adding =
      Adding.turns conf refused more before adding := by
  induction more generalizing adding before with
  | zero =>
      cases adding with
      | added data => rfl
      | failed error => rfl
      | checkMail data opts | checkMobile data opts | searchGroups data opts | addGroup data opts
      | searchPeople data opts | addAccount numbers data opts | rollback uid error => cases ends
  | succ more ih =>
      apply ih
      exact (left_turn adding).trans (Nat.sub_le_of_le_add ends)

theorem exists_turns_afterMail (conf : LdapConf) (opts : AddOptions) (data : NewUser) :
    ∃ spent, spent ≤ 1 ∧ ∀ more directory refused,
      ((truthy data.mobile).isSome → directory.has conf (·.mobile) data.mobile = false) →
        Adding.turns conf refused (more + spent) directory (afterMail conf opts data) =
          Adding.turns conf refused more directory (addLdapUser conf opts data) := by
  cases mobile : truthy data.mobile with
  | none =>
      refine ⟨0, Nat.zero_le 1, fun more directory refused free => ?_⟩
      unfold afterMail
      rw [mobile]
      rfl
  | some text =>
      refine ⟨1, Nat.le_refl 1, fun more directory refused free => ?_⟩
      unfold afterMail
      rw [mobile]
      exact turns_of_turn rfl (turn_checkMobile_free (free rfl)) more

/-- A call that the searches for mail and phone number let pass. -/
theorem exists_turns_addLdapUser (conf : LdapConf) (call : AddCall) :
    ∃ more, ∀ directory refused, Unclaimed conf directory call.data →
      Adding.turns conf refused 7 directory (userAdd conf call) =
        Adding.turns conf refused (more + 5) directory (addLdapUser conf call.opts call.data) := by
  obtain ⟨spent, few, rest⟩ := exists_turns_afterMail conf call.opts call.data
  cases mail : truthy call.data.mail with
  | none =>
      refine ⟨2 - spent, fun directory refused unclaimed => ?_⟩
      rw [userAdd_afterMail mail, ← rest _ directory refused unclaimed.mobile]
      congr 1
      omega
  | some address =>
      refine ⟨1 - spent, fun directory refused unclaimed => ?_⟩
      rw [userAdd_checkMail mail, ← rest _ directory refused unclaimed.mobile,
        turns_of_turn rfl (turn_checkMail_free (unclaimed.mail (mail ▸ rfl))) 6]
      congr 1
      omega

theorem exists_prepared (named : row.username ≠ "") :
    ∃ prepared, prepare conf importOptions (newUser row) = .ok prepared := by
  have given : truthy (newUser row).uid = some row.username := by
    simp [truthy, newUser, Option.filter, named]
  unfold prepare
  rw [given]
  exact ⟨_, rfl⟩

/-- A call that finds the group it was to add goes on as the one that adds it. -/
theorem turns_of_groupLeft (named : row.username ≠ "")
    (asked : (readInteger row.gidNumber).isSome = true)
    (group : GroupLeft conf row (readInteger row.gidNumber) before after) (more : Nat) :
    Adding.turns conf (refusals row) (more + 5) after (addLdapUser conf importOptions (newUser row)) =
      Adding.turns conf (refusals row) (more + 5) before
        (addLdapUser conf importOptions (newUser row)) := by
  obtain ⟨prepared, isPrepared⟩ := @exists_prepared conf row named
  obtain ⟨number, isNumber⟩ := Option.isSome_iff_exists.mp asked
  have uid := uidText_prepare named isPrepared
  have gid := gidNumber_newUser isPrepared
  have numbered (directory : LdapDirectory) :
      withGid conf importOptions directory prepared = { prepared with gidNumber := some number } := by
    rw [withGid, gid, isNumber]
    rfl
  have own : personalGroup conf { prepared with gidNumber := some number } =
      ownGroup conf row (readInteger row.gidNumber) := by
    rw [ownGroup, ← uid, isNumber]
    rfl
  have taken : isTaken importOptions after.gidNumbers prepared.gidNumber = true := by
    rw [gid, group.left, isNumber]
    simp [isTaken, importOptions, LdapDirectory.gidNumbers, LdapDirectory.withGroup, ownGroup]
  have free : isTaken importOptions before.gidNumbers prepared.gidNumber = false := gid ▸ group.isNew
  have found : Adding.turn conf none after (.searchGroups prepared importOptions) =
      (after, .searchPeople { prepared with gidNumber := some number } importOptions) := by
    dsimp only [Adding.turn]
    rw [chooseGid_taken, if_pos taken, numbered]
  have searched : Adding.turn conf none before (.searchGroups prepared importOptions) =
      (before, .addGroup { prepared with gidNumber := some number } importOptions) := by
    dsimp only [Adding.turn]
    rw [chooseGid_taken, if_neg (ne_true_of_eq_false free), numbered]
  have added : Adding.turn conf none before
      (.addGroup { prepared with gidNumber := some number } importOptions) =
        (after, .searchPeople { prepared with gidNumber := some number } importOptions) := by
    have absent : ¬ (before.groups.any fun other => other.dn == groupDn conf prepared.uidText) = true := by
      rw [uid]
      simpa using group.absent
    rw [group.left, ← own]
    exact if_neg absent
  have refused : (refusals row).addGroup = none := by
    apply if_neg
    rw [isNumber]
    exact fun both => Option.some_ne_none number both.2
  unfold addLdapUser
  rw [isPrepared]
  dsimp only
  rw [@turns_of_turn conf (refusals row) after (.searchGroups prepared importOptions) _ _ _ rfl found
      (more + 4),
    @turns_of_turn conf (refusals row) before (.searchGroups prepared importOptions) _ _ _ rfl searched
      (more + 4),
    @turns_of_turn conf (refusals row) before
      (.addGroup { prepared with gidNumber := some number } importOptions) _ _ _ refused added (more + 3)]
  apply turns_of_left
  exact Nat.le_add_left 3 more

/-- The import of a row that was to add its account alone is one that adds its group as well. -/
theorem agree_halfAdded {failures : Failure → Failure → Prop} (options : ApplyOptions)
    (named : row.username ≠ "") (importable : row.importable = true)
    (half : HalfAdded conf row stores later) (calm : stores.fates = []) (again : later.fates = []) :
    Meets Parallel failures Eq (importUser conf options row later)
      (importUser conf options row stores) := by
  have people : later.directory.people = stores.directory.people := by
    rw [half.group.left]
    rfl
  have unclaimed := unclaimed_iff.mpr half.free
  have stillFree := unclaimed_iff.mpr (people ▸ half.free)
  obtain ⟨more, start⟩ := exists_turns_addLdapUser conf ⟨newUser row, importOptions⟩
  have same := (start later.directory (refusals row) stillFree).trans
    ((turns_of_groupLeft named half.asked half.group more).trans
      (start stores.directory (refusals row) unclaimed).symm)
  exact meets_importUser options importable (meets_addUser again calm same half.locked.symm)

variable {keys : List String} {failures : Failure → Failure → Prop}

theorem meets_importUsers (names : NamedApart (importables plan)) (same : SameBut keys imported known)
    (resumed : Resumed conf (importables plan) stores later) (calm : stores.fates = [])
    (again : later.fates = []) :
    Meets Parallel failures
      (fun first second => first.1 = second.1 ∧ SameBut keys first.2 second.2)
      (importUsers conf options plan imported later) (importUsers conf options plan known stores) := by
  rcases resumed with kept | ⟨row, isHead, half⟩
  · exact agree_importUsers plan same later stores
      ⟨again, calm, kept.directory.symm, kept.locked.symm⟩
  · induction plan with
    | nil => cases isHead
    | cons other plan ih =>
        cases importable : other.importable with
        | false =>
            rw [importables_skip importable] at names isHead
            obtain ⟨report, skips⟩ := @importUsers_skip conf other plan options importable
            rw [skips, skips]
            apply (ih names isHead).bind
            exact fun first second rest => Agree.pure ⟨congrArg (report :: ·) rest.1, rest.2⟩
        | true =>
            rw [importables_cons importable] at names isHead
            cases Option.some.inj isHead
            have named := ne_empty_of_isUsername (names.named _ List.mem_cons_self)
            apply (agree_halfAdded options named importable half calm again).bind
            intro result back isSame
            subst isSame
            apply (agree_importUsers plan (same.remember _ result.2)).bind
            exact fun first second rest => Agree.pure ⟨congrArg (result.1 :: ·) rest.1, rest.2⟩

/-! ## Memberships -/

theorem framed_addMembers (target : GroupEntry) (imported : Imported) (usernames : List String) :
    Keeps Framed (addMembers target imported usernames) := by
  induction usernames with
  | nil => exact Keeps.pure _
  | cons username usernames ih =>
      unfold addMembers
      split
      · exact ih
      · apply Keeps.bind
        · apply keeps_catching
          · exact (framed_modifyGroup _ fun _ _ => dn_withMember).bind fun _ => Keeps.pure _
          · exact fun error => Keeps.pure _
        · intro failure
          apply ih.bind
          intro joined
          cases failure <;> exact Keeps.pure _

theorem framed_mapGroups (imported : Imported) (groups : List PlannedGroup) :
    Keeps Framed (mapGroups conf imported groups) := by
  induction groups with
  | nil => exact Keeps.pure _
  | cons group groups ih =>
      have maps : Keeps Framed (mapGroup conf imported group) := by
        unfold mapGroup
        split
        · exact Keeps.pure _
        · apply keeps_catching
          · apply ((idle_getGroup _).mono fun _ _ same => same.framed).bind
            intro target
            exact (framed_addMembers target imported _).bind fun _ => Keeps.pure _
          · exact fun error => Keeps.pure _
      apply maps.bind
      intro report
      exact ih.bind fun _ => Keeps.pure _

theorem dn_withMemberUid {uid : String} {group changed : GroupEntry}
    (isChanged : withMemberUid uid group = .ok changed) : changed.dn = group.dn := by
  unfold withMemberUid at isChanged
  split at isChanged
  · cases isChanged
  · split at isChanged
    · cases isChanged
    · cases isChanged
      rfl

theorem framed_addPersonalMembers (imported : Imported) (cn : String) (usernames : List String) :
    Keeps Framed (addPersonalMembers conf imported cn usernames) := by
  induction usernames with
  | nil => exact Keeps.pure ()
  | cons username usernames ih =>
      have adds : Keeps Framed (addPersonalMember conf imported cn username) := by
        unfold addPersonalMember
        split
        · apply keeps_catching
          · apply ((idle_getUser username).mono fun _ _ same => same.framed).bind
            exact fun _ => framed_modifyGroup _ fun _ _ => dn_withMemberUid
          · exact fun error => Keeps.pure ()
        · exact Keeps.pure ()
      exact adds.bind fun _ => ih

theorem framed_addPersonalGroups (imported : Imported) (groups : List PlannedGroup) :
    Keeps Framed (addPersonalGroups conf imported groups) := by
  induction groups with
  | nil => exact Keeps.pure ()
  | cons group groups ih =>
      have adds : Keeps Framed (addPersonalGroup conf imported group) := by
        unfold addPersonalGroup
        split
        · exact framed_addPersonalMembers imported group.cn _
        · exact Keeps.pure ()
      exact adds.bind fun _ => ih

theorem framed_mapAll (users : List UserReport × Imported) : Keeps Framed (mapAll conf whole users) := by
  apply (framed_mapGroups users.2 _).bind
  intro reports
  exact (framed_addPersonalGroups users.2 _).bind fun _ => Keeps.pure _

theorem addMembers_none (target : GroupEntry) {usernames : List String}
    (none : ∀ username ∈ usernames, imported.lookup (lc username) = none) :
    addMembers target imported usernames = pure ⟨0, []⟩ := by
  induction usernames with
  | nil => rfl
  | cons username usernames ih =>
      unfold addMembers
      rw [none username List.mem_cons_self]
      exact ih fun other listed => none other (List.mem_cons_of_mem _ listed)

/-- Where only accounts were imported that no group lists, no membership is written. -/
theorem idle_mapAll (unlisted : Unlisted whole keys) {users : List UserReport × Imported}
    (same : SameBut keys users.2 []) : Keeps SameEntries (mapAll conf whole users) := by
  have maps (groups : List PlannedGroup) (listed : ∀ group ∈ groups, group ∈ whole.groups) :
      Keeps SameEntries (mapGroups conf users.2 groups) := by
    induction groups with
    | nil => exact Keeps.pure _
    | cons group groups ih =>
        have first : Keeps SameEntries (mapGroup conf users.2 group) := by
          unfold mapGroup
          split
          · exact Keeps.pure _
          · rename_i chosen
            apply keeps_catching
            · apply (idle_getGroup _).bind
              intro target
              rw [addMembers_none target fun username member => same _
                (unlisted.groups group (listed group List.mem_cons_self) chosen username member)]
              exact (Keeps.pure _).bind fun _ => Keeps.pure _
            · exact fun error => Keeps.pure _
        apply first.bind
        intro report
        exact (ih fun other member => listed other (List.mem_cons_of_mem _ member)).bind
          fun _ => Keeps.pure _
  have personal (groups : List PlannedGroup) (listed : ∀ group ∈ groups, group ∈ whole.personalGroups) :
      addPersonalGroups conf users.2 groups = pure () := by
    induction groups with
    | nil => rfl
    | cons group groups ih =>
        have first : addPersonalGroup conf users.2 group = pure () := by
          by_cases isKey : lc group.cn ∈ keys
          · exact addPersonalGroup_own (unlisted.own (listed group List.mem_cons_self) isKey)
          · unfold addPersonalGroup
            rw [same _ isKey]
            rfl
        unfold addPersonalGroups
        rw [first]
        exact ih fun other member => listed other (List.mem_cons_of_mem _ member)
  apply (maps whole.groups fun group listed => listed).bind
  intro reports
  rw [personal whole.personalGroups fun group listed => listed]
  exact (Keeps.pure ()).bind fun _ => Keeps.pure _

/-! ## A whole run -/

theorem importUsers_append (first second : List PlannedUser) (imported : Imported) :
    importUsers conf options (first ++ second) imported =
      importUsers conf options first imported >>= fun one =>
        importUsers conf options second one.2 >>= fun two => pure (one.1 ++ two.1, two.2) := by
  induction first generalizing imported with
  | nil => simp [importUsers]
  | cons row first ih => simp [importUsers, ih]

theorem importUsers_sameBut (listed : ∀ row ∈ importables plan, lc row.username ∈ keys) :
    Ends (fun result _ => SameBut keys result.2 imported) (fun _ _ => True)
      (importUsers conf options plan imported stores) := by
  induction plan generalizing imported stores with
  | nil => exact fun _ _ => rfl
  | cons row plan ih =>
      cases importable : row.importable with
      | false =>
          rw [importables_skip importable] at listed
          exact ends_skip importable (fun _ _ _ same => same) (ih listed)
      | true =>
          rw [importables_cons importable] at listed
          apply (ends_trivial (importUser conf options row stores)).bind
          intro result middle _
          apply (ih fun other later => listed other (List.mem_cons_of_mem _ later)).bind
          intro rest _ same key free
          apply (same key free).trans
          cases result.2 with
          | none => rfl
          | some created =>
              have apart : key ≠ lc row.username := fun isKey =>
                free (isKey ▸ listed row List.mem_cons_self)
              rw [Imported.remember, List.lookup_cons, beq_eq_false_iff_ne.mpr apart]

theorem Resumed.people (resumed : Resumed conf rows stores later) :
    later.directory.people = stores.directory.people := by
  rcases resumed with same | ⟨row, -, half⟩
  · rw [same.directory]
  · rw [half.group.left]
    rfl

theorem Resumed.congr {first second third : Stores} (same : SameEntries first second)
    (resumed : Resumed conf rows second third) : Resumed conf rows first third := by
  rcases resumed with kept | ⟨row, isHead, half⟩
  · exact Or.inl (IsTrans.trans _ _ _ same kept)
  · refine Or.inr ⟨row, isHead, half.asked, ?_, half.locked.trans same.locked, ?_⟩
    · exact same.directory ▸ half.group
    · exact same.directory ▸ half.free

theorem Resumed.kept {first second third : Stores} (resumed : Resumed conf rows first second)
    (same : SameEntries second third) : Resumed conf rows first third := by
  rcases resumed with kept | ⟨row, isHead, half⟩
  · exact Or.inl (IsTrans.trans _ _ _ kept same)
  · refine Or.inr ⟨row, isHead, half.asked, ?_, same.locked.trans half.locked, half.free⟩
    exact same.directory ▸ half.group

theorem Finished.congr (same : after.people = before.people) (finished : Finished conf row after) :
    Finished conf row before :=
  ⟨same ▸ finished.claimed, same ▸ finished.owned⟩

theorem Begun.framed (framed : Framed stores later) (begun : Begun conf rows later.directory) :
    Begun conf rows stores.directory := by
  have stands (row : PlannedUser) : StandsOwn conf row stores.directory ↔
      StandsOwn conf row later.directory := by
    have place (directory : LdapDirectory) : StandsOwn conf row directory ↔
        groupDn conf row.username ∈ directory.groups.map (·.dn) := by
      simp [StandsOwn]
    rw [place, place, framed.places]
  constructor
  · have unstored := begun.unstored
    unfold Stored at unstored
    rw [framed.people] at unstored
    exact unstored
  · intro row isHead own
    have first := begun.first row isHead ((stands row).mp own)
    rw [framed.people] at first
    exact first
  · exact fun row listed own => begun.later row listed ((stands row).mp own)

/-- The keys of `importedByUsername` that the rows bring. -/
def keysOf (plan : List PlannedUser) : List String := (importables plan).map fun row => lc row.username

variable {done rest : List PlannedUser} {start : Stores}

/-- If the accounts that are left are those of the first rows, a run without faults of these rows
comes to what is left, but for a group of the next row. -/
def TakesUp (conf : LdapConf) (options : ApplyOptions) (done rest : List PlannedUser)
    (fresh after : Stores) : Prop :=
  (∀ row ∈ importables done, Finished conf row after.directory) →
    Begun conf (importables rest) after.directory →
      ∃ result final, importUsers conf options done [] fresh = .ok result final ∧ final.fates = [] ∧
        Resumed conf (importables rest) final after

theorem takesUp_of_repeats {fresh middle after : Stores}
    (repeats : (∀ row ∈ importables done, Finished conf row middle.directory) →
      Repeats conf options done [] fresh middle)
    (resumed : Begun conf (importables rest) after.directory →
      Resumed conf (importables rest) middle after) : TakesUp conf options done rest fresh after := by
  intro finished begun
  have reached := resumed begun
  obtain ⟨result, final, ran, calm, same⟩ :=
    repeats fun row listed => (finished row listed).congr reached.people
  exact ⟨result, final, ran, calm, reached.congr same⟩

theorem applyPlan_left (placesApart : PlacesApart conf) (split : whole.users = done ++ rest)
    (names : NamedApart (importables whole.users))
    (clear : Clear conf (importables whole.users) start.directory)
    (free : ∀ row ∈ importables whole.users, ¬ Stored row start.directory)
    (settled : ∀ row ∈ importables done, Settled row) (unlisted : Unlisted whole (keysOf done)) :
    Ends (fun _ after => TakesUp conf options done rest { start with fates := [] } after)
      (fun _ after => TakesUp conf options done rest { start with fates := [] } after)
      (applyPlan conf options whole start) := by
  have both : importables whole.users = importables done ++ importables rest := by
    rw [split]
    exact List.filter_append _ _
  rw [both] at names clear free
  have apart := List.pairwise_append.mp names.apart
  have first : NamedApart (importables done) :=
    ⟨fun row listed => names.named row (List.mem_append_left _ listed), apart.1⟩
  have second : NamedApart (importables rest) :=
    ⟨fun row listed => names.named row (List.mem_append_right _ listed), apart.2.1⟩
  have clearFirst : Clear conf (importables done) start.directory :=
    fun row listed => clear row (List.mem_append_left _ listed)
  rw [applyPlan_eq, split, importUsers_append, bind_assoc]
  have stored := @importUsers_finished conf done start [] options { start with fates := [] } []
    placesApart first clearFirst settled rfl ⟨rfl, rfl⟩ fun row listed =>
      free row (List.mem_append_left _ listed)
  have grown := @importUsers_grown conf done start [] options placesApart first clearFirst
  have named := @importUsers_sameBut conf done start [] options (keysOf done) fun row listed =>
    List.mem_map_of_mem listed
  have reached := stored.and (grown.and named)
  apply Ends.bind (reached.mono (fun _ _ all => all) fun _ after all =>
    takesUp_of_repeats all.1 fun _ => Or.inl (Std.Refl.refl after))
  intro one middle all
  have clearSecond := clear.behind placesApart names all.2.1
  have begun := @importUsers_begun conf rest middle one.2 options placesApart second clearSecond
  rw [bind_assoc]
  apply Ends.bind (begun.mono (fun _ _ resumed => resumed) fun _ after resumed =>
    takesUp_of_repeats all.1 resumed)
  intro two last resumed
  rw [pure_bind]
  by_cases same : two.2 = one.2
  · have idle := @idle_mapAll conf whole (keysOf done) unlisted (one.1 ++ two.1, two.2)
      (same ▸ all.2.2) last
    have up {after : Stores} (kept : SameEntries last after) :
        TakesUp conf options done rest { start with fates := [] } after := by
      apply takesUp_of_repeats all.1
      intro started
      rw [kept.directory] at started
      exact (resumed started).1.kept kept
    exact idle.mono (fun _ _ kept => up kept) fun _ _ kept => up kept
  · have framed := @framed_mapAll conf whole (one.1 ++ two.1, two.2) last
    have up {after : Stores} (kept : Framed last after) :
        TakesUp conf options done rest { start with fates := [] } after :=
      fun _ started => absurd (resumed (started.framed kept)).2 same
    exact framed.mono (fun _ _ kept => up kept) fun _ _ kept => up kept

/-! ## Two runs -/

/-- The stores of a run, however it ends. -/
def leftBy (conf : LdapConf) (options : ApplyOptions) (plan : ImportPlan) (start : Stores) : Stores :=
  final (applyPlan conf options plan start)

/-- A further run without faults ends with the accounts, groups, memberships and locks of one that
was never interrupted. -/
def FinishesAgain (conf : LdapConf) (options : ApplyOptions) (plan : ImportPlan) (start : Stores) :
    Prop :=
  ∃ again behind once full,
    applyPlan conf options plan { leftBy conf options plan start with fates := [] } =
        .ok again behind ∧
      applyPlan conf options plan { start with fates := [] } = .ok once full ∧
        Restored full.directory behind.directory ∧ ∀ dn, dn ∈ behind.locked ↔ dn ∈ full.locked

/-- What a stopped run has left can be finished: the accounts of the first rows are there and wait
for nothing more, of the others none is, and at most the next row has left its group. -/
structure Resumable (conf : LdapConf) (plan : ImportPlan) (before after : LdapDirectory)
    (done rest : List PlannedUser) : Prop where
  split : plan.users = done ++ rest
  clear : Clear conf (importables plan.users) before
  finished : ∀ row ∈ importables done, Finished conf row after
  settled : ∀ row ∈ importables done, Settled row
  unlisted : Unlisted plan (keysOf done)
  begun : Begun conf (importables rest) after

theorem namedApart_reviewed (profile : Profile) (existing : Existing) (entries : List Entry)
    (review : Review) :
    NamedApart (importables ((buildPlan profile existing entries).reviewed review).users) := by
  have unblocked {user : PlannedUser} (importable : user.importable = true) : user.blocking = [] :=
    of_decide_eq_true (Bool.and_eq_true_iff.mp importable).2
  constructor
  · intro row listed
    obtain ⟨member, importable⟩ := List.mem_filter.mp listed
    obtain ⟨user, inPlan, rfl⟩ := List.mem_map.mp member
    obtain ⟨place, found⟩ := List.getElem?_of_mem inPlan
    obtain ⟨entry, -, isName, -, blocked⟩ := exists_entry_of_row found
    have free := unblocked importable
    rw [blocking_withDecision] at free
    rw [username_withDecision, isName]
    exact (blocked.mp free).named
  · apply List.pairwise_filter.mpr
    apply List.pairwise_map.mpr
    apply List.pairwise_iff_getElem.mpr
    intro first second isPlace isOther less importable otherImportable
    obtain ⟨entry, isEntry, isName, -, -⟩ := exists_entry_of_row (List.getElem?_eq_getElem isPlace)
    obtain ⟨other, -, otherName, -, blocked⟩ :=
      exists_entry_of_row (List.getElem?_eq_getElem isOther)
    have free := unblocked otherImportable
    rw [blocking_withDecision] at free
    rw [username_withDecision, username_withDecision, isName, otherName]
    exact (blocked.mp free).firstName entry (mem_take less isEntry)

theorem placesApart_caselessConf : PlacesApart caselessConf := by
  intro name other _ _ same
  have chars := congrArg String.toList same
  simp only [groupDn, rollbackDn, caselessConf, plainConf, id_eq, String.toList_append,
    List.append_assoc, List.append_cancel_left_eq, List.append_cancel_right_eq] at chars
  rw [String.toList_inj.mp chars]

instance (row : PlannedUser) (person : AccountEntry) : Decidable (Claims conf row person) :=
  inferInstanceAs (Decidable (_ ∨ _))

instance (row : PlannedUser) (directory : LdapDirectory) : Decidable (Stored row directory) :=
  inferInstanceAs (Decidable (∃ person ∈ directory.people, _))

instance (row : PlannedUser) (directory : LdapDirectory) : Decidable (StandsOwn conf row directory) :=
  inferInstanceAs (Decidable (∃ group ∈ directory.groups, _))

instance (row : PlannedUser) (directory : LdapDirectory) : Decidable (Finished conf row directory) :=
  decidable_of_iff ((∃ person ∈ directory.people, Claims conf row person) ∧
      ∀ person ∈ directory.people, Claims conf row person → person.uid = row.username)
    ⟨fun both => ⟨both.1, both.2⟩, fun finished => ⟨finished.claimed, finished.owned⟩⟩

instance (row : PlannedUser) : Decidable (Settled row) :=
  decidable_of_iff (row.decision ≠ .service ∧ row.locked = false)
    ⟨fun both => ⟨both.1, both.2⟩, fun settled => ⟨settled.decision, settled.unlocked⟩⟩

instance (rows : List PlannedUser) (directory : LdapDirectory) : Decidable (Begun conf rows directory) :=
  decidable_of_iff ((∀ row ∈ rows, ¬ Stored row directory) ∧
      (∀ row ∈ rows.head?, StandsOwn conf row directory → (readInteger row.gidNumber).isSome = true ∧
        ∀ person ∈ directory.people, ¬ Claims conf row person) ∧
      ∀ row ∈ rows.tail, ¬ StandsOwn conf row directory)
    ⟨fun all => ⟨all.1, all.2.1, all.2.2⟩, fun begun => ⟨begun.unstored, begun.first, begun.later⟩⟩

/-- So many operations happen, then the process stops. -/
def stopsAfter (groups : List GroupEntry) (count : Nat) : Stores :=
  ⟨⟨groups, []⟩, [], [], List.replicate count .happens ++ [.stops]⟩

def annEntry : Entry :=
  ⟨"cn=ann", [("objectclass", ["posixAccount"]), ("uid", ["ann"]), ("uidnumber", ["1500"]),
    ("gidnumber", ["1500"]), ("mail", ["ann@mail"])]⟩

/-- Two accounts without groups. -/
def pairPlan : ImportPlan :=
  (buildPlan ⟨"posixaccount", "uid", ["groupofnames"], "member"⟩ {}
    [annEntry, ⟨"cn=bob", [("objectclass", ["posixAccount"]), ("uid", ["bob"]),
      ("uidnumber", ["1501"]), ("gidnumber", ["1501"])]⟩]).reviewed ⟨fun _ => none, fun _ => none⟩

/-- One account, and a group that lists it, to be mapped to a group of the directory. -/
def crewPlan : ImportPlan :=
  (buildPlan ⟨"posixaccount", "uid", ["groupofnames"], "member"⟩ {}
    [annEntry, ⟨"cn=crew", [("objectclass", ["groupOfNames"]), ("cn", ["crew"]),
      ("member", ["cn=ann"])]⟩]).reviewed ⟨fun _ => none, fun _ => some "staff"⟩

def staffGroup : GroupEntry where
  dn := "cn=staff,ou=groups"
  cn := "staff"
  objectclass := ["groupOfNames"]
  gidNumber := none
  member := ["cn=eve,ou=people"]
  memberUid := []

/-- Is there a group of the uninterrupted run that the second run does not come to? -/
def missesGroup : Bool :=
  match applyPlan caselessConf {} crewPlan
      { leftBy caselessConf {} crewPlan (stopsAfter [staffGroup] 5) with fates := [] },
    applyPlan caselessConf {} crewPlan { stopsAfter [staffGroup] 5 with fates := [] } with
  | .ok _ behind, .ok _ full =>
      full.directory.groups.any fun group => !behind.directory.groups.contains group
  | _, _ => false

end ThetaDirectory.Migration
