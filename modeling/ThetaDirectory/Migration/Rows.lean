import ThetaDirectory.Migration.Steady

/-!
# The accounts and groups of an import

What the rows to import leave when every operation happens and no account fails: each account has the
number its row asks for or the next one, and a group is brought by the first row that comes to its
number.
-/

namespace ThetaDirectory.Migration

open Accounts Library Library.Effect

/-- A posixGroup with the number stands at the DN. -/
def Stands (directory : LdapDirectory) (dn : String) (number : Int) : Prop :=
  ∃ group ∈ directory.groups, group.dn = dn ∧ "posixGroup" ∈ group.objectclass ∧
    group.gidNumber = some number

/-- The text is a memberUid of a posixGroup with the number. -/
def Lists (directory : LdapDirectory) (number : Int) (username : String) : Prop :=
  ∃ group ∈ directory.groups, "posixGroup" ∈ group.objectclass ∧ group.gidNumber = some number ∧
    username ∈ group.memberUid

/-- An account of the name has the number as its primary gid. -/
def Owns (directory : LdapDirectory) (number : Int) (username : String) : Prop :=
  ∃ person ∈ directory.people, lc person.uid = lc username ∧ person.gidNumber = some number

variable (conf : LdapConf)

/-- The gid of a row's account, beside groups with these numbers. -/
def primaryGid (taken : List Int) (row : PlannedUser) : Int :=
  numberFor conf importOptions taken (readInteger row.gidNumber)

/-- The row gets a group of its own. -/
def bringsGroup (taken : List Int) (row : PlannedUser) : Bool :=
  !isTaken importOptions taken (readInteger row.gidNumber)

def takenWith (taken : List Int) (row : PlannedUser) : List Int :=
  if bringsGroup taken row then taken ++ [primaryGid conf taken row] else taken

/-- At the turn of some row this holds of the numbers of the groups and of the row. -/
def AtTurn (holds : List Int → PlannedUser → Prop) : List Int → List PlannedUser → Prop
  | _, [] => False
  | taken, row :: rows => holds taken row ∨ AtTurn holds (takenWith conf taken row) rows

/-- A row comes to the number. -/
def ComesTo (number : Int) (username : String) (taken : List Int) (row : PlannedUser) : Prop :=
  lc row.username = lc username ∧ primaryGid conf taken row = number

/-- A row brings the group with the number to the DN. -/
def BringsTo (dn : String) (number : Int) (taken : List Int) (row : PlannedUser) : Prop :=
  groupDn conf row.username = dn ∧ bringsGroup taken row = true ∧ primaryGid conf taken row = number

instance (holds : List Int → PlannedUser → Prop) [∀ taken row, Decidable (holds taken row)] :
    ∀ taken rows, Decidable (AtTurn conf holds taken rows)
  | _, [] => inferInstanceAs (Decidable False)
  | taken, row :: rows =>
      haveI := instDecidableAtTurn holds (takenWith conf taken row) rows
      inferInstanceAs (Decidable (_ ∨ _))

instance (dn : String) (number : Int) (taken : List Int) (row : PlannedUser) :
    Decidable (BringsTo conf dn number taken row) :=
  inferInstanceAs (Decidable (_ ∧ _))

/-- What rows leave whose accounts are all added. -/
structure Advanced (rows : List PlannedUser) (before after : LdapDirectory) : Prop where
  distinct : Distinct after
  taken : after.gidNumbers = rows.foldl (takenWith conf) before.gidNumbers
  stands : ∀ dn number, Stands after dn number ↔
    Stands before dn number ∨ AtTurn conf (BringsTo conf dn number) before.gidNumbers rows
  lists : ∀ number username, Lists after number username ↔ Lists before number username
  owns : ∀ number username, Owns after number username ↔
    Owns before number username ∨ AtTurn conf (ComesTo conf number username) before.gidNumbers rows
  kept : ∀ person ∈ before.people, person ∈ after.people
  named : ∀ row ∈ rows, ∃ person ∈ after.people, person.uid = row.username

variable {conf} {row : PlannedUser} {rows : List PlannedUser} {before middle after : LdapDirectory}
  {prepared stored : NewUser} {stores : Stores}

theorem Advanced.refl (distinct : Distinct before) : Advanced conf [] before before where
  distinct := distinct
  taken := rfl
  stands _ _ := (or_false _).symm.to_iff
  lists _ _ := Iff.rfl
  owns _ _ := (or_false _).symm.to_iff
  kept _ listed := listed
  named _ listed := nomatch listed

/-- The first row, then the others. -/
theorem Advanced.cons (first : Advanced conf [row] before middle)
    (rest : Advanced conf rows middle after) : Advanced conf (row :: rows) before after := by
  have next : middle.gidNumbers = takenWith conf before.gidNumbers row := first.taken
  have turn (holds : List Int → PlannedUser → Prop) :
      AtTurn conf holds before.gidNumbers (row :: rows) ↔
        AtTurn conf holds before.gidNumbers [row] ∨ AtTurn conf holds middle.gidNumbers rows := by
    rw [next]
    simp only [AtTurn, or_false]
  constructor
  · exact rest.distinct
  · rw [rest.taken, next]
    rfl
  · intro dn number
    rw [rest.stands, first.stands, turn, or_assoc]
  · intro number username
    rw [rest.lists, first.lists]
  · intro number username
    rw [rest.owns, first.owns, turn, or_assoc]
  · exact fun person listed => rest.kept person (first.kept person listed)
  · intro other listed
    rcases List.mem_cons.mp listed with rfl | later
    · obtain ⟨person, isListed, named⟩ := first.named other List.mem_cons_self
      exact ⟨person, rest.kept person isListed, named⟩
    · exact rest.named other later

/-! ## Steps that only write members -/

theorem mem_bare_iff (beside : Beside before after) {holds : GroupEntry → Prop}
    (congr : ∀ group, holds (bare group) ↔ holds group) :
    (∃ group ∈ after.groups, holds group) ↔ ∃ group ∈ before.groups, holds group := by
  have step (directory : LdapDirectory) :
      (∃ group ∈ directory.groups, holds group) ↔ ∃ group ∈ directory.groups.map bare, holds group := by
    simp only [List.mem_map, exists_exists_and_eq_and, congr]
  rw [step after, beside.groups, ← step]

theorem gidNumbers_of_beside (beside : Beside before after) : after.gidNumbers = before.gidNumbers := by
  have step (directory : LdapDirectory) : directory.gidNumbers =
      ((directory.groups.map bare).filter fun group => group.objectclass.contains "posixGroup").filterMap
        (·.gidNumber) := by
    rw [List.filter_map, List.filterMap_map]
    rfl
  rw [step after, beside.groups, ← step]

theorem Advanced.beside (advanced : Advanced conf rows before middle) (beside : Beside middle after) :
    Advanced conf rows before after where
  distinct := beside.distinct advanced.distinct
  taken := (gidNumbers_of_beside beside).trans advanced.taken
  stands dn number := (mem_bare_iff beside fun _ => Iff.rfl).trans (advanced.stands dn number)
  lists number username := (mem_bare_iff beside fun _ => Iff.rfl).trans (advanced.lists number username)
  owns number username := by
    unfold Owns
    rw [beside.people]
    exact advanced.owns number username
  kept person listed := beside.people ▸ advanced.kept person listed
  named other listed := beside.people ▸ advanced.named other listed

/-! ## One row -/

theorem uidText_prepare (named : row.username ≠ "")
    (isPrepared : prepare conf importOptions (newUser row) = .ok prepared) :
    prepared.uidText = row.username := by
  have uid : truthy (newUser row).uid = some row.username := by
    simp [truthy, newUser, named]
  unfold prepare at isPrepared
  rw [uid] at isPrepared
  cases isPrepared
  rfl

theorem gidNumber_newUser (isPrepared : prepare conf importOptions (newUser row) = .ok prepared) :
    prepared.gidNumber = readInteger row.gidNumber := gidNumber_prepare isPrepared

/-- The groups behind a row. -/
theorem mem_grouped_iff (named : row.username ≠ "")
    (isPrepared : prepare conf importOptions (newUser row) = .ok prepared)
    {holds : GroupEntry → Prop} :
    (∃ group ∈ (before.grouped conf importOptions prepared).groups, holds group) ↔
      (∃ group ∈ before.groups, holds group) ∨ bringsGroup before.gidNumbers row = true ∧
        holds ⟨groupDn conf row.username, row.username, ["posixGroup", "top"],
          some (primaryGid conf before.gidNumbers row), [], []⟩ := by
  have uid := uidText_prepare named isPrepared
  have asked := gidNumber_newUser isPrepared
  unfold LdapDirectory.grouped bringsGroup
  rw [asked]
  cases isTaken importOptions before.gidNumbers (readInteger row.gidNumber) with
  | true => simp
  | false =>
      have own : personalGroup conf (withGid conf importOptions before prepared) =
          ⟨groupDn conf row.username, row.username, ["posixGroup", "top"],
            some (primaryGid conf before.gidNumbers row), [], []⟩ := by
        rw [← uid, primaryGid, ← asked]
        rfl
      simp [own, LdapDirectory.withGroup, or_and_right, exists_or]

theorem distinct_grouped (distinct : Distinct before)
    (finds : FindsGroup conf importOptions (refusals row) before prepared.uidText prepared.gidNumber) :
    Distinct (before.grouped conf importOptions prepared) := by
  unfold LdapDirectory.grouped
  cases taken : isTaken importOptions before.gidNumbers prepared.gidNumber with
  | true => exact distinct
  | false =>
      have absent := (finds.group taken).1
      unfold Distinct LdapDirectory.withGroup
      rw [if_neg Bool.false_ne_true, List.map_append]
      apply List.nodup_append'.mpr
      refine ⟨distinct, List.nodup_singleton _, ?_⟩
      intro dn listed own
      obtain ⟨group, member, rfl⟩ := List.mem_map.mp listed
      exact absent group member (List.mem_singleton.mp own)

theorem gidNumbers_grouped
    (isPrepared : prepare conf importOptions (newUser row) = .ok prepared) :
    (before.grouped conf importOptions prepared).gidNumbers =
      takenWith conf before.gidNumbers row := by
  have asked := gidNumber_newUser isPrepared
  unfold LdapDirectory.grouped takenWith bringsGroup
  rw [asked]
  cases isTaken importOptions before.gidNumbers (readInteger row.gidNumber) with
  | true => rfl
  | false =>
      have own : [personalGroup conf (withGid conf importOptions before prepared)].filterMap
          (·.gidNumber) = [primaryGid conf before.gidNumbers row] := by
        rw [primaryGid, ← asked]
        rfl
      rw [if_neg Bool.false_ne_true, if_pos (Bool.not_false), ← own]
      unfold LdapDirectory.gidNumbers LdapDirectory.withGroup
      rw [List.filter_append, List.filterMap_append]
      rfl

theorem advanced_of_adds (named : row.username ≠ "") (distinct : Distinct before)
    (isPrepared : prepare conf importOptions (newUser row) = .ok prepared)
    (adds : AddsAccount conf importOptions (refusals row) prepared before after stored) :
    Advanced conf [row] before after := by
  have storedUid : stored.uidText = row.username := by
    have uid := uidText_prepare named isPrepared
    rw [adds.assigned]
    exact uid
  have storedGid : stored.gidNumber = some (primaryGid conf before.gidNumbers row) := by
    rw [adds.assigned, primaryGid, ← gidNumber_newUser isPrepared]
    rfl
  have groups : after.groups = (before.grouped conf importOptions prepared).groups := by
    rw [adds.left]
    rfl
  have people : after.people = before.people ++ [posixAccount conf stored] := by
    rw [adds.left]
    unfold LdapDirectory.withAccount LdapDirectory.grouped
    split <;> rfl
  constructor
  · have distinct := distinct_grouped distinct adds.group
    unfold Distinct at distinct ⊢
    rw [groups]
    exact distinct
  · have taken := @gidNumbers_grouped conf row before prepared isPrepared
    unfold LdapDirectory.gidNumbers at taken ⊢
    rw [groups]
    exact taken
  · intro dn number
    unfold Stands
    rw [groups, mem_grouped_iff named isPrepared]
    simp [AtTurn, BringsTo, and_left_comm]
  · intro number username
    unfold Lists
    rw [groups, mem_grouped_iff named isPrepared]
    simp
  · intro number username
    unfold Owns
    rw [people]
    simp [AtTurn, ComesTo, or_and_right, exists_or, posixAccount, storedUid, storedGid]
  · intro person listed
    exact people ▸ List.mem_append_left _ listed
  · intro other listed
    cases List.mem_singleton.mp listed
    refine ⟨posixAccount conf stored, ?_, storedUid⟩
    exact people ▸ List.mem_append_right _ (List.mem_singleton_self _)

/-! ## A call of `User.add` -/

theorem addTurns_eq (calm : stores.fates = []) (more : Nat) (adding : Adding) :
    addTurns conf (refusals row) more adding stores =
      .ok (Adding.turns conf (refusals row) more stores.directory adding).2
        { stores with
          directory := (Adding.turns conf (refusals row) more stores.directory adding).1 } := by
  induction more generalizing stores adding with
  | zero => rfl
  | succ more ih =>
      have awaited : await stores = .ok none stores := by
        unfold await
        rw [calm]
      have next := @ih { stores with
        directory := (adding.turn conf ((refusals row).on adding) stores.directory).1 } calm
          (adding.turn conf ((refusals row).on adding) stores.directory).2
      cases adding with
      | added data =>
          rw [turns_added]
          rfl
      | failed error =>
          rw [turns_failed]
          rfl
      | checkMail data opts | checkMobile data opts | searchGroups data opts | addGroup data opts
      | searchPeople data opts | addAccount numbers data opts | rollback uid error =>
          exact (bind_ok awaited).trans next

theorem left_userAdd (call : AddCall) : (userAdd conf call).left ≤ 7 := by
  have five := @left_addLdapUser conf call.opts call.data
  unfold userAdd
  split
  · exact Nat.le_refl _
  · exact Nat.le_succ _
  · exact five.trans (Nat.le_add_right 5 2)

theorem left_turns_userAdd {directory : LdapDirectory} {refused : Faults} (call : AddCall) :
    (Adding.turns conf refused 7 directory (userAdd conf call)).2.left = 0 := by
  have seven := @left_userAdd conf call
  have left := @left_turns conf refused directory 7 (userAdd conf call)
  omega

/-- The account of a row is added. -/
def Adds (conf : LdapConf) (row : PlannedUser) (before after : LdapDirectory) : Prop :=
  ∃ prepared stored middle, prepare conf importOptions (newUser row) = .ok prepared ∧
    Unclaimed conf before (newUser row) ∧
    AddsAccount conf importOptions (refusals row) prepared before middle stored ∧
    Beside middle after

theorem Adds.advanced (adds : Adds conf row before after) (named : row.username ≠ "")
    (distinct : Distinct before) : Advanced conf [row] before after := by
  obtain ⟨prepared, stored, middle, isPrepared, -, adds, beside⟩ := adds
  exact (advanced_of_adds named distinct isPrepared adds).beside beside

theorem Adds.beside (adds : Adds conf row before middle) (beside : Beside middle after) :
    Adds conf row before after := by
  obtain ⟨prepared, stored, first, isPrepared, unclaimed, adds, earlier⟩ := adds
  exact ⟨prepared, stored, first, isPrepared, unclaimed, adds, earlier.trans beside⟩

theorem steady_readAdded (data : NewUser) : Steady (readAdded conf (.added data)) := by
  apply (steady_getUser data.uidText).bind
  intro user
  apply (steady_getOrCreate user.uid).bind
  exact fun verification => Steady.pure user

theorem addUser_ends (calm : Calm Distinct stores) (named : row.username ≠ "") :
    Ends (fun _ after => Calm (Adds conf row stores.directory) after)
      (fun failure after => IsThrown failure ∧ after.fates = []) (addUser conf row stores) := by
  have turned := @addTurns_eq conf row stores calm.fates 7 (userAdd conf ⟨newUser row, importOptions⟩)
  have ended := @left_turns_userAdd conf stores.directory (refusals row)
    ⟨newUser row, importOptions⟩
  have called : Ends (fun _ after => Calm (Adds conf row stores.directory) after)
      (fun failure after => IsThrown failure ∧ after.fates = [])
      ((addTurns conf (refusals row) 7 (userAdd conf ⟨newUser row, importOptions⟩) >>=
        readAdded conf) stores) := by
    rw [bind_ok turned]
    cases result : Adding.turns conf (refusals row) 7 stores.directory
        (userAdd conf ⟨newUser row, importOptions⟩) with
    | mk after adding =>
        rw [result] at ended
        cases adding with
        | added stored =>
            obtain ⟨unclaimed, prepared, isPrepared, adds⟩ := turns_userAdd_iff.mp result
            have distinct := (advanced_of_adds named calm.directory isPrepared adds).distinct
            apply (steady_readAdded stored { stores with directory := after } ⟨calm.fates, distinct⟩).mono
            · intro user later read
              exact ⟨read.fates, prepared, stored, after, isPrepared, unclaimed, adds, read.directory⟩
            · exact fun failure later left => ⟨left.1, left.2.fates⟩
        | failed error => exact ⟨trivial, calm.fates⟩
        | checkMail data opts | checkMobile data opts | searchGroups data opts | addGroup data opts
        | searchPeople data opts | addAccount numbers data opts | rollback uid error => cases ended
  apply called.tryCatch
  intro failure middle reached
  cases failure with
  | stopped => exact reached.1.elim
  | thrown error =>
      dsimp only
      split <;> exact ⟨trivial, reached.2⟩

/-! ## All rows -/

/-- What a row leaves whose account is not called failed. -/
def Turned (conf : LdapConf) (row : PlannedUser) (before : LdapDirectory)
    (result : UserReport × Option AccountEntry) (after : Stores) : Prop :=
  after.fates = [] ∧ (result.1.status ≠ .failed →
    result.2.isSome = true ∧ Adds conf row before after.directory)

theorem importUser_ends {options : ApplyOptions} (calm : Calm Distinct stores)
    (named : row.username ≠ "") (importable : row.importable = true) :
    Ends (Turned conf row stores.directory) (fun _ _ => False)
      (importUser conf options row stores) := by
  have called : Ends (Turned conf row stores.directory)
      (fun failure after => IsThrown failure ∧ after.fates = [])
      ((addUser conf row >>= fun created => reportUser conf options row created >>= fun report =>
        pure (report, some created)) stores) := by
    apply (addUser_ends calm named).bind
    intro created middle reached
    have distinct := (reached.directory.advanced named calm.directory).distinct
    have reported := @steady_reportUser conf options row created middle
      ⟨reached.fates, distinct⟩
    have settled : Ends (fun _ after => Calm (Adds conf row stores.directory) after)
        (fun failure after => IsThrown failure ∧ after.fates = [])
        (reportUser conf options row created middle) :=
      reported.mono (fun _ after left => ⟨left.fates, reached.directory.beside left.directory⟩)
        fun failure after left => ⟨left.1, left.2.fates⟩
    apply settled.bind
    intro report after left
    exact ⟨left.fates, fun _ => ⟨rfl, left.directory⟩⟩
  unfold importUser
  rw [if_pos importable]
  apply called.tryCatch
  intro failure middle reached
  cases failure with
  | stopped => exact reached.1.elim
  | thrown error => exact ⟨reached.2, fun unfailed => absurd rfl unfailed⟩

/-- `importedByUsername` has the names of these rows. -/
def Remembers (rows : List PlannedUser) (imported later : Imported) : Prop :=
  ∀ key, (later.lookup key).isSome ↔
    (imported.lookup key).isSome ∨ ∃ row ∈ rows, lc row.username = key

def importables (plan : List PlannedUser) : List PlannedUser := plan.filter (·.importable)

theorem importUser_skipped {options : ApplyOptions} (skipped : row.importable = false) :
    importUser conf options row stores =
      .ok (⟨row.username, .skipped, (truthy row.blocking.head?).getD "rejected by operator"⟩, none)
        stores := by
  unfold importUser
  rw [if_neg (ne_true_of_eq_false skipped)]
  rfl

theorem isSome_lookup_cons (imported : Imported) (username key : String) (created : AccountEntry) :
    (List.lookup key ((username, created) :: imported)).isSome ↔
      username = key ∨ (imported.lookup key).isSome := by
  rw [List.lookup_cons]
  by_cases same : username = key
  · subst same
    simp
  · have apart : (key == username) = false := beq_eq_false_iff_ne.mpr (Ne.symm same)
    simp [apart, same]

theorem importUsers_advanced {options : ApplyOptions} {plan : List PlannedUser} {imported : Imported}
    {result : List UserReport × Imported} {final : Stores} (calm : Calm Distinct stores)
    (named : ∀ row ∈ importables plan, row.username ≠ "")
    (ran : importUsers conf options plan imported stores = .ok result final)
    (unfailed : ∀ report ∈ result.1, report.status ≠ .failed) :
    final.fates = [] ∧ Advanced conf (importables plan) stores.directory final.directory ∧
      Remembers (importables plan) imported result.2 := by
  induction plan generalizing stores imported result with
  | nil =>
      cases ran
      refine ⟨calm.fates, Advanced.refl calm.directory, fun key => ?_⟩
      simp [importables]
  | cons row plan ih =>
      unfold importUsers at ran
      obtain ⟨first, middle, turned, ran⟩ := exists_of_bind_ok ran
      obtain ⟨rest, last, others, ran⟩ := exists_of_bind_ok ran
      cases ran
      have later : ∀ report ∈ rest.1, report.status ≠ .failed :=
        fun report listed => unfailed report (List.mem_cons_of_mem _ listed)
      cases importable : row.importable with
      | false =>
          have same : importables (row :: plan) = importables plan :=
            List.filter_cons_of_neg (ne_true_of_eq_false importable)
          rw [importUser_skipped importable] at turned
          cases turned
          rw [same] at named ⊢
          exact @ih _ imported rest calm named others later
      | true =>
          have isFirst : importables (row :: plan) = row :: importables plan :=
            List.filter_cons_of_pos importable
          rw [isFirst] at named ⊢
          have isNamed := named row List.mem_cons_self
          have ends := @importUser_ends conf row stores options calm isNamed importable
          rw [turned] at ends
          obtain ⟨fates, adds⟩ := ends
          obtain ⟨isSome, adds⟩ := adds (unfailed first.1 List.mem_cons_self)
          have advanced := adds.advanced isNamed calm.directory
          have namedLater : ∀ other ∈ importables plan, other.username ≠ "" :=
            fun other listed => named other (List.mem_cons_of_mem _ listed)
          obtain ⟨ended, more, remembers⟩ :=
            @ih middle _ rest ⟨fates, advanced.distinct⟩ namedLater others later
          refine ⟨ended, advanced.cons more, fun key => ?_⟩
          obtain ⟨created, isCreated⟩ := Option.isSome_iff_exists.mp isSome
          have lookup := remembers key
          rw [isCreated] at lookup
          apply lookup.trans
          rw [Imported.remember, isSome_lookup_cons, List.exists_mem_cons_iff, or_assoc, or_left_comm]

end ThetaDirectory.Migration
