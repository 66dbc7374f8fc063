import ThetaDirectory.Migration.PersonalGroups
import ThetaDirectory.Migration.Writes

/-!
# Imports side by side

Two imports without faults, from stores with the same accounts, groups and locks: verification rows
make no difference to what they write.
-/

namespace ThetaDirectory.Migration

open Accounts Library Library.Effect

/-- No fault is to come on either side, and no account, group or lock differs. -/
structure Parallel (stores other : Stores) : Prop where
  calm : stores.fates = []
  otherCalm : other.fates = []
  same : SameEntries stores other

/-- Both sides throw this. -/
def SameError (failure other : Failure) : Prop := failure = other ∧ IsThrown failure

variable {α β : Type} {conf : LdapConf} {row : PlannedUser} {options : ApplyOptions}
  {values : α → β → Prop} {failures : Failure → Failure → Prop} {stores other : Stores}

theorem agree_perform {first : Importing α} {second : Importing β}
    (agree : Agree Parallel failures values first second) :
    Agree Parallel failures values (perform first) (perform second) := by
  intro stores other parallel
  rw [perform_eq parallel.calm, perform_eq parallel.otherCalm]
  exact agree stores other parallel

theorem meets_catching {first : Importing α} {second : Importing β} {handler : AddError → Importing α}
    {further : AddError → Importing β}
    (meets : Meets Parallel SameError values (first stores) (second other))
    (rest : ∀ error, Agree Parallel failures values (handler error) (further error)) :
    Meets Parallel failures values (catching first handler stores) (catching second further other) := by
  apply meets.tryCatch
  intro failure other same
  obtain ⟨rfl, isThrown⟩ := same
  cases failure with
  | thrown error => exact rest error
  | stopped => exact isThrown.elim

theorem agree_catching {first : Importing α} {second : Importing β} {handler : AddError → Importing α}
    {further : AddError → Importing β} (agree : Agree Parallel SameError values first second)
    (rest : ∀ error, Agree Parallel failures values (handler error) (further error)) :
    Agree Parallel failures values (catching first handler) (catching second further) :=
  fun stores other parallel => meets_catching (agree stores other parallel) rest

theorem agree_throw (error : AddError) :
    Agree Parallel SameError values (throw (.thrown error)) (throw (.thrown error)) :=
  Agree.throw ⟨rfl, trivial⟩

theorem agree_read {read : Stores → α}
    (same : ∀ stores other, SameEntries stores other → read stores = read other) :
    Agree Parallel failures Eq (perform do return read (← get)) (perform do return read (← get)) := by
  apply agree_perform
  intro stores other parallel
  exact ⟨same stores other parallel.same, parallel⟩

theorem agree_getOrCreate (uid : String) :
    Agree Parallel failures (fun _ _ => True) (getOrCreate uid) (getOrCreate uid) := by
  intro stores other parallel
  obtain ⟨first, verifications, ran⟩ := getOrCreate_eq parallel.calm uid
  obtain ⟨second, rows, ended⟩ := getOrCreate_eq parallel.otherCalm uid
  rw [ran, ended]
  exact ⟨trivial, parallel.calm, parallel.otherCalm, parallel.same.directory, parallel.same.locked⟩

theorem agree_updateVerification (uid : String) (change : Verification → Verification) :
    Agree Parallel failures Eq (updateVerification uid change) (updateVerification uid change) := by
  apply agree_perform
  intro stores other parallel
  exact ⟨rfl, parallel.calm, parallel.otherCalm, parallel.same.directory, parallel.same.locked⟩

theorem getUser_none (calm : stores.fates = []) {uid : String}
    (found : (stores.directory.people.find? fun person => conf.sameValue person.uid uid) = none) :
    getUser conf uid stores =
      .error (.thrown ⟨"UserNotFound", "LDAP:" ++ uid ++ " does not exist", some 404⟩) stores := by
  have read : (perform do
        return (← get).directory.people.find? fun person => conf.sameValue person.uid uid :
      Importing (Option AccountEntry)) stores = .ok none stores :=
    (perform_eq calm).trans (congrArg (EStateM.Result.ok · stores) found)
  unfold getUser
  rw [bind_ok read]
  rfl

theorem agree_getUser (uid : String) :
    Agree Parallel SameError Eq (getUser conf uid) (getUser conf uid) := by
  intro stores other parallel
  cases found : stores.directory.people.find? fun person => conf.sameValue person.uid uid with
  | none =>
      have missing := parallel.same.directory ▸ found
      rw [getUser_none parallel.calm found, getUser_none parallel.otherCalm missing]
      exact ⟨⟨rfl, trivial⟩, parallel⟩
  | some user =>
      have listed := parallel.same.directory ▸ found
      obtain ⟨verifications, ran⟩ := getUser_eq parallel.calm found
      obtain ⟨rows, ended⟩ := getUser_eq parallel.otherCalm listed
      rw [ran, ended]
      exact ⟨rfl, parallel.calm, parallel.otherCalm, parallel.same.directory, parallel.same.locked⟩

theorem agree_readAdded {adding : Adding} (ended : adding.left = 0) :
    Agree Parallel SameError Eq (readAdded conf adding) (readAdded conf adding) := by
  cases adding with
  | added data =>
      apply (agree_getUser data.uidText).bind
      intro user same isSame
      subst isSame
      exact (agree_getOrCreate user.uid).bind fun _ _ _ => Agree.pure rfl
  | failed error => exact agree_throw error
  | checkMail data opts | checkMobile data opts | searchGroups data opts | addGroup data opts
  | searchPeople data opts | addAccount numbers data opts | rollback uid error => cases ended

/-- Both calls of `User.add` end in one way. -/
theorem meets_addUser (calm : stores.fates = []) (otherCalm : other.fates = [])
    (same : Adding.turns conf (refusals row) 7 stores.directory
        (userAdd conf ⟨newUser row, importOptions⟩) =
      Adding.turns conf (refusals row) 7 other.directory (userAdd conf ⟨newUser row, importOptions⟩))
    (locked : other.locked = stores.locked) :
    Meets Parallel SameError Eq (addUser conf row stores) (addUser conf row other) := by
  apply meets_catching
  · have turned := @addTurns_eq conf row stores calm 7 (userAdd conf ⟨newUser row, importOptions⟩)
    have others := @addTurns_eq conf row other otherCalm 7
      (userAdd conf ⟨newUser row, importOptions⟩)
    have ended := @left_turns_userAdd conf stores.directory (refusals row)
      ⟨newUser row, importOptions⟩
    rw [← same] at others
    rw [bind_ok turned, bind_ok others]
    exact agree_readAdded ended _ _ ⟨calm, otherCalm, rfl, locked⟩
  · intro error
    split <;> exact agree_throw _

theorem agree_getGroup (name : String) :
    Agree Parallel SameError Eq (getGroup conf name) (getGroup conf name) := by
  apply (agree_read fun stores other same => by rw [same.directory]).bind
  intro found same isSame
  subst isSame
  cases found with
  | none => exact agree_throw _
  | some group => exact Agree.pure rfl

theorem agree_modifyGroup (dn : String) (change : GroupEntry → Except AddError GroupEntry) :
    Agree Parallel SameError Eq (modifyGroup dn change) (modifyGroup dn change) := by
  apply agree_perform
  intro stores other parallel
  dsimp only
  rw [parallel.same.directory]
  cases stores.directory.modifyGroup dn change with
  | error error => exact ⟨⟨rfl, trivial⟩, parallel⟩
  | ok after => exact ⟨rfl, parallel.calm, parallel.otherCalm, rfl, parallel.same.locked⟩

theorem agree_joinService (row : PlannedUser) (created : AccountEntry) :
    Agree Parallel SameError Eq (joinService conf row created) (joinService conf row created) := by
  unfold joinService
  split
  · apply (agree_getGroup _).bind
    intro service same isSame
    subst isSame
    apply agree_catching (agree_modifyGroup _ _)
    intro error
    split
    · exact Agree.pure rfl
    · exact agree_throw error
  · exact Agree.pure rfl

theorem agree_verifyUser (options : ApplyOptions) (row : PlannedUser) :
    Agree Parallel failures Eq (verifyUser options row) (verifyUser options row) := by
  apply (agree_getOrCreate _).bind
  intro first second _
  dsimp only
  split
  · exact agree_updateVerification _ _
  · exact Agree.pure rfl

theorem agree_deactivate (user : AccountEntry) :
    Agree Parallel SameError Eq (deactivate user) (deactivate user) := by
  apply agree_catching
  · apply agree_perform
    intro stores other parallel
    dsimp only
    rw [parallel.same.directory, parallel.same.locked]
    split
    · exact ⟨rfl, parallel.calm, parallel.otherCalm, rfl, rfl⟩
    · exact ⟨⟨rfl, trivial⟩, parallel⟩
  · intro error
    split <;> exact agree_throw _

theorem agree_settleUser (options : ApplyOptions) (row : PlannedUser) (created : AccountEntry) :
    Agree Parallel SameError Eq (settleUser conf options row created)
      (settleUser conf options row created) := by
  apply (agree_joinService row created).bind
  intro _ _ _
  apply (agree_verifyUser options row).bind
  intro _ _ _
  split
  · exact agree_deactivate created
  · exact Agree.pure rfl

theorem agree_reportUser (options : ApplyOptions) (row : PlannedUser) (created : AccountEntry) :
    Agree Parallel failures Eq (reportUser conf options row created)
      (reportUser conf options row created) := by
  apply agree_catching
  · exact (agree_settleUser options row created).bind fun _ _ _ => Agree.pure rfl
  · exact fun error => Agree.pure rfl

theorem meets_importUser (options : ApplyOptions) (importable : row.importable = true)
    (meets : Meets Parallel SameError Eq (addUser conf row stores) (addUser conf row other)) :
    Meets Parallel failures Eq (importUser conf options row stores)
      (importUser conf options row other) := by
  unfold importUser
  rw [if_pos importable]
  apply meets_catching
  · apply meets.bind
    intro created same isSame
    subst isSame
    apply (agree_reportUser options row created).bind
    intro report same isSame
    subst isSame
    exact Agree.pure rfl
  · exact fun error => Agree.pure rfl

theorem agree_importUser (options : ApplyOptions) (row : PlannedUser) :
    Agree Parallel failures Eq (importUser conf options row) (importUser conf options row) := by
  cases importable : row.importable with
  | true =>
      intro stores other parallel
      apply meets_importUser options importable
      exact meets_addUser parallel.calm parallel.otherCalm (by rw [parallel.same.directory])
        parallel.same.locked
  | false =>
      have skipped : importUser conf options row = pure _ := if_neg (ne_true_of_eq_false importable)
      rw [skipped]
      exact Agree.pure rfl

/-! ## Names that differ -/

/-- `importedByUsername` has the same accounts but for these keys. -/
def SameBut (keys : List String) (imported known : Imported) : Prop :=
  ∀ key, key ∉ keys → imported.lookup key = known.lookup key

/-- No account of these keys gets a membership of a group that has a target, or beside another
account of a personal group. -/
structure Unlisted (plan : ImportPlan) (keys : List String) : Prop where
  groups : ∀ group ∈ plan.groups, group.target ≠ "" →
    ∀ username ∈ group.memberUsernames, lc username ∉ keys
  personal : ∀ group ∈ plan.personalGroups, ∀ username ∈ group.memberUsernames,
    lc username ≠ lc group.cn → lc username ∉ keys ∧ lc group.cn ∉ keys

variable {keys : List String} {imported known : Imported} {plan : ImportPlan}

theorem SameBut.remember (same : SameBut keys imported known) (username : String)
    (created : Option AccountEntry) :
    SameBut keys (imported.remember username created) (known.remember username created) := by
  cases created with
  | none => exact same
  | some user =>
      intro key free
      simp only [Imported.remember, List.lookup_cons, same key free]

theorem agree_importUsers (rows : List PlannedUser) (same : SameBut keys imported known) :
    Agree Parallel failures (fun first second => first.1 = second.1 ∧ SameBut keys first.2 second.2)
      (importUsers conf options rows imported) (importUsers conf options rows known) := by
  induction rows generalizing imported known with
  | nil => exact Agree.pure ⟨rfl, same⟩
  | cons row rows ih =>
      apply (agree_importUser options row).bind
      intro result again isSame
      subst isSame
      apply (ih (same.remember row.username result.2)).bind
      intro first second later
      exact Agree.pure ⟨congrArg (result.1 :: ·) later.1, later.2⟩

theorem agree_addMembers (target : GroupEntry) {usernames : List String}
    (same : ∀ username ∈ usernames, imported.lookup (lc username) = known.lookup (lc username)) :
    Agree Parallel failures Eq (addMembers target imported usernames)
      (addMembers target known usernames) := by
  induction usernames with
  | nil => exact Agree.pure rfl
  | cons username usernames ih =>
      have rest := ih fun other listed => same other (List.mem_cons_of_mem _ listed)
      unfold addMembers
      rw [same username List.mem_cons_self]
      cases known.lookup (lc username) with
      | none => exact rest
      | some user =>
          refine Agree.bind (?_ : Agree Parallel failures Eq _ _) ?_
          · apply agree_catching
            · exact (agree_modifyGroup _ _).bind fun _ _ _ => Agree.pure rfl
            · exact fun error => Agree.pure rfl
          · intro failure again isSame
            subst isSame
            apply rest.bind
            intro joined again isSame
            subst isSame
            cases failure <;> exact Agree.pure rfl

theorem agree_mapGroup (group : PlannedGroup)
    (same : group.target ≠ "" → ∀ username ∈ group.memberUsernames,
      imported.lookup (lc username) = known.lookup (lc username)) :
    Agree Parallel failures Eq (mapGroup conf imported group) (mapGroup conf known group) := by
  unfold mapGroup
  split
  · exact Agree.pure rfl
  · rename_i chosen
    apply agree_catching
    · apply (agree_getGroup _).bind
      intro target again isSame
      subst isSame
      apply (agree_addMembers target (same chosen)).bind
      intro joined again isSame
      subst isSame
      exact Agree.pure rfl
    · exact fun error => Agree.pure rfl

theorem agree_mapGroups {groups : List PlannedGroup}
    (same : ∀ group ∈ groups, group.target ≠ "" → ∀ username ∈ group.memberUsernames,
      imported.lookup (lc username) = known.lookup (lc username)) :
    Agree Parallel failures Eq (mapGroups conf imported groups) (mapGroups conf known groups) := by
  induction groups with
  | nil => exact Agree.pure rfl
  | cons group groups ih =>
      apply (agree_mapGroup group (same group List.mem_cons_self)).bind
      intro report again isSame
      subst isSame
      apply (ih fun other listed => same other (List.mem_cons_of_mem _ listed)).bind
      intro reports again isSame
      subst isSame
      exact Agree.pure rfl

theorem agree_addPersonalMembers (cn : String) {usernames : List String}
    (same : ∀ username ∈ usernames, lc username ≠ lc cn →
      imported.lookup (lc username) = known.lookup (lc username)) :
    Agree Parallel failures Eq (addPersonalMembers conf imported cn usernames)
      (addPersonalMembers conf known cn usernames) := by
  induction usernames with
  | nil => exact Agree.pure rfl
  | cons username usernames ih =>
      have member : Agree Parallel failures Eq (addPersonalMember conf imported cn username)
          (addPersonalMember conf known cn username) := by
        unfold addPersonalMember
        by_cases own : lc username = lc cn
        · rw [if_neg fun both => both.1 own, if_neg fun both => both.1 own]
          exact Agree.pure rfl
        · rw [same username List.mem_cons_self own]
          split
          · apply agree_catching
            · apply (agree_getUser username).bind
              exact fun _ _ _ => agree_modifyGroup _ _
            · exact fun error => Agree.pure rfl
          · exact Agree.pure rfl
      apply member.bind
      intro _ _ _
      exact ih fun other listed => same other (List.mem_cons_of_mem _ listed)

theorem addPersonalMembers_own {cn : String} {usernames : List String}
    (own : ∀ username ∈ usernames, lc username = lc cn) :
    addPersonalMembers conf imported cn usernames = pure () := by
  induction usernames with
  | nil => rfl
  | cons username usernames ih =>
      have nothing : addPersonalMember conf imported cn username = pure () :=
        if_neg fun both => both.1 (own username List.mem_cons_self)
      unfold addPersonalMembers
      rw [nothing]
      exact ih fun other listed => own other (List.mem_cons_of_mem _ listed)

theorem addPersonalGroup_own {group : PlannedGroup}
    (own : ∀ username ∈ group.memberUsernames, lc username = lc group.cn) :
    addPersonalGroup conf imported group = pure () := by
  unfold addPersonalGroup
  rw [addPersonalMembers_own own, ite_self]

theorem Unlisted.own (unlisted : Unlisted plan keys) {group : PlannedGroup}
    (listed : group ∈ plan.personalGroups) (isKey : lc group.cn ∈ keys) :
    ∀ username ∈ group.memberUsernames, lc username = lc group.cn := by
  intro username member
  by_contra other
  exact (unlisted.personal group listed username member other).2 isKey

theorem agree_addPersonalGroups (unlisted : Unlisted plan keys) (same : SameBut keys imported known)
    {groups : List PlannedGroup} (listed : ∀ group ∈ groups, group ∈ plan.personalGroups) :
    Agree Parallel failures Eq (addPersonalGroups conf imported groups)
      (addPersonalGroups conf known groups) := by
  induction groups with
  | nil => exact Agree.pure rfl
  | cons group groups ih =>
      have personal := listed group List.mem_cons_self
      have first : Agree Parallel failures Eq (addPersonalGroup conf imported group)
          (addPersonalGroup conf known group) := by
        by_cases isKey : lc group.cn ∈ keys
        · have own := unlisted.own personal isKey
          rw [addPersonalGroup_own own, addPersonalGroup_own own]
          exact Agree.pure rfl
        · unfold addPersonalGroup
          rw [same _ isKey]
          split
          · apply agree_addPersonalMembers
            intro username member other
            exact same _ (unlisted.personal group personal username member other).1
          · exact Agree.pure rfl
      apply first.bind
      intro _ _ _
      exact ih fun other member => listed other (List.mem_cons_of_mem _ member)

/-- What follows the accounts. -/
def mapAll (conf : LdapConf) (plan : ImportPlan) (users : List UserReport × Imported) :
    Importing Report := do
  let groups ← mapGroups conf users.2 plan.groups
  addPersonalGroups conf users.2 plan.personalGroups
  pure ⟨users.1, groups⟩

theorem applyPlan_eq (plan : ImportPlan) :
    applyPlan conf options plan = importUsers conf options plan.users [] >>= mapAll conf plan := rfl

theorem agree_mapAll (unlisted : Unlisted plan keys) {first second : List UserReport × Imported}
    (same : SameBut keys first.2 second.2) :
    Agree Parallel failures (fun _ _ => True) (mapAll conf plan first) (mapAll conf plan second) := by
  apply (agree_mapGroups fun group listed chosen username member =>
    same _ (unlisted.groups group listed chosen username member)).bind
  intro reports again _
  apply (agree_addPersonalGroups unlisted same fun group listed => listed).bind
  intro _ _ _
  exact Agree.pure trivial

end ThetaDirectory.Migration
