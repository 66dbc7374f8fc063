import ThetaDirectory.Accounts.UidNumbers

/-!
# The rollback of a failed account

`addLdapUser` on its own.  Whatever fails, it deletes the group that carries the name of the account,
without regard to which group that is and to what the call itself has added.
-/

namespace ThetaDirectory.Accounts

/-- What the operations of a call throw from outside. -/
structure Faults where
  searchGroups : Option AddError := none
  addGroup : Option AddError := none
  searchPeople : Option AddError := none
  addAccount : Option AddError := none

/-- The delete of the rollback throws nothing. -/
def Faults.on (faults : Faults) : Adding → Option AddError
  | .searchGroups _ _ => faults.searchGroups
  | .addGroup _ _ => faults.addGroup
  | .searchPeople _ _ => faults.searchPeople
  | .addAccount _ _ _ => faults.addAccount
  | _ => none

/-- So many operations of a call. -/
def Adding.turns (conf : LdapConf) (faults : Faults) :
    Nat → LdapDirectory → Adding → LdapDirectory × Adding
  | 0, directory, adding => (directory, adding)
  | more + 1, directory, adding =>
      let (next, later) := adding.turn conf (faults.on adding) directory
      turns conf faults more next later

/-- A whole call: four operations, or fewer and the rollback. -/
def addLdapUserAlone (conf : LdapConf) (opts : AddOptions) (data : NewUser) (faults : Faults)
    (directory : LdapDirectory) : LdapDirectory × Adding :=
  Adding.turns conf faults 5 directory (addLdapUser conf opts data)

/-- The same entries. -/
structure Restored (before after : LdapDirectory) : Prop where
  groups : ∀ group, group ∈ after.groups ↔ group ∈ before.groups
  people : ∀ person, person ∈ after.people ↔ person ∈ before.people

/-- The name that the rollback deletes. -/
def finalUid (conf : LdapConf) (opts : AddOptions) (data : NewUser) : String :=
  match prepare conf opts data with
  | .ok data => data.uidText
  | .error _ => data.uidText

/-- The call prefers a number that a group has. -/
def SharesGid (opts : AddOptions) (data : NewUser) (directory : LdapDirectory) : Prop :=
  opts.preserveIds = true ∧ ∃ gidNumber, data.gidNumber = some gidNumber ∧
    ∃ group ∈ directory.groups, "posixGroup" ∈ group.objectclass ∧ group.gidNumber = some gidNumber

/-- The call comes to add a group of its own. -/
structure AddsGroup (conf : LdapConf) (opts : AddOptions) (data : NewUser) (faults : Faults)
    (directory : LdapDirectory) : Prop where
  named : ∃ prepared, prepare conf opts data = .ok prepared
  searched : faults.searchGroups = none
  unshared : ¬ SharesGid opts data directory
  absent : ∀ group ∈ directory.groups, group.dn ≠ groupDn conf (finalUid conf opts data)
  stored : faults.addGroup = none

/-- No group stands where the rollback deletes, and the call's own group would stand there. -/
structure RollsBack (conf : LdapConf) (opts : AddOptions) (data : NewUser) (faults : Faults)
    (directory : LdapDirectory) : Prop where
  absent : ∀ group ∈ directory.groups, group.dn ≠ rollbackDn conf (finalUid conf opts data)
  own : AddsGroup conf opts data faults directory →
    groupDn conf (finalUid conf opts data) = rollbackDn conf (finalUid conf opts data)

variable {conf : LdapConf} {opts : AddOptions} {data prepared : NewUser} {faults : Faults}
  {directory after : LdapDirectory} {error thrown : AddError} {uid : String}

/-! ## A call ends -/

/-- The operations that a call has left at most. -/
def Adding.left : Adding → Nat
  | .checkMail _ _ => 7
  | .checkMobile _ _ => 6
  | .searchGroups _ _ => 5
  | .addGroup _ _ => 4
  | .searchPeople _ _ => 3
  | .addAccount _ _ _ => 2
  | .rollback _ _ => 1
  | .added _ => 0
  | .failed _ => 0

theorem left_addLdapUser : (addLdapUser conf opts data).left ≤ 5 := by
  unfold addLdapUser
  split <;> simp [Adding.left]

theorem left_turn {fault : Option AddError} (adding : Adding) :
    (adding.turn conf fault directory).2.left ≤ adding.left - 1 := by
  cases adding with
  | checkMail data opts =>
      have five := @left_addLdapUser conf opts data
      dsimp only [Adding.turn]
      split
      · exact Nat.zero_le _
      · split
        · exact Nat.le_refl _
        · exact Nat.le_succ_of_le five
  | checkMobile data opts =>
      have five := @left_addLdapUser conf opts data
      dsimp only [Adding.turn]
      split
      · exact Nat.zero_le _
      · exact five
  | searchGroups data opts =>
      dsimp only [Adding.turn, chooseGid]
      repeat' split
      all_goals simp [Adding.left]
  | addGroup data opts =>
      dsimp only [Adding.turn]
      repeat' split
      all_goals simp [Adding.left]
  | searchPeople data opts =>
      dsimp only [Adding.turn, chooseUid]
      repeat' split
      all_goals simp [Adding.left]
  | addAccount numbers data opts =>
      dsimp only [Adding.turn]
      repeat' split
      all_goals simp [Adding.left]
  | rollback name error => cases fault <;> exact Nat.le_refl _
  | added data => exact Nat.le_refl _
  | failed error => exact Nat.le_refl _

theorem left_turns (more : Nat) (adding : Adding) :
    (Adding.turns conf faults more directory adding).2.left ≤ adding.left - more := by
  induction more generalizing directory adding with
  | zero => exact Nat.le_refl _
  | succ more ih =>
      have next := @ih (adding.turn conf (faults.on adding) directory).1
        (adding.turn conf (faults.on adding) directory).2
      have one := @left_turn conf directory (faults.on adding) adding
      dsimp only [Adding.turns]
      omega

/-- A whole call has added its account or failed. -/
theorem left_addLdapUserAlone : (addLdapUserAlone conf opts data faults directory).2.left = 0 := by
  have none := @left_turns conf faults directory 5 (addLdapUser conf opts data)
  have five := @left_addLdapUser conf opts data
  unfold addLdapUserAlone
  omega

/-! ## What a failed call leaves -/

/-- What the rollback leaves. -/
def LdapDirectory.without (conf : LdapConf) (directory : LdapDirectory) (uid : String) :
    LdapDirectory :=
  { directory with groups := directory.groups.filter fun group => group.dn ≠ rollbackDn conf uid }

/-- Where a call is that has done with groups and found `base`. -/
def Adding.Behind (conf : LdapConf) (base : LdapDirectory) (uid : String)
    (directory : LdapDirectory) : Adding → Prop
  | .searchPeople data _ => directory = base ∧ data.uidText = uid
  | .addAccount _ data _ => directory = base ∧ data.uidText = uid
  | .rollback name _ => directory = base ∧ name = uid
  | .failed _ => directory = base.without conf uid
  | .added _ => True
  | _ => False

theorem behind_chooseUid {numbers : List Int} (sameUid : data.uidText = uid) :
    (chooseUid conf numbers data opts).Behind conf directory uid directory := by
  unfold chooseUid
  split
  · split <;> exact ⟨rfl, sameUid⟩
  · exact ⟨rfl, sameUid⟩

theorem behind_turn {base : LdapDirectory} {adding : Adding}
    (behind : adding.Behind conf base uid directory) :
    (adding.turn conf (faults.on adding) directory).2.Behind conf base uid
      (adding.turn conf (faults.on adding) directory).1 := by
  cases adding with
  | checkMail data opts => exact behind.elim
  | checkMobile data opts => exact behind.elim
  | searchGroups data opts => exact behind.elim
  | addGroup data opts => exact behind.elim
  | searchPeople data opts =>
      obtain ⟨rfl, sameUid⟩ := behind
      dsimp only [Adding.turn]
      split
      · exact ⟨rfl, sameUid⟩
      · exact behind_chooseUid sameUid
  | addAccount numbers data opts =>
      obtain ⟨rfl, sameUid⟩ := behind
      dsimp only [Adding.turn]
      split
      · exact ⟨rfl, sameUid⟩
      · split
        · exact ⟨rfl, sameUid⟩
        · trivial
  | rollback name error =>
      obtain ⟨rfl, rfl⟩ := behind
      exact rfl
  | failed error => exact behind
  | added data => trivial

theorem behind_turns {base : LdapDirectory} {adding : Adding} (more : Nat)
    (behind : adding.Behind conf base uid directory) :
    (Adding.turns conf faults more directory adding).2.Behind conf base uid
      (Adding.turns conf faults more directory adding).1 := by
  induction more generalizing directory adding with
  | zero => exact behind
  | succ more ih => exact ih (behind_turn behind)

/-- A call that has done with groups and fails leaves what it found, less what the rollback
deletes. -/
theorem eq_without_of_failed {base : LdapDirectory} {adding : Adding} {more : Nat}
    (behind : adding.Behind conf base uid directory)
    (fails : Adding.turns conf faults more directory adding = (after, .failed error)) :
    after = base.without conf uid := by
  have ends := @behind_turns conf faults directory uid base adding more behind
  rwa [fails] at ends

theorem finalUid_of_ok (isPrepared : prepare conf opts data = .ok prepared) :
    finalUid conf opts data = prepared.uidText := by
  unfold finalUid
  rw [isPrepared]

theorem gidNumber_prepare (isPrepared : prepare conf opts data = .ok prepared) :
    prepared.gidNumber = data.gidNumber := by
  unfold prepare at isPrepared
  dsimp only at isPrepared
  split at isPrepared
  · cases isPrepared
  · cases isPrepared
    rfl

theorem sharesGid_iff (opts : AddOptions) (data : NewUser) (directory : LdapDirectory) :
    SharesGid opts data directory ↔ opts.preserveIds = true ∧ ∃ gidNumber,
      data.gidNumber = some gidNumber ∧
        gidNumber ∈ (directory.groups.filter fun group =>
          group.objectclass.contains "posixGroup").filterMap (·.gidNumber) := by
  simp [SharesGid, and_assoc]

theorem chooseGid_eq :
    (SharesGid opts data directory ∧
        chooseGid conf directory.groups data opts = .searchPeople data opts) ∨
      (¬ SharesGid opts data directory ∧ ∃ gidNumber,
        chooseGid conf directory.groups data opts =
          .addGroup { data with gidNumber := gidNumber } opts) := by
  rw [sharesGid_iff]
  unfold chooseGid
  dsimp only
  split
  · rename_i gidNumber preserve isNumber
    split
    · rename_i taken
      exact Or.inl ⟨⟨preserve, gidNumber, isNumber, List.contains_iff_mem.mp taken⟩, rfl⟩
    · rename_i free
      refine Or.inr ⟨?_, data.gidNumber, rfl⟩
      intro shares
      obtain ⟨-, number, isOther, taken⟩ := shares
      rw [isNumber] at isOther
      cases isOther
      exact free (List.contains_iff_mem.mpr taken)
  · rename_i other
    refine Or.inr ⟨?_, _, rfl⟩
    intro shares
    obtain ⟨preserve, number, isNumber, -⟩ := shares
    exact other number preserve isNumber

/-- The directory with one more group. -/
def LdapDirectory.withGroup (directory : LdapDirectory) (group : GroupEntry) : LdapDirectory :=
  { directory with groups := directory.groups ++ [group] }

theorem turns_of_turn {adding next : Adding} {later : LdapDirectory} {fault : Option AddError}
    (isFault : faults.on adding = fault)
    (turned : adding.turn conf fault directory = (later, next)) (more : Nat) :
    Adding.turns conf faults (more + 1) directory adding = Adding.turns conf faults more later next := by
  simp only [Adding.turns, isFault, turned]

/-- What a call leaves that fails with a group to add. -/
theorem after_addGroup_eq {more : Nat} (sameUid : data.uidText = uid)
    (fails : Adding.turns conf faults (more + 1) directory (.addGroup data opts) =
      (after, .failed error)) :
    (¬ ((∀ group ∈ directory.groups, group.dn ≠ groupDn conf uid) ∧ faults.addGroup = none) ∧
        after = directory.without conf uid) ∨
      (((∀ group ∈ directory.groups, group.dn ≠ groupDn conf uid) ∧ faults.addGroup = none) ∧
        after = (directory.withGroup (personalGroup conf data)).without conf uid) := by
  subst sameUid
  cases isFault : faults.addGroup with
  | some thrown =>
      have rolled := @turns_of_turn conf faults directory (.addGroup data opts) _ _ _ isFault rfl more
      rw [rolled] at fails
      exact Or.inl ⟨fun adds => (nomatch adds.2),
        eq_without_of_failed (show Adding.Behind _ _ _ _ (.rollback _ _) from ⟨rfl, rfl⟩) fails⟩
  | none =>
      by_cases stands : ∃ group ∈ directory.groups, group.dn = groupDn conf data.uidText
      · have rolled : Adding.turn conf none directory (.addGroup data opts) =
            (directory, .rollback data.uidText alreadyExists) := by
          dsimp only [Adding.turn]
          rw [if_pos (by simpa using stands)]
        rw [@turns_of_turn conf faults directory (.addGroup data opts) _ _ _ isFault rolled more] at fails
        refine Or.inl ⟨fun adds => ?_,
          eq_without_of_failed (show Adding.Behind _ _ _ _ (.rollback _ _) from ⟨rfl, rfl⟩) fails⟩
        obtain ⟨group, listed, sameDn⟩ := stands
        exact adds.1 group listed sameDn
      · have stored : Adding.turn conf none directory (.addGroup data opts) =
            (directory.withGroup (personalGroup conf data), .searchPeople data opts) := by
          dsimp only [Adding.turn]
          rw [if_neg (by simpa using stands)]
          rfl
        rw [@turns_of_turn conf faults directory (.addGroup data opts) _ _ _ isFault stored more] at fails
        refine Or.inr ⟨⟨fun group listed sameDn => stands ⟨group, listed, sameDn⟩, rfl⟩, ?_⟩
        exact eq_without_of_failed (show Adding.Behind _ _ _ _ (.searchPeople _ _) from ⟨rfl, rfl⟩) fails

/-- What a call that fails leaves. -/
theorem after_eq
    (fails : addLdapUserAlone conf opts data faults directory = (after, .failed error)) :
    (¬ AddsGroup conf opts data faults directory ∧
        after = directory.without conf (finalUid conf opts data)) ∨
      (AddsGroup conf opts data faults directory ∧ ∃ group,
        group.dn = groupDn conf (finalUid conf opts data) ∧
          after = (directory.withGroup group).without conf (finalUid conf opts data)) := by
  unfold addLdapUserAlone addLdapUser at fails
  cases isPrepared : prepare conf opts data with
  | error thrown =>
      rw [isPrepared] at fails
      have sameUid : data.uidText = finalUid conf opts data := by
        unfold finalUid
        rw [isPrepared]
      refine Or.inl ⟨fun adds => ?_, eq_without_of_failed
        (show Adding.Behind _ _ _ _ (.rollback _ _) from ⟨rfl, sameUid⟩) fails⟩
      obtain ⟨prepared, named⟩ := adds.named
      rw [isPrepared] at named
      cases named
  | ok prepared =>
      rw [isPrepared] at fails
      have sameUid := (finalUid_of_ok isPrepared).symm
      have sameGid : SharesGid opts prepared directory ↔ SharesGid opts data directory := by
        unfold SharesGid
        rw [gidNumber_prepare isPrepared]
      cases isFault : faults.searchGroups with
      | some thrown =>
          have rolled := @turns_of_turn conf faults directory (.searchGroups prepared opts) _ _ _
            isFault rfl 4
          rw [rolled] at fails
          refine Or.inl ⟨fun adds => ?_, eq_without_of_failed
            (show Adding.Behind _ _ _ _ (.rollback _ _) from ⟨rfl, sameUid⟩) fails⟩
          cases isFault.symm.trans adds.searched
      | none =>
          have searched := @turns_of_turn conf faults directory (.searchGroups prepared opts) _ _ _
            isFault rfl 4
          rw [searched] at fails
          rcases @chooseGid_eq conf opts prepared directory with
            ⟨shares, chosen⟩ | ⟨unshared, gidNumber, chosen⟩
          · rw [chosen] at fails
            exact Or.inl ⟨fun adds => adds.unshared (sameGid.mp shares), eq_without_of_failed
              (show Adding.Behind _ _ _ _ (.searchPeople _ _) from ⟨rfl, sameUid⟩) fails⟩
          · rw [chosen] at fails
            rcases @after_addGroup_eq conf opts { prepared with gidNumber := gidNumber } faults directory
              after error _ 3 sameUid fails with ⟨none, left⟩ | ⟨adds, left⟩
            · exact Or.inl ⟨fun adds => none ⟨adds.absent, adds.stored⟩, left⟩
            · refine Or.inr ⟨?_, _, ?_, left⟩
              · exact ⟨⟨prepared, isPrepared⟩, isFault, fun shares => unshared (sameGid.mpr shares),
                  adds.1, adds.2⟩
              · exact congrArg (groupDn conf) sameUid

theorem restored_without_iff :
    Restored directory (directory.without conf uid) ↔
      ∀ group ∈ directory.groups, group.dn ≠ rollbackDn conf uid := by
  constructor
  · intro restored group listed
    exact of_decide_eq_true (List.mem_filter.mp ((restored.groups group).mpr listed)).2
  · intro absent
    have same : directory.without conf uid = directory := by
      unfold LdapDirectory.without
      rw [List.filter_eq_self.mpr fun group listed => decide_eq_true (absent group listed)]
    rw [same]
    exact ⟨fun _ => Iff.rfl, fun _ => Iff.rfl⟩

theorem restored_withGroup_without_iff {group : GroupEntry} (isNew : group ∉ directory.groups) :
    Restored directory ((directory.withGroup group).without conf uid) ↔
      (∀ other ∈ directory.groups, other.dn ≠ rollbackDn conf uid) ∧
        group.dn = rollbackDn conf uid := by
  have mem_iff (other : GroupEntry) :
      other ∈ ((directory.withGroup group).without conf uid).groups ↔
        (other ∈ directory.groups ∨ other = group) ∧ other.dn ≠ rollbackDn conf uid := by
    simp [LdapDirectory.without, LdapDirectory.withGroup, or_and_right]
  constructor
  · intro restored
    constructor
    · intro other listed
      exact ((mem_iff other).mp ((restored.groups other).mpr listed)).2
    · by_contra stays
      exact isNew ((restored.groups group).mp ((mem_iff group).mpr ⟨Or.inr rfl, stays⟩))
  · rintro ⟨absent, deleted⟩
    refine ⟨fun other => ?_, fun _ => Iff.rfl⟩
    rw [mem_iff]
    constructor
    · rintro ⟨listed | rfl, stays⟩
      · exact listed
      · exact absurd deleted stays
    · intro listed
      exact ⟨Or.inl listed, absent other listed⟩

theorem restored_iff (conf : LdapConf) (opts : AddOptions) (data : NewUser) (faults : Faults)
    (directory after : LdapDirectory) (error : AddError)
    (fails : addLdapUserAlone conf opts data faults directory = (after, .failed error)) :
    Restored directory after ↔ RollsBack conf opts data faults directory := by
  rcases after_eq fails with ⟨none, rfl⟩ | ⟨adds, group, isDn, rfl⟩
  · rw [restored_without_iff]
    exact ⟨fun absent => ⟨absent, fun adds => absurd adds none⟩, RollsBack.absent⟩
  · have isNew : group ∉ directory.groups := fun listed => adds.absent group listed isDn
    rw [restored_withGroup_without_iff isNew, isDn]
    exact ⟨fun ⟨absent, own⟩ => ⟨absent, fun _ => own⟩, fun rolls => ⟨rolls.absent, rolls.own adds⟩⟩

/-- A call that only fails at the last step takes its own group away again. -/
theorem restored_account_fault :
    Restored ⟨[], []⟩
      (addLdapUserAlone plainConf {} { uid := some "ann" } { addAccount := some alreadyExists }
        ⟨[], []⟩).1 :=
  (restored_iff plainConf {} { uid := some "ann" } { addAccount := some alreadyExists } ⟨[], []⟩ _
    alreadyExists rfl).mpr ⟨fun _ listed => (nomatch listed), fun _ => rfl⟩

/-- A permission group of the same name. -/
def annGroup : GroupEntry where
  dn := "cn=ann,ou=groups"
  cn := "ann"
  objectclass := ["groupOfNames"]
  gidNumber := none
  member := ["cn=ben,ou=people"]
  memberUid := []

/-- A group of the same name makes the call fail and is gone behind it. -/
theorem not_restored :
    (addLdapUserAlone plainConf {} { uid := some "ann" } {} ⟨[annGroup], []⟩).2 =
        .failed alreadyExists ∧
      ¬ Restored ⟨[annGroup], []⟩
        (addLdapUserAlone plainConf {} { uid := some "ann" } {} ⟨[annGroup], []⟩).1 := by
  have left : addLdapUserAlone plainConf {} { uid := some "ann" } {} ⟨[annGroup], []⟩ =
      (⟨[], []⟩, .failed alreadyExists) := by rfl
  rw [left]
  exact ⟨rfl, fun restored => nomatch (restored.groups annGroup).mpr List.mem_cons_self⟩

end ThetaDirectory.Accounts
