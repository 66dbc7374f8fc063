import ThetaDirectory.Accounts.Rollback

/-!
# What an added account leaves

When a call of `User.add` that runs on its own adds its account, and which group and account the
directory has behind it.
-/

namespace ThetaDirectory.Accounts

def LdapDirectory.gidNumbers (directory : LdapDirectory) : List Int :=
  (directory.groups.filter fun group => group.objectclass.contains "posixGroup").filterMap
    (·.gidNumber)

/-- The number asked for is to be kept and is there already. -/
def isTaken (opts : AddOptions) (numbers : List Int) (asked : Option Int) : Bool :=
  opts.preserveIds && asked.any numbers.contains

/-- The number that a call comes to. -/
def numberFor (conf : LdapConf) (opts : AddOptions) (numbers : List Int) (asked : Option Int) : Int :=
  match opts.preserveIds, asked with
  | true, some number => number
  | _, _ => nextPosixId conf numbers

variable (conf : LdapConf) (opts : AddOptions) (faults : Faults) (directory : LdapDirectory)
  (uid : String) (data : NewUser)

def withGid : NewUser :=
  { data with gidNumber := some (numberFor conf opts directory.gidNumbers data.gidNumber) }

def withUid : NewUser :=
  { data with uidNumber := some (numberFor conf opts directory.uidNumbers data.uidNumber) }

/-- The directory with the group of a call, if that brings one. -/
def LdapDirectory.grouped : LdapDirectory :=
  if isTaken opts directory.gidNumbers data.gidNumber then directory
  else directory.withGroup (personalGroup conf (withGid conf opts directory data))

def LdapDirectory.withAccount (account : AccountEntry) : LdapDirectory :=
  { directory with people := directory.people ++ [account] }

/-- The account may be stored. -/
structure StoresAccount : Prop where
  absent : ∀ person ∈ directory.people, person.dn ≠ accountDn conf uid
  stored : faults.addAccount = none

structure FindsNumber (asked : Option Int) : Prop where
  searched : faults.searchPeople = none
  free : isTaken opts directory.uidNumbers asked = false
  account : StoresAccount conf faults directory uid

/-- The group is there or may be stored. -/
structure FindsGroup (asked : Option Int) : Prop where
  searched : faults.searchGroups = none
  group : isTaken opts directory.gidNumbers asked = false →
    (∀ group ∈ directory.groups, group.dn ≠ groupDn conf uid) ∧ faults.addGroup = none

/-- Neither mail nor phone number belongs to an account. -/
structure Unclaimed : Prop where
  mail : (truthy data.mail).isSome → directory.has conf (·.mail) data.mail = false
  mobile : (truthy data.mobile).isSome → directory.has conf (·.mobile) data.mobile = false

/-- A prepared call adds its account, and what it leaves. -/
structure AddsAccount (before after : LdapDirectory) (stored : NewUser) : Prop where
  group : FindsGroup conf opts faults before data.uidText data.gidNumber
  number : FindsNumber conf opts faults before data.uidText data.uidNumber
  assigned : stored = withUid conf opts before (withGid conf opts before data)
  left : after = (before.grouped conf opts data).withAccount (posixAccount conf stored)

variable {conf opts faults directory uid data} {after : LdapDirectory} {stored : NewUser}
  {error : AddError} {more : Nat}

theorem turns_added :
    Adding.turns conf faults more directory (.added data) = (directory, .added data) := by
  induction more with
  | zero => rfl
  | succ more ih => exact ih

theorem turns_failed :
    Adding.turns conf faults more directory (.failed error) = (directory, .failed error) := by
  induction more with
  | zero => rfl
  | succ more ih => exact ih

theorem turns_rollback_ne :
    Adding.turns conf faults more directory (.rollback uid error) ≠ (after, .added stored) := by
  intro added
  cases more with
  | zero => cases added
  | succ more => cases (@turns_failed conf faults _ error more).symm.trans added

theorem turns_addAccount_iff {numbers : List Int} :
    Adding.turns conf faults (more + 1) directory (.addAccount numbers data opts) =
        (after, .added stored) ↔
      StoresAccount conf faults directory data.uidText ∧ stored = data ∧
        after = directory.withAccount (posixAccount conf data) := by
  cases thrown : faults.addAccount with
  | some error =>
      rw [@turns_of_turn conf faults directory (.addAccount numbers data opts) _ _ _ thrown rfl more]
      apply iff_of_false turns_rollback_ne
      intro stores
      cases thrown.symm.trans stores.1.stored
  | none =>
      by_cases stands : directory.people.any fun person => person.dn == accountDn conf data.uidText
      · have turned : Adding.turn conf none directory (.addAccount numbers data opts) =
            (directory, .rollback data.uidText alreadyExists) := if_pos stands
        rw [@turns_of_turn conf faults directory (.addAccount numbers data opts) _ _ _ thrown turned
          more]
        apply iff_of_false turns_rollback_ne
        intro stores
        obtain ⟨person, listed, same⟩ := List.any_eq_true.mp stands
        exact stores.1.absent person listed (eq_of_beq same)
      · have turned : Adding.turn conf none directory (.addAccount numbers data opts) =
            (directory.withAccount (posixAccount conf data), .added data) := if_neg stands
        rw [@turns_of_turn conf faults directory (.addAccount numbers data opts) _ _ _ thrown turned
          more, turns_added]
        have absent : ∀ person ∈ directory.people, person.dn ≠ accountDn conf data.uidText := by
          simpa using stands
        constructor
        · intro same
          cases same
          exact ⟨⟨absent, thrown⟩, rfl, rfl⟩
        · intro stores
          rw [stores.2.1, stores.2.2]

theorem chooseUid_eq :
    chooseUid conf directory.uidNumbers data opts =
      if isTaken opts directory.uidNumbers data.uidNumber then
        .rollback data.uidText ⟨"UidNumberInUse",
          "uidNumber " ++ toString (numberFor conf opts directory.uidNumbers data.uidNumber) ++
            " is already in use", some 409⟩
      else .addAccount directory.uidNumbers (withUid conf opts directory data) opts := by
  unfold chooseUid isTaken withUid numberFor
  cases preserve : opts.preserveIds with
  | false => simp
  | true =>
      cases asked : data.uidNumber with
      | none => simp
      | some number =>
          have same : { data with uidNumber := some number } = data := by rw [← asked]
          simp only [Option.any_some, Bool.true_and, same]

theorem turns_searchPeople_iff :
    Adding.turns conf faults (more + 2) directory (.searchPeople data opts) =
        (after, .added stored) ↔
      FindsNumber conf opts faults directory data.uidText data.uidNumber ∧
        stored = withUid conf opts directory data ∧
          after = directory.withAccount (posixAccount conf stored) := by
  cases thrown : faults.searchPeople with
  | some error =>
      rw [@turns_of_turn conf faults directory (.searchPeople data opts) _ _ _ thrown rfl (more + 1)]
      apply iff_of_false turns_rollback_ne
      intro finds
      cases thrown.symm.trans finds.1.searched
  | none =>
      rw [@turns_of_turn conf faults directory (.searchPeople data opts) _ _ _ thrown rfl (more + 1),
        chooseUid_eq]
      cases taken : isTaken opts directory.uidNumbers data.uidNumber with
      | true =>
          rw [if_pos rfl]
          apply iff_of_false turns_rollback_ne
          intro finds
          cases taken.symm.trans finds.1.free
      | false =>
          rw [if_neg Bool.false_ne_true]
          apply turns_addAccount_iff.trans
          constructor
          · intro stores
            refine ⟨⟨thrown, taken, stores.1⟩, stores.2.1, ?_⟩
            rw [stores.2.1]
            exact stores.2.2
          · intro finds
            refine ⟨finds.1.account, finds.2.1, ?_⟩
            rw [← finds.2.1]
            exact finds.2.2

theorem chooseGid_taken :
    chooseGid conf directory.groups data opts =
      if isTaken opts directory.gidNumbers data.gidNumber then
        .searchPeople (withGid conf opts directory data) opts
      else .addGroup (withGid conf opts directory data) opts := by
  unfold chooseGid isTaken withGid numberFor LdapDirectory.gidNumbers
  cases preserve : opts.preserveIds with
  | false => simp
  | true =>
      cases asked : data.gidNumber with
      | none => simp
      | some number =>
          have same : { data with gidNumber := some number } = data := by rw [← asked]
          simp only [Option.any_some, Bool.true_and, same]

theorem turns_addGroup_iff :
    Adding.turns conf faults (more + 3) directory (.addGroup data opts) = (after, .added stored) ↔
      ((∀ group ∈ directory.groups, group.dn ≠ groupDn conf data.uidText) ∧ faults.addGroup = none) ∧
        Adding.turns conf faults (more + 2) (directory.withGroup (personalGroup conf data))
          (.searchPeople data opts) = (after, .added stored) := by
  cases thrown : faults.addGroup with
  | some error =>
      rw [@turns_of_turn conf faults directory (.addGroup data opts) _ _ _ thrown rfl (more + 2)]
      apply iff_of_false turns_rollback_ne
      intro stores
      cases stores.1.2
  | none =>
      by_cases stands : directory.groups.any fun group => group.dn == groupDn conf data.uidText
      · have turned : Adding.turn conf none directory (.addGroup data opts) =
            (directory, .rollback data.uidText alreadyExists) := if_pos stands
        rw [@turns_of_turn conf faults directory (.addGroup data opts) _ _ _ thrown turned (more + 2)]
        apply iff_of_false turns_rollback_ne
        intro stores
        obtain ⟨group, listed, same⟩ := List.any_eq_true.mp stands
        exact stores.1.1 group listed (eq_of_beq same)
      · have turned : Adding.turn conf none directory (.addGroup data opts) =
            (directory.withGroup (personalGroup conf data), .searchPeople data opts) := if_neg stands
        rw [@turns_of_turn conf faults directory (.addGroup data opts) _ _ _ thrown turned (more + 2)]
        have absent : ∀ group ∈ directory.groups, group.dn ≠ groupDn conf data.uidText := by
          simpa using stands
        exact ⟨fun added => ⟨⟨absent, rfl⟩, added⟩, And.right⟩

theorem turns_searchGroups_iff :
    Adding.turns conf faults (more + 4) directory (.searchGroups data opts) = (after, .added stored) ↔
      AddsAccount conf opts faults data directory after stored := by
  cases thrown : faults.searchGroups with
  | some error =>
      rw [@turns_of_turn conf faults directory (.searchGroups data opts) _ _ _ thrown rfl (more + 3)]
      apply iff_of_false turns_rollback_ne
      intro stores
      cases thrown.symm.trans stores.group.searched
  | none =>
      rw [@turns_of_turn conf faults directory (.searchGroups data opts) _ _ _ thrown rfl (more + 3),
        chooseGid_taken]
      cases taken : isTaken opts directory.gidNumbers data.gidNumber with
      | true =>
          have grouped : directory.grouped conf opts data = directory := if_pos taken
          rw [if_pos rfl]
          apply (@turns_searchPeople_iff conf opts faults directory _ after stored (more + 1)).trans
          constructor
          · intro finds
            refine ⟨⟨thrown, fun free => ?_⟩, finds.1, finds.2.1, ?_⟩
            · cases taken.symm.trans free
            · rw [grouped]
              exact finds.2.2
          · intro stores
            refine ⟨stores.number, stores.assigned, ?_⟩
            rw [← grouped]
            exact stores.left
      | false =>
          have grouped : directory.grouped conf opts data =
              directory.withGroup (personalGroup conf (withGid conf opts directory data)) :=
            if_neg (ne_true_of_eq_false taken)
          rw [if_neg Bool.false_ne_true, turns_addGroup_iff, turns_searchPeople_iff]
          constructor
          · intro finds
            obtain ⟨absent, number, isStored, left⟩ := finds
            refine ⟨⟨thrown, fun _ => absent⟩, ?_, isStored, ?_⟩
            · exact ⟨number.searched, number.free, number.account.absent, number.account.stored⟩
            · rw [grouped]
              exact left
          · intro stores
            have left := stores.left
            rw [grouped] at left
            refine ⟨stores.group.group taken, ?_, stores.assigned, left⟩
            exact ⟨stores.number.searched, stores.number.free, stores.number.account.absent,
              stores.number.account.stored⟩

theorem turns_addLdapUser_iff :
    Adding.turns conf faults (more + 4) directory (addLdapUser conf opts data) =
        (after, .added stored) ↔
      ∃ prepared, prepare conf opts data = .ok prepared ∧
        AddsAccount conf opts faults prepared directory after stored := by
  unfold addLdapUser
  cases isPrepared : prepare conf opts data with
  | error error =>
      apply iff_of_false turns_rollback_ne
      intro stores
      obtain ⟨prepared, same, -⟩ := stores
      cases same
  | ok prepared =>
      apply turns_searchGroups_iff.trans
      constructor
      · intro stores
        exact ⟨prepared, rfl, stores⟩
      · intro stores
        obtain ⟨other, same, stores⟩ := stores
        cases same
        exact stores

theorem turn_checkMobile_taken (taken : directory.has conf (·.mobile) data.mobile = true) :
    Adding.turn conf none directory (.checkMobile data opts) =
      (directory, .failed ⟨"PhoneInUse", "Phone number already in use", some 409⟩) :=
  if_pos ⟨rfl, taken⟩

theorem turn_checkMobile_free {fault : Option AddError}
    (free : directory.has conf (·.mobile) data.mobile = false) :
    Adding.turn conf fault directory (.checkMobile data opts) =
      (directory, addLdapUser conf opts data) :=
  if_neg fun both => Bool.false_ne_true (free.symm.trans both.2)

theorem turns_checkMobile_iff :
    Adding.turns conf faults (more + 5) directory (.checkMobile data opts) = (after, .added stored) ↔
      directory.has conf (·.mobile) data.mobile = false ∧
        Adding.turns conf faults (more + 4) directory (addLdapUser conf opts data) =
          (after, .added stored) := by
  cases taken : directory.has conf (·.mobile) data.mobile with
  | true =>
      rw [@turns_of_turn conf faults directory (.checkMobile data opts) _ _ _ rfl
        (turn_checkMobile_taken taken) (more + 4), turns_failed]
      simp
  | false =>
      rw [@turns_of_turn conf faults directory (.checkMobile data opts) _ _ _ rfl
        (turn_checkMobile_free taken) (more + 4)]
      exact ⟨fun added => ⟨rfl, added⟩, And.right⟩

/-- What a call does behind the check of its mail. -/
def afterMail (conf : LdapConf) (opts : AddOptions) (data : NewUser) : Adding :=
  match truthy data.mobile with
  | some _ => .checkMobile data opts
  | none => addLdapUser conf opts data

theorem turns_afterMail_iff :
    Adding.turns conf faults (more + 5) directory (afterMail conf opts data) = (after, .added stored) ↔
      ((truthy data.mobile).isSome → directory.has conf (·.mobile) data.mobile = false) ∧
        ∃ prepared, prepare conf opts data = .ok prepared ∧
          AddsAccount conf opts faults prepared directory after stored := by
  unfold afterMail
  cases truthy data.mobile with
  | some mobile =>
      apply turns_checkMobile_iff.trans
      simp only [turns_addLdapUser_iff, Option.isSome_some, forall_const]
  | none =>
      apply (@turns_addLdapUser_iff conf opts faults directory data after stored (more + 1)).trans
      exact ⟨fun stores => ⟨fun some => (nomatch some), stores⟩, And.right⟩

theorem turn_checkMail_taken (taken : directory.has conf (·.mail) data.mail = true) :
    Adding.turn conf none directory (.checkMail data opts) =
      (directory, .failed ⟨"EmailInUse", "Email already in use", some 409⟩) :=
  if_pos ⟨rfl, taken⟩

theorem turn_checkMail_free {fault : Option AddError}
    (free : directory.has conf (·.mail) data.mail = false) :
    Adding.turn conf fault directory (.checkMail data opts) =
      (directory, afterMail conf opts data) := by
  dsimp only [Adding.turn, afterMail]
  rw [if_neg fun both => Bool.false_ne_true (free.symm.trans both.2)]
  cases truthy data.mobile <;> rfl

theorem turns_checkMail_iff :
    Adding.turns conf faults (more + 6) directory (.checkMail data opts) = (after, .added stored) ↔
      directory.has conf (·.mail) data.mail = false ∧
        Adding.turns conf faults (more + 5) directory (afterMail conf opts data) =
          (after, .added stored) := by
  cases taken : directory.has conf (·.mail) data.mail with
  | true =>
      rw [@turns_of_turn conf faults directory (.checkMail data opts) _ _ _ rfl
        (turn_checkMail_taken taken) (more + 5), turns_failed]
      simp
  | false =>
      rw [@turns_of_turn conf faults directory (.checkMail data opts) _ _ _ rfl
        (turn_checkMail_free taken) (more + 5)]
      exact ⟨fun added => ⟨rfl, added⟩, And.right⟩

theorem userAdd_checkMail {call : AddCall} {text : String} (given : truthy call.data.mail = some text) :
    userAdd conf call = .checkMail call.data call.opts := by
  unfold userAdd
  rw [given]

theorem userAdd_afterMail {call : AddCall} (absent : truthy call.data.mail = none) :
    userAdd conf call = afterMail conf call.opts call.data := by
  unfold userAdd afterMail
  rw [absent]
  cases truthy call.data.mobile <;> rfl

/-- When a call adds its account, and what it leaves. -/
theorem turns_userAdd_iff {call : AddCall} :
    Adding.turns conf faults 7 directory (userAdd conf call) = (after, .added stored) ↔
      Unclaimed conf directory call.data ∧ ∃ prepared, prepare conf call.opts call.data = .ok prepared ∧
        AddsAccount conf call.opts faults prepared directory after stored := by
  have isUnclaimed : Unclaimed conf directory call.data ↔
      ((truthy call.data.mail).isSome → directory.has conf (·.mail) call.data.mail = false) ∧
        ((truthy call.data.mobile).isSome → directory.has conf (·.mobile) call.data.mobile = false) :=
    ⟨fun unclaimed => ⟨unclaimed.mail, unclaimed.mobile⟩, fun both => ⟨both.1, both.2⟩⟩
  rw [isUnclaimed]
  cases given : truthy call.data.mail with
  | some mail =>
      rw [userAdd_checkMail given]
      apply (@turns_checkMail_iff conf call.opts faults directory call.data after stored 1).trans
      simp only [turns_afterMail_iff, Option.isSome_some, forall_const, and_assoc]
  | none =>
      rw [userAdd_afterMail given]
      apply (@turns_afterMail_iff conf call.opts faults directory call.data after stored 2).trans
      constructor
      · intro stores
        exact ⟨⟨fun some => (nomatch some), stores.1⟩, stores.2⟩
      · intro stores
        exact ⟨stores.1.2, stores.2⟩

end ThetaDirectory.Accounts
