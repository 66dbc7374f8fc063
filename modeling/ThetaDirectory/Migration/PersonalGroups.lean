import ThetaDirectory.Migration.Clashes
import ThetaDirectory.Migration.Rows

/-!
# Members of personal groups

A group is personal by its number, but its members are written to the group of the directory that
bears its name.
-/

namespace ThetaDirectory.Migration

open Accounts Library Library.Effect

variable {conf : LdapConf} {before middle after : LdapDirectory} {stores : Stores}
  {writes other : String → String → Prop}

/-- What texts written to posixGroups at DNs leave. -/
structure Widened (writes : String → String → Prop) (before after : LdapDirectory) : Prop where
  distinct : Distinct after
  people : after.people = before.people
  stands : ∀ dn number, Stands after dn number ↔ Stands before dn number
  lists : ∀ number username, Lists after number username ↔
    Lists before number username ∨ ∃ dn, writes dn username ∧ Stands before dn number

theorem Widened.refl (distinct : Distinct before) : Widened (fun _ _ => False) before before where
  distinct := distinct
  people := rfl
  stands _ _ := Iff.rfl
  lists number username := by simp

theorem Widened.trans (first : Widened writes before middle) (second : Widened other middle after) :
    Widened (fun dn username => writes dn username ∨ other dn username) before after where
  distinct := second.distinct
  people := second.people.trans first.people
  stands dn number := (second.stands dn number).trans (first.stands dn number)
  lists number username := by
    simp only [second.lists, first.lists, first.stands, or_and_right, exists_or, or_assoc]

theorem Widened.congr (widened : Widened writes before after)
    (same : ∀ dn username, writes dn username ↔ other dn username) : Widened other before after where
  distinct := widened.distinct
  people := widened.people
  stands := widened.stands
  lists number username := by
    rw [widened.lists]
    simp only [same]

/-! ## One member -/

theorem changed_of_withMemberUid {uid : String} {group changed : GroupEntry}
    (isChanged : withMemberUid uid group = .ok changed) :
    "posixGroup" ∈ group.objectclass ∧ changed = { group with memberUid := group.memberUid ++ [uid] } := by
  unfold withMemberUid at isChanged
  split at isChanged
  · cases isChanged
  · rename_i posix
    split at isChanged
    · cases isChanged
    · cases isChanged
      exact ⟨not_not.mp posix, rfl⟩

theorem widened_of_ok {dn uid : String} (distinct : Distinct before)
    (isModified : before.modifyGroup dn (withMemberUid uid) = .ok after) :
    Widened (fun place username => place = dn ∧ username = uid) before after := by
  obtain ⟨group, changed, modified⟩ := modified_of_ok distinct isModified
  obtain ⟨posix, isChanged⟩ := changed_of_withMemberUid modified.isChanged
  have stands (number : Int) : Stands before dn number ↔ group.gidNumber = some number := by
    constructor
    · intro stands
      obtain ⟨other, listed, isDn, -, isNumber⟩ := stands
      have same := List.inj_on_of_nodup_map distinct listed modified.member
        (isDn.trans modified.named.symm)
      exact same ▸ isNumber
    · exact fun isNumber => ⟨group, modified.member, modified.named, posix, isNumber⟩
  constructor
  · unfold Distinct
    rw [modified.groups, List.map_map]
    have same : ((·.dn) ∘ fun other => if other = group then changed else other) =
        fun other : GroupEntry => other.dn := by
      funext other
      dsimp only [Function.comp_apply]
      split
      · rename_i isGroup
        rw [isChanged, isGroup]
      · rfl
    rw [same]
    exact distinct
  · exact modified.people
  · intro place number
    unfold Stands
    rw [modified.groups]
    simp only [List.mem_map, exists_exists_and_eq_and]
    apply exists_congr
    intro other
    apply and_congr_right
    intro _
    split
    · rename_i isGroup
      rw [isChanged, isGroup]
    · rfl
  · intro number username
    have written : (∃ place, (place = dn ∧ username = uid) ∧ Stands before place number) ↔
        username = uid ∧ group.gidNumber = some number := by
      simp only [and_assoc, exists_eq_left, stands]
    have inAfter : changed ∈ after.groups := by
      rw [modified.groups]
      exact List.mem_map.mpr ⟨group, modified.member, if_pos rfl⟩
    rw [written]
    constructor
    · intro lists
      obtain ⟨found, listed, isPosix, isNumber, isListed⟩ := lists
      rw [modified.groups] at listed
      obtain ⟨other, inBefore, isFound⟩ := List.mem_map.mp listed
      by_cases isGroup : other = group
      · rw [if_pos isGroup, isChanged] at isFound
        subst isFound
        rcases List.mem_append.mp isListed with already | new
        · exact Or.inl ⟨group, modified.member, posix, isNumber, already⟩
        · exact Or.inr ⟨List.mem_singleton.mp new, isNumber⟩
      · rw [if_neg isGroup] at isFound
        subst isFound
        exact Or.inl ⟨other, inBefore, isPosix, isNumber, isListed⟩
    · intro lists
      rcases lists with ⟨other, inBefore, isPosix, isNumber, isListed⟩ | ⟨rfl, isNumber⟩
      · by_cases isGroup : other = group
        · subst isGroup
          refine ⟨changed, inAfter, ?_⟩
          rw [isChanged]
          exact ⟨isPosix, isNumber, List.mem_append_left _ isListed⟩
        · refine ⟨other, ?_, isPosix, isNumber, isListed⟩
          rw [modified.groups]
          exact List.mem_map.mpr ⟨other, inBefore, if_neg isGroup⟩
      · refine ⟨changed, inAfter, ?_⟩
        rw [isChanged]
        exact ⟨posix, isNumber, List.mem_append_right _ (List.mem_singleton_self _)⟩

/-- What is refused stands there already, or there is no such group. -/
theorem widened_of_error {dn uid : String} {error : AddError} (distinct : Distinct before)
    (isRefused : before.modifyGroup dn (withMemberUid uid) = .error error) :
    Widened (fun place username => place = dn ∧ username = uid) before before := by
  refine ⟨distinct, rfl, fun _ _ => Iff.rfl, fun number username => ?_⟩
  refine (or_iff_left_of_imp ?_).symm
  intro written
  obtain ⟨place, ⟨rfl, rfl⟩, group, listed, isDn, posix, isNumber⟩ := written
  have found := (Keyed.find?_eq_some_iff distinct).mpr ⟨listed, isDn⟩
  unfold LdapDirectory.modifyGroup at isRefused
  rw [found] at isRefused
  dsimp only at isRefused
  unfold withMemberUid at isRefused
  rw [if_neg (not_not.mpr posix)] at isRefused
  by_cases already : username ∈ group.memberUid
  · exact ⟨group, listed, posix, isNumber, already⟩
  · rw [if_neg already] at isRefused
    cases isRefused

/-! ## A search for an account -/

theorem getOrCreate_eq (calm : stores.fates = []) (uid : String) :
    ∃ row verifications,
      getOrCreate uid stores = .ok row { stores with verifications := verifications } := by
  have read : (perform do return (← get).verifications.find? fun row => row.uid == uid :
      Importing (Option Verification)) stores =
        .ok (stores.verifications.find? fun row => row.uid == uid) stores := perform_eq calm
  unfold getOrCreate
  rw [bind_ok read]
  cases stores.verifications.find? fun row => row.uid == uid with
  | some row => exact ⟨row, stores.verifications, rfl⟩
  | none => exact ⟨_, _, perform_eq calm⟩

theorem getUser_eq (calm : stores.fates = []) {uid : String} {user : AccountEntry}
    (found : (stores.directory.people.find? fun person => conf.sameValue person.uid uid) = some user) :
    ∃ verifications,
      getUser conf uid stores = .ok user { stores with verifications := verifications } := by
  have read : (perform do
        return (← get).directory.people.find? fun person => conf.sameValue person.uid uid :
      Importing (Option AccountEntry)) stores =
        .ok (stores.directory.people.find? fun person => conf.sameValue person.uid uid) stores :=
    perform_eq calm
  obtain ⟨row, verifications, created⟩ := getOrCreate_eq calm user.uid
  unfold getUser
  rw [bind_ok read, found]
  dsimp only
  rw [bind_ok created]
  split
  · have updated : updateVerification user.uid (fun row => { row with password_must_change := true })
        { stores with verifications := verifications } = _ := perform_eq calm
    exact ⟨_, bind_ok updated⟩
  · exact ⟨verifications, rfl⟩

/-! ## All members -/

/-- The server does not tell names apart that are one in lower case. -/
def SameNames (conf : LdapConf) : Prop :=
  ∀ name wanted, lc name = lc wanted → conf.sameValue name wanted = true

/-- Every name of `importedByUsername` has an account. -/
def Registered (imported : Imported) (directory : LdapDirectory) : Prop :=
  ∀ key, (imported.lookup key).isSome → ∃ person ∈ directory.people, lc person.uid = key

/-- What an action without faults leaves that never throws. -/
def Does (action : Importing Unit) (left : LdapDirectory → LdapDirectory → Prop) (stores : Stores) :
    Prop :=
  ∃ final, action stores = .ok () final ∧ final.fates = [] ∧ left stores.directory final.directory

variable {imported : Imported}

theorem addPersonalGroupMember_does (calm : Calm Distinct stores) {cn username : String}
    {person : AccountEntry} (listed : person ∈ stores.directory.people)
    (named : conf.sameValue person.uid username = true) :
    Does (catching (addPersonalGroupMember conf cn username) fun _ => pure ())
      (Widened fun place name => place = groupDn conf cn ∧ name = username) stores := by
  cases found : stores.directory.people.find? fun person => conf.sameValue person.uid username with
  | none => exact absurd named (List.find?_eq_none.mp found person listed)
  | some user =>
      obtain ⟨verifications, got⟩ := getUser_eq calm.fates found
      have performed : modifyGroup (groupDn conf cn) (withMemberUid username)
          { stores with verifications := verifications } = _ := perform_eq calm.fates
      cases result : stores.directory.modifyGroup (groupDn conf cn) (withMemberUid username) with
      | ok directory =>
          rw [result] at performed
          refine ⟨_, tryCatch_ok ((bind_ok got).trans performed), calm.fates, ?_⟩
          exact widened_of_ok calm.directory result
      | error error =>
          rw [result] at performed
          refine ⟨{ stores with verifications := verifications },
            (tryCatch_error ((bind_ok got).trans performed)).trans rfl, calm.fates, ?_⟩
          exact widened_of_error calm.directory result

/-- The texts that a group brings to the group of its name. -/
def Brings (conf : LdapConf) (imported : Imported) (group : PlannedGroup) (dn username : String) :
    Prop :=
  dn = groupDn conf group.cn ∧ username ∈ group.memberUsernames ∧ lc username ≠ lc group.cn ∧
    (imported.lookup (lc group.cn)).isSome ∧ (imported.lookup (lc username)).isSome

theorem Does.widened {writes other : String → String → Prop} {action : Importing Unit}
    (does : Does action (Widened writes) stores)
    (same : ∀ dn username, writes dn username ↔ other dn username) :
    Does action (Widened other) stores := by
  obtain ⟨final, ran, fates, widened⟩ := does
  exact ⟨final, ran, fates, widened.congr same⟩

theorem does_pure (calm : Calm Distinct stores) :
    Does (pure ()) (Widened fun _ _ => False) stores :=
  ⟨stores, rfl, calm.fates, Widened.refl calm.directory⟩

theorem Does.bind {writes other : String → String → Prop} {action next : Importing Unit}
    (first : Does action (Widened writes) stores) (registered : Registered imported stores.directory)
    (rest : ∀ middle : Stores, Calm Distinct middle → Registered imported middle.directory →
      Does next (Widened other) middle) :
    Does (action >>= fun _ => next)
      (Widened fun dn username => writes dn username ∨ other dn username) stores := by
  obtain ⟨middle, ran, fates, widened⟩ := first
  have stillRegistered : Registered imported middle.directory := by
    unfold Registered
    rw [widened.people]
    exact registered
  obtain ⟨final, ranOn, ended, widenedOn⟩ := rest middle ⟨fates, widened.distinct⟩ stillRegistered
  exact ⟨final, (bind_ok ran).trans ranOn, ended, widened.trans widenedOn⟩

theorem addPersonalMember_does (sameNames : SameNames conf) (cn username : String)
    (calm : Calm Distinct stores) (registered : Registered imported stores.directory) :
    Does (addPersonalMember conf imported cn username)
      (Widened fun dn name => dn = groupDn conf cn ∧ name = username ∧ lc name ≠ lc cn ∧
        (imported.lookup (lc name)).isSome) stores := by
  unfold addPersonalMember
  split
  · rename_i writes
    obtain ⟨person, listed, named⟩ := registered _ writes.2
    apply (addPersonalGroupMember_does calm listed (sameNames _ _ named)).widened
    intro dn name
    apply and_congr_right
    intro _
    exact ⟨fun same => ⟨same, same ▸ writes⟩, And.left⟩
  · rename_i passes
    apply (does_pure calm).widened
    intro dn name
    refine ⟨False.elim, fun writes => passes ?_⟩
    exact writes.2.1 ▸ writes.2.2

theorem addPersonalMembers_does (sameNames : SameNames conf) (cn : String) (usernames : List String)
    (calm : Calm Distinct stores) (registered : Registered imported stores.directory) :
    Does (addPersonalMembers conf imported cn usernames)
      (Widened fun dn name => dn = groupDn conf cn ∧ name ∈ usernames ∧ lc name ≠ lc cn ∧
        (imported.lookup (lc name)).isSome) stores := by
  induction usernames generalizing stores with
  | nil =>
      apply (does_pure calm).widened
      simp
  | cons username usernames ih =>
      have first := addPersonalMember_does sameNames cn username calm registered
      apply (first.bind registered fun middle => ih).widened
      intro dn name
      rw [← and_or_left, ← or_and_right, List.mem_cons]

theorem addPersonalGroup_does (sameNames : SameNames conf) (group : PlannedGroup)
    (calm : Calm Distinct stores) (registered : Registered imported stores.directory) :
    Does (addPersonalGroup conf imported group) (Widened (Brings conf imported group)) stores := by
  unfold addPersonalGroup Brings
  split
  · rename_i owned
    apply (addPersonalMembers_does sameNames group.cn group.memberUsernames calm registered).widened
    intro dn name
    simp only [owned, true_and]
  · rename_i unowned
    apply (does_pure calm).widened
    intro dn name
    exact ⟨False.elim, fun brings => unowned brings.2.2.2.1⟩

theorem addPersonalGroups_does (sameNames : SameNames conf) (groups : List PlannedGroup)
    (calm : Calm Distinct stores) (registered : Registered imported stores.directory) :
    Does (addPersonalGroups conf imported groups)
      (Widened fun dn name => ∃ group ∈ groups, Brings conf imported group dn name) stores := by
  induction groups generalizing stores with
  | nil =>
      apply (does_pure calm).widened
      simp
  | cons group groups ih =>
      have first := addPersonalGroup_does sameNames group calm registered
      apply (first.bind registered fun middle => ih).widened
      intro dn name
      rw [List.exists_mem_cons_iff]

/-! ## A whole run -/

/-- The account of that name is imported. -/
def IsImported (plan : ImportPlan) (username : String) : Prop :=
  ∃ row ∈ importables plan.users, lc row.username = lc username

/-- The text is a memberUid of a posixGroup with the number, or the account of that name has the
number as its primary gid. -/
def Kept (directory : LdapDirectory) (gidNumber username : String) : Prop :=
  ∃ number, readInteger gidNumber = some number ∧
    (Lists directory number username ∨ Owns directory number username)

/-- No membership of a personal group is lost. -/
def NothingLost (plan : ImportPlan) (directory : LdapDirectory) : Prop :=
  ∀ group ∈ plan.personalGroups, ∀ username ∈ group.memberUsernames, IsImported plan username →
    Kept directory group.gidNumber username

/-- How a membership is there behind an import into the directory. -/
inductive Carries (conf : LdapConf) (directory : LdapDirectory) (plan : ImportPlan) (number : Int)
    (username : String) : Prop where
  /-- It was there. -/
  | listed (lists : Lists directory number username)
  | owned (owns : Owns directory number username)
  /-- The row of the member comes to the number. -/
  | primary (comes : AtTurn conf (ComesTo conf number username) directory.gidNumbers
      (importables plan.users))
  /-- A group that lists it bears the name of another imported account, and the group of
  the directory with that name has the number. -/
  | written (group : PlannedGroup) (personal : group ∈ plan.personalGroups)
      (member : username ∈ group.memberUsernames) (other : lc username ≠ lc group.cn)
      (owner : IsImported plan group.cn)
      (stands : Stands directory (groupDn conf group.cn) number ∨
        AtTurn conf (BringsTo conf (groupDn conf group.cn) number) directory.gidNumbers
          (importables plan.users))

variable {plan : ImportPlan} {options : ApplyOptions} {report : Report} {start final : Stores}

theorem isImported_iff {later : Imported} (remembers : Remembers (importables plan.users) [] later)
    (username : String) : (later.lookup (lc username)).isSome ↔ IsImported plan username := by
  rw [remembers]
  simp [IsImported]

theorem lists_applyPlan (sameNames : SameNames conf) (calm : Calm Distinct start)
    (named : ∀ row ∈ importables plan.users, row.username ≠ "")
    (ran : applyPlan conf options plan start = .ok report final)
    (unfailed : ∀ user ∈ report.users, user.status ≠ .failed) :
    ∃ ready imported, Advanced conf (importables plan.users) start.directory ready ∧
      (∀ username, (List.lookup (lc username) imported).isSome ↔ IsImported plan username) ∧
        Widened (fun dn name => ∃ group ∈ plan.personalGroups, Brings conf imported group dn name)
          ready final.directory := by
  unfold applyPlan at ran
  obtain ⟨users, filed, imports, ran⟩ := exists_of_bind_ok ran
  obtain ⟨groups, mapped, maps, ran⟩ := exists_of_bind_ok ran
  obtain ⟨_, last, personal, ran⟩ := exists_of_bind_ok ran
  cases ran
  obtain ⟨fates, advanced, remembers⟩ := importUsers_advanced calm named imports unfailed
  have steady := @steady_mapGroups conf users.2 plan.groups filed ⟨fates, advanced.distinct⟩
  rw [maps] at steady
  have ready := advanced.beside steady.directory
  have registered : Registered users.2 mapped.directory := by
    intro key isSome
    rcases (remembers key).mp isSome with none | ⟨row, listed, isKey⟩
    · cases none
    · obtain ⟨person, isListed, sameName⟩ := ready.named row listed
      exact ⟨person, isListed, sameName.symm ▸ isKey⟩
  obtain ⟨_, done, -, widened⟩ :=
    addPersonalGroups_does sameNames plan.personalGroups ⟨steady.fates, ready.distinct⟩ registered
  cases personal.symm.trans done
  exact ⟨mapped.directory, users.2, ready, isImported_iff remembers, widened⟩

theorem kept_iff_carries (sameNames : SameNames conf) (calm : Calm Distinct start)
    (named : ∀ row ∈ importables plan.users, row.username ≠ "")
    (ran : applyPlan conf options plan start = .ok report final)
    (unfailed : ∀ user ∈ report.users, user.status ≠ .failed) {number : Int} {username : String}
    (imported : IsImported plan username) :
    (Lists final.directory number username ∨ Owns final.directory number username) ↔
      Carries conf start.directory plan number username := by
  obtain ⟨ready, later, advanced, isLater, widened⟩ :=
    lists_applyPlan sameNames calm named ran unfailed
  have owns : Owns final.directory number username ↔ Owns ready number username := by
    unfold Owns
    rw [widened.people]
  rw [owns, widened.lists, advanced.lists, advanced.owns]
  simp only [advanced.stands]
  constructor
  · rintro ((lists | ⟨dn, ⟨group, personal, rfl, member, other, owner, -⟩, stands⟩) | owns | comes)
    · exact .listed lists
    · exact .written group personal member other ((isLater _).mp owner) stands
    · exact .owned owns
    · exact .primary comes
  · intro carries
    cases carries with
    | listed lists => exact Or.inl (Or.inl lists)
    | owned owns => exact Or.inr (Or.inl owns)
    | primary comes => exact Or.inr (Or.inr comes)
    | written group personal member other owner stands =>
        exact Or.inl (Or.inr ⟨_, ⟨group, personal, rfl, member, other, (isLater _).mpr owner,
          (isLater _).mpr imported⟩, stands⟩)

theorem blocking_withDecision (choice : Option Decision) (user : PlannedUser) :
    (withDecision choice user).blocking = user.blocking := by
  cases choice <;> rfl

theorem username_withDecision (choice : Option Decision) (user : PlannedUser) :
    (withDecision choice user).username = user.username := by
  cases choice <;> rfl

theorem named_of_reviewed (profile : Profile) (existing : Existing) (entries : List Entry)
    (review : Review) :
    ∀ row ∈ importables ((buildPlan profile existing entries).reviewed review).users,
      row.username ≠ "" := by
  intro row listed
  obtain ⟨member, importable⟩ := List.mem_filter.mp listed
  obtain ⟨user, inPlan, rfl⟩ := List.mem_map.mp member
  have unblocked := of_decide_eq_true (Bool.and_eq_true_iff.mp importable).2
  rw [blocking_withDecision] at unblocked
  obtain ⟨place, found⟩ := List.getElem?_of_mem inPlan
  obtain ⟨entry, -, isName, -, blocked⟩ := exists_entry_of_row found
  rw [username_withDecision, isName]
  exact ne_empty_of_isUsername (blocked.mp unblocked).named

/-- A server that compares names in lower case. -/
def caselessConf : LdapConf :=
  { plainConf with sameValue := fun value wanted => lc value == lc wanted }

def noStores : Stores := ⟨⟨[], []⟩, [], [], []⟩

/-- Two accounts, and a group with the number of the first that lists the second. -/
def annFile (cn : String) : List Entry :=
  [⟨"cn=ann", [("objectclass", ["posixAccount"]), ("uid", ["ann"]), ("uidnumber", ["1500"]),
      ("gidnumber", ["1500"])]⟩,
    ⟨"cn=bob", [("objectclass", ["posixAccount"]), ("uid", ["bob"]), ("uidnumber", ["1501"]),
      ("gidnumber", ["1501"])]⟩,
    ⟨"cn=group", [("objectclass", ["posixGroup"]), ("cn", [cn]), ("gidnumber", ["1500"]),
      ("memberuid", ["bob"])]⟩]

def annPlan (cn : String) : ImportPlan :=
  (buildPlan ⟨"posixaccount", "uid", ["posixgroup"], "memberuid"⟩ {} (annFile cn)).reviewed
    ⟨fun _ => none, fun _ => none⟩

/-- What a check finds behind the import of the file. -/
def foundIn (cn : String) (check : Report → LdapDirectory → Bool) : Bool :=
  match applyPlan caselessConf {} (annPlan cn) noStores with
  | .ok report final => check report final.directory
  | .error _ _ => false

theorem exists_of_foundIn {cn : String} {check : Report → LdapDirectory → Bool}
    (found : foundIn cn check = true) : ∃ report final,
      applyPlan caselessConf {} (annPlan cn) noStores = .ok report final ∧
        check report final.directory = true := by
  unfold foundIn at found
  split at found
  · exact ⟨_, _, ‹_›, found⟩
  · cases found

end ThetaDirectory.Migration
