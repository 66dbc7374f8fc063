import ThetaDirectory.Accounts.LdapUsers

/-!
# Numbers of accounts

Any number of `User.add` calls that go on side by side.  A number is taken from a search and stored
by a later add, so it stays free only if no account is stored in between; and numbers from the
reserved floor on are not looked at.
-/

namespace ThetaDirectory.Accounts

open Library

/-- Calls of `User.add`, each going from one LDAP operation to the next. -/
def userAdds (conf : LdapConf) :
    Interleaving.Protocol LdapDirectory Adding AddCall (Option AddError) where
  call input directory := (directory, userAdd conf input)
  turn fault directory adding := adding.turn conf fault directory

abbrev Adds : Type := Interleaving.Pool LdapDirectory Adding

/-- The numbers just below and at the reserved floor are both taken. -/
def AtFloor (conf : LdapConf) (numbers : List Int) : Prop :=
  conf.uidGidReservedFloor - 1 ∈ numbers ∧ conf.uidGidReservedFloor ∈ numbers

/-- A call that looks for a number finds room below the floor, and one that stores an account finds
the accounts its search found. -/
def Adding.TakesFree (conf : LdapConf) (directory : LdapDirectory) : Adding → Prop
  | .searchPeople data opts =>
      ¬ (opts.preserveIds = true ∧ data.uidNumber.isSome = true) →
        ¬ AtFloor conf directory.uidNumbers
  | .addAccount numbers data _ =>
      (∀ person ∈ directory.people, person.dn ≠ accountDn conf data.uidText) →
        directory.uidNumbers = numbers
  | _ => True

def TakesFree (conf : LdapConf) : Interleaving.Event AddCall (Option AddError) → Adds → Prop
  | .turn index none, pool => ∀ adding ∈ pool.calls[index]?, adding.TakesFree conf pool.shared
  | _, _ => True

section Next

variable {conf : LdapConf} {numbers : List Int}

theorem le_foldl_max {α : Type*} [LinearOrder α] (numbers : List α) (start : α) :
    start ≤ numbers.foldl max start ∧ ∀ number ∈ numbers, number ≤ numbers.foldl max start := by
  induction numbers generalizing start with
  | nil => exact ⟨le_refl _, fun _ member => nomatch member⟩
  | cons first numbers ih =>
      obtain ⟨above, each⟩ := ih (max start first)
      refine ⟨le_trans (le_max_left _ _) above, fun number member => ?_⟩
      rcases List.mem_cons.mp member with rfl | later
      · exact le_trans (le_max_right _ _) above
      · exact each number later

theorem foldl_max_mem {α : Type*} [LinearOrder α] (numbers : List α) (start : α) :
    numbers.foldl max start = start ∨ numbers.foldl max start ∈ numbers := by
  induction numbers generalizing start with
  | nil => exact Or.inl rfl
  | cons first numbers ih =>
      rw [List.foldl_cons]
      rcases ih (max start first) with same | member
      · rw [same]
        rcases le_total start first with le | ge
        · rw [max_eq_right le]
          exact Or.inr List.mem_cons_self
        · exact Or.inl (max_eq_left ge)
      · exact Or.inr (List.mem_cons_of_mem _ member)

/-- The next number is taken only at the floor. -/
theorem nextPosixId_notMem (below : conf.uidGidMin < conf.uidGidReservedFloor)
    (room : ¬ AtFloor conf numbers) : nextPosixId conf numbers ∉ numbers := by
  intro taken
  apply room
  unfold nextPosixId at taken
  obtain ⟨above, each⟩ := le_foldl_max (numbers.filter (· < conf.uidGidReservedFloor))
    (conf.uidGidMin - 1)
  have origin := foldl_max_mem (numbers.filter (· < conf.uidGidReservedFloor)) (conf.uidGidMin - 1)
  generalize (numbers.filter (· < conf.uidGidReservedFloor)).foldl max (conf.uidGidMin - 1) = highest
    at taken above each origin
  have atFloor : conf.uidGidReservedFloor ≤ highest + 1 := by
    by_contra small
    have counted := each (highest + 1) (List.mem_filter.mpr ⟨taken, decide_eq_true (by omega)⟩)
    omega
  rcases origin with isMin | listed
  · omega
  · obtain ⟨member, isBelow⟩ := List.mem_filter.mp listed
    have isBelow : highest < conf.uidGidReservedFloor := of_decide_eq_true isBelow
    have equal : highest = conf.uidGidReservedFloor - 1 := by omega
    subst equal
    rw [Int.sub_add_cancel] at taken
    exact ⟨member, taken⟩

end Next

/-- What a call knows of the number it is about to store. -/
def Adding.Fresh : Adding → Prop
  | .addAccount numbers data _ => ∃ number, data.uidNumber = some number ∧ number ∉ numbers
  | _ => True

/-- What every step keeps. -/
structure Numbered (pool : Adds) : Prop where
  distinct : pool.shared.uidNumbers.Nodup
  fresh : ∀ adding ∈ pool.calls, adding.Fresh

section Turn

variable {conf : LdapConf} {data : NewUser} {opts : AddOptions} {directory : LdapDirectory}
  {numbers : List Int} {fault : Option AddError} {adding : Adding}

theorem fresh_addLdapUser : (addLdapUser conf opts data).Fresh := by
  unfold addLdapUser
  split <;> trivial

theorem fresh_userAdd (call : AddCall) : (userAdd conf call).Fresh := by
  unfold userAdd
  split
  · trivial
  · trivial
  · exact fresh_addLdapUser

theorem fresh_chooseGid {groups : List GroupEntry} : (chooseGid conf groups data opts).Fresh := by
  unfold chooseGid
  dsimp only
  split
  · split <;> trivial
  · trivial

theorem fresh_chooseUid (below : conf.uidGidMin < conf.uidGidReservedFloor)
    (room : ¬ (opts.preserveIds = true ∧ data.uidNumber.isSome = true) → ¬ AtFloor conf numbers) :
    (chooseUid conf numbers data opts).Fresh := by
  unfold chooseUid
  split
  · rename_i uidNumber preserve isNumber
    split
    · trivial
    · rename_i free
      exact ⟨uidNumber, isNumber, fun taken => free (List.contains_iff_mem.mpr taken)⟩
  · rename_i searched
    refine ⟨_, rfl, nextPosixId_notMem below (room fun preserved => ?_)⟩
    obtain ⟨uidNumber, isNumber⟩ := Option.isSome_iff_exists.mp preserved.2
    exact searched uidNumber preserved.1 isNumber

theorem numbered_turn (below : conf.uidGidMin < conf.uidGidReservedFloor)
    (distinct : directory.uidNumbers.Nodup) (fresh : adding.Fresh)
    (free : fault = none → adding.TakesFree conf directory) :
    (adding.turn conf fault directory).1.uidNumbers.Nodup ∧
      (adding.turn conf fault directory).2.Fresh := by
  cases adding with
  | checkMail data opts =>
      dsimp only [Adding.turn]
      split
      · exact ⟨distinct, trivial⟩
      · split
        · exact ⟨distinct, trivial⟩
        · exact ⟨distinct, fresh_addLdapUser⟩
  | checkMobile data opts =>
      dsimp only [Adding.turn]
      split
      · exact ⟨distinct, trivial⟩
      · exact ⟨distinct, fresh_addLdapUser⟩
  | searchGroups data opts =>
      cases fault with
      | some error => exact ⟨distinct, trivial⟩
      | none => exact ⟨distinct, fresh_chooseGid⟩
  | addGroup data opts =>
      cases fault with
      | some error => exact ⟨distinct, trivial⟩
      | none =>
          dsimp only [Adding.turn]
          split <;> exact ⟨distinct, trivial⟩
  | searchPeople data opts =>
      cases fault with
      | some error => exact ⟨distinct, trivial⟩
      | none => exact ⟨distinct, fresh_chooseUid below (free rfl)⟩
  | addAccount numbers data opts =>
      cases fault with
      | some error => exact ⟨distinct, trivial⟩
      | none =>
          dsimp only [Adding.turn]
          split
          · exact ⟨distinct, trivial⟩
          · rename_i absent
            refine ⟨?_, trivial⟩
            obtain ⟨number, isNumber, new⟩ := fresh
            have same : directory.uidNumbers = numbers := by
              apply free rfl
              intro person listed sameDn
              exact absent (List.any_eq_true.mpr ⟨person, listed, beq_iff_eq.mpr sameDn⟩)
            have grown : LdapDirectory.uidNumbers
                { directory with people := directory.people ++ [posixAccount conf data] } =
                  directory.uidNumbers ++ [number] := by
              unfold LdapDirectory.uidNumbers
              rw [List.filterMap_append]
              simp [posixAccount, isNumber]
            rw [grown]
            apply List.nodup_append.mpr ⟨distinct, List.pairwise_singleton _ _, ?_⟩
            intro other before last isLast equal
            rw [equal, List.mem_singleton.mp isLast, same] at before
            exact new before
  | rollback uid error => cases fault <;> exact ⟨distinct, trivial⟩
  | added data => exact ⟨distinct, trivial⟩
  | failed error => exact ⟨distinct, trivial⟩

end Turn

theorem numbered_apply {conf : LdapConf} (below : conf.uidGidMin < conf.uidGidReservedFloor)
    (event : Interleaving.Event AddCall (Option AddError)) (pool : Adds) (numbered : Numbered pool)
    (free : TakesFree conf event pool) : Numbered ((userAdds conf).apply event pool) := by
  cases event with
  | call input =>
      constructor
      · exact numbered.distinct
      · intro adding listed
        rcases List.mem_append.mp listed with before | isNew
        · exact numbered.fresh adding before
        · rw [List.mem_singleton.mp isNew]
          exact fresh_userAdd input
  | turn index fault =>
      cases found : pool.calls[index]? with
      | none => rwa [Interleaving.apply_turn_of_none found]
      | some adding =>
          have takes : fault = none → adding.TakesFree conf pool.shared := by
            intro happens
            subst happens
            exact free adding found
          have kept := numbered_turn below numbered.distinct
            (numbered.fresh adding (List.mem_of_getElem? found)) takes
          rw [Interleaving.apply_turn_of_some found]
          refine ⟨kept.1, fun other listed => ?_⟩
          rcases List.mem_or_eq_of_mem_set listed with before | isNext
          · exact numbered.fresh other before
          · exact isNext ▸ kept.2

theorem distinct_run (conf : LdapConf) (below : conf.uidGidMin < conf.uidGidReservedFloor)
    (directory : LdapDirectory) (distinct : directory.uidNumbers.Nodup)
    (events : List (Interleaving.Event AddCall (Option AddError)))
    (free : ∀ step ∈ Runs.steps (userAdds conf).apply events ⟨directory, []⟩,
      TakesFree conf step.operation step.before) :
    ∀ step ∈ Runs.steps (userAdds conf).apply events ⟨directory, []⟩,
      step.after.shared.uidNumbers.Nodup := by
  have initial : Numbered ⟨directory, []⟩ := ⟨distinct, fun _ listed => nomatch listed⟩
  intro step member
  exact (Runs.forall_steps_inv initial free (numbered_apply below) step member).2.distinct

/-- The numbers of `conf/base.js`, for names of plain letters. -/
def plainConf : LdapConf where
  uidGidMin := 1500
  uidGidReservedFloor := 9000
  groupBase := "ou=groups"
  userBase := "ou=people"
  escapeDN := id
  normalize := id
  sameValue value wanted := value == wanted
  hashPassword password := "\x7bSSHA512\x7d" ++ password

def plainCall (uid : String) : AddCall := ⟨{ uid := some uid }, {}⟩

instance (directory : LdapDirectory) (adding : Adding) :
    Decidable (adding.TakesFree plainConf directory) :=
  match adding with
  | .searchPeople data opts => inferInstanceAs (Decidable
      (¬ (opts.preserveIds = true ∧ data.uidNumber.isSome = true) →
        ¬ (plainConf.uidGidReservedFloor - 1 ∈ directory.uidNumbers ∧
          plainConf.uidGidReservedFloor ∈ directory.uidNumbers)))
  | .addAccount numbers data _ => inferInstanceAs (Decidable
      ((∀ person ∈ directory.people, person.dn ≠ accountDn plainConf data.uidText) →
        directory.uidNumbers = numbers))
  | .checkMail _ _ | .checkMobile _ _ | .searchGroups _ _ | .addGroup _ _ | .rollback _ _
  | .added _ | .failed _ => inferInstanceAs (Decidable True)

instance (event : Interleaving.Event AddCall (Option AddError)) (pool : Adds) :
    Decidable (TakesFree plainConf event pool) :=
  match event with
  | .turn index none => inferInstanceAs (Decidable
      (∀ adding ∈ pool.calls[index]?, adding.TakesFree plainConf pool.shared))
  | .turn _ (some _) | .call _ => inferInstanceAs (Decidable True)

/-- One account behind the other, beside which groups are searched. -/
theorem distinct_two_accounts : List.Forall (fun step => step.after.shared.uidNumbers.Nodup)
    (Runs.steps (userAdds plainConf).apply
      [.call (plainCall "ann"), .call (plainCall "ben"), .turn 0 none, .turn 1 none, .turn 0 none,
        .turn 0 none, .turn 0 none, .turn 1 none, .turn 1 none, .turn 1 none] ⟨⟨[], []⟩, []⟩) :=
  List.forall_iff_forall_mem.mpr
    (distinct_run plainConf (by decide) ⟨[], []⟩ (by decide) _ (by decide +kernel))

/-- Two calls that both search before either adds. -/
theorem not_distinct : ¬ List.Forall (fun step => step.after.shared.uidNumbers.Nodup)
    (Runs.steps (userAdds plainConf).apply
      [.call (plainCall "ann"), .call (plainCall "ben"), .turn 0 none, .turn 1 none, .turn 0 none,
        .turn 1 none, .turn 0 none, .turn 1 none, .turn 0 none, .turn 1 none] ⟨⟨[], []⟩, []⟩) := by
  intro all
  obtain ⟨step, member, twice⟩ : ∃ step ∈ Runs.steps (userAdds plainConf).apply
      [.call (plainCall "ann"), .call (plainCall "ben"), .turn 0 none, .turn 1 none, .turn 0 none,
        .turn 1 none, .turn 0 none, .turn 1 none, .turn 0 none, .turn 1 none] ⟨⟨[], []⟩, []⟩,
      step.after.shared.uidNumbers = [1500, 1500] := by decide +kernel
  have distinct := List.forall_iff_forall_mem.mp all step member
  rw [twice] at distinct
  exact absurd distinct (by decide)

end ThetaDirectory.Accounts
