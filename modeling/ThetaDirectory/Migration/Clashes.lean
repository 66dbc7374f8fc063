import ThetaDirectory.Migration.Plan

/-!
# Clashes between rows

Which rows of a plan are not blocked, in terms of the entries alone, and that they clash only when
one number is written in two ways: what earlier rows have is looked up by its text.
-/

namespace ThetaDirectory.Migration

/-- Two texts of one number. -/
def SameNumber (number other : String) : Prop :=
  ∃ value, finiteNumber number = some value ∧ finiteNumber other = some value

/-- No two rows that are not blocked clash, and none clashes with what is there. -/
structure Clashless (plan : ImportPlan) (existing : Existing) : Prop where
  apart : ∀ (first second : Nat) (user other : PlannedUser), first < second → plan.users[first]? = some user →
    plan.users[second]? = some other → user.blocking = [] → other.blocking = [] →
      lc user.username ≠ lc other.username ∧ ¬ SameNumber user.uidNumber other.uidNumber
  free : ∀ user ∈ plan.users, user.blocking = [] →
    (∀ username ∈ existing.usernames, lc username ≠ lc user.username) ∧
      ∀ number ∈ existing.uidNumbers, ¬ SameNumber number user.uidNumber

/-- The entry of a row that nothing blocks, behind earlier ones. -/
structure Accepted (profile : Profile) (existing : Existing) (earlier : List Entry) (entry : Entry) :
    Prop where
  named : isUsername (one entry profile.usernameAttr) = true
  numbered : one entry "uidNumber" ≠ ""
  firstName : ∀ other ∈ earlier, lc (one other profile.usernameAttr) ≠
    lc (one entry profile.usernameAttr)
  firstNumber : ∀ other ∈ earlier, one other "uidNumber" ≠ one entry "uidNumber"
  newName : lc (one entry profile.usernameAttr) ∉ existing.usernames.map lc
  newNumber : numberIn existing.uidNumbers (one entry "uidNumber") = false
  newGid : one entry "gidNumber" ≠ "" → numberIn existing.gidNumbers (one entry "gidNumber") = false

/-- No two rows that nothing blocks write one number in two ways. -/
def WrittenOnce (profile : Profile) (existing : Existing) (users : List Entry) : Prop :=
  ∀ (first second : Nat) (entry other : Entry), first < second → users[first]? = some entry →
    users[second]? = some other → Accepted profile existing (users.take first) entry →
    Accepted profile existing (users.take second) other →
      SameNumber (one entry "uidNumber") (one other "uidNumber") →
        one entry "uidNumber" = one other "uidNumber"

variable {profile : Profile} {existing : Existing} {seen : Seen} {earlier entries : List Entry}
  {entry : Entry} {user : PlannedUser}

/-! ## What earlier rows have -/

theorem isSome_keepFirst (seen : List (String × String)) (key value wanted : String) :
    ((keepFirst seen key value).lookup wanted).isSome = true ↔
      wanted = key ∨ (seen.lookup wanted).isSome = true := by
  unfold keepFirst
  split
  · rename_i known
    constructor
    · exact Or.inr
    · rintro (rfl | found)
      · exact known
      · exact found
  · rw [List.lookup_append, Option.isSome_or, Bool.or_eq_true, or_comm]
    apply or_congr_left
    rw [List.lookup_cons, List.lookup_nil]
    cases same : wanted == key with
    | true => exact iff_of_true rfl (eq_of_beq same)
    | false => exact iff_of_false Bool.false_ne_true (ne_of_beq_false same)

/-- The rows that were seen are these entries. -/
structure Tells (profile : Profile) (seen : Seen) (earlier : List Entry) : Prop where
  usernames : ∀ key, (seen.usernames.lookup key).isSome = true ↔
    ∃ other ∈ earlier, one other profile.usernameAttr ≠ "" ∧ lc (one other profile.usernameAttr) = key
  uidNumbers : ∀ key, (seen.uidNumbers.lookup key).isSome = true ↔
    ∃ other ∈ earlier, one other "uidNumber" ≠ "" ∧ one other "uidNumber" = key

/-- A key that is kept unless it is empty. -/
theorem isSome_next {kept : List (String × String)} {text key value wanted : String}
    {holds : Entry → Prop} (known : (kept.lookup wanted).isSome = true ↔ ∃ other ∈ earlier, holds other)
    (here : holds entry ↔ text ≠ "" ∧ key = wanted) :
    ((if text = "" then kept else keepFirst kept key value).lookup wanted).isSome = true ↔
      ∃ other ∈ earlier ++ [entry], holds other := by
  simp only [List.mem_append, List.mem_singleton, or_and_right, exists_or, exists_eq_left]
  rw [← known, here]
  split
  · rename_i empty
    exact ⟨Or.inl, fun either => either.resolve_right fun both => both.1 empty⟩
  · rename_i some
    rw [isSome_keepFirst, or_comm]
    exact or_congr_right ⟨fun same => ⟨some, same.symm⟩, fun both => both.2.symm⟩

theorem Tells.next (tells : Tells profile seen earlier) (entry : Entry) :
    Tells profile (seen.next profile entry) (earlier ++ [entry]) where
  usernames key := isSome_next (tells.usernames key) Iff.rfl
  uidNumbers key := isSome_next (tells.uidNumbers key) Iff.rfl

theorem pushIf_eq_nil {condition : Bool} {text : String} :
    pushIf condition text = [] ↔ condition = false := by
  cases condition <;> simp [pushIf]

theorem lc_ne_empty {text : String} (some : text ≠ "") : lc text ≠ "" :=
  fun empty => some (toLowerCase_eq_empty.mp empty)

theorem ne_empty_of_isUsername {text : String} (isName : isUsername text = true) : text ≠ "" :=
  of_decide_eq_true (Bool.and_eq_true_iff.mp isName).1

/-- A row is not blocked exactly when its entry is accepted behind the earlier ones. -/
theorem blocking_eq_nil_iff (tells : Tells profile seen earlier) :
    (planUser profile existing seen entry).blocking = [] ↔ Accepted profile existing earlier entry := by
  change blockingOf profile existing seen entry = [] ↔ _
  unfold blockingOf
  simp only [List.append_eq_nil_iff, pushIf_eq_nil, Bool.and_eq_false_imp, decide_eq_false_iff_not,
    decide_eq_true_eq, Bool.not_eq_false', and_assoc]
  constructor
  · rintro ⟨someName, chars, someNumber, name, number, newName, newNumber, newGid⟩
    refine ⟨chars someName, someNumber, ?_, ?_, ?_, newNumber someNumber, newGid⟩
    · intro other listed same
      have known := (tells.usernames _).mpr ⟨other, listed, ?_, same⟩
      · exact Bool.false_ne_true ((name someName).symm.trans known)
      · intro empty
        rw [empty] at same
        exact lc_ne_empty someName same.symm
    · intro other listed same
      have known := (tells.uidNumbers _).mpr ⟨other, listed, same.symm ▸ someNumber, same⟩
      exact Bool.false_ne_true ((number someNumber).symm.trans known)
    · intro listed
      exact Bool.false_ne_true ((newName someName).symm.trans (List.contains_iff_mem.mpr listed))
  · intro accepted
    refine ⟨ne_empty_of_isUsername accepted.named, fun _ => accepted.named, accepted.numbered,
      fun _ => ?_, fun _ => ?_, fun _ => ?_, fun _ => accepted.newNumber, accepted.newGid⟩
    · apply Bool.eq_false_iff.mpr
      intro known
      obtain ⟨other, listed, -, same⟩ := (tells.usernames _).mp known
      exact accepted.firstName other listed same
    · apply Bool.eq_false_iff.mpr
      intro known
      obtain ⟨other, listed, -, same⟩ := (tells.uidNumbers _).mp known
      exact accepted.firstNumber other listed same
    · apply Bool.eq_false_iff.mpr
      exact fun listed => accepted.newName (List.contains_iff_mem.mp listed)

/-- The row at a place of the plan. -/
theorem getElem?_planUsers (tells : Tells profile seen earlier) {place : Nat}
    (found : (planUsers profile existing seen entries)[place]? = some user) :
    ∃ entry, entries[place]? = some entry ∧ user.username = one entry profile.usernameAttr ∧
      user.uidNumber = one entry "uidNumber" ∧
        (user.blocking = [] ↔ Accepted profile existing (earlier ++ entries.take place) entry) := by
  induction entries generalizing seen earlier place with
  | nil => cases found
  | cons entry entries ih =>
      cases place with
      | zero =>
          cases found
          refine ⟨entry, rfl, rfl, rfl, ?_⟩
          rw [List.take_zero, List.append_nil]
          exact blocking_eq_nil_iff tells
      | succ place =>
          have next := ih (tells.next entry) found
          rwa [List.append_assoc] at next

theorem tells_nothing : Tells profile ⟨[], [], [], []⟩ [] where
  usernames _ := iff_of_false Bool.false_ne_true fun ⟨_, listed, _⟩ => nomatch listed
  uidNumbers _ := iff_of_false Bool.false_ne_true fun ⟨_, listed, _⟩ => nomatch listed

theorem exists_entry_of_row {place : Nat}
    (found : (buildPlan profile existing entries).users[place]? = some user) :
    ∃ entry, (userEntries profile entries)[place]? = some entry ∧
      user.username = one entry profile.usernameAttr ∧ user.uidNumber = one entry "uidNumber" ∧
        (user.blocking = [] ↔
          Accepted profile existing ((userEntries profile entries).take place) entry) :=
  getElem?_planUsers tells_nothing found

theorem length_planUsers (seen : Seen) (entries : List Entry) :
    (planUsers profile existing seen entries).length = entries.length := by
  induction entries generalizing seen with
  | nil => rfl
  | cons entry entries ih => exact congrArg Nat.succ (ih _)

theorem mem_take {first second : Nat} (before : first < second)
    (found : entries[first]? = some entry) : entry ∈ entries.take second := by
  apply List.mem_of_getElem?
  rwa [List.getElem?_take_of_lt before]

theorem not_sameNumber_existing {number : String}
    (isNew : numberIn existing.uidNumbers number = false) :
    ∀ other ∈ existing.uidNumbers, ¬ SameNumber other number := by
  rintro other listed ⟨value, isOther, isNumber⟩
  unfold numberIn at isNew
  rw [isNumber, Option.any_some] at isNew
  have known : value ∈ existing.uidNumbers.filterMap finiteNumber :=
    List.mem_filterMap.mpr ⟨other, listed, isOther⟩
  exact Bool.false_ne_true (isNew.symm.trans (List.contains_iff_mem.mpr known))

end ThetaDirectory.Migration
