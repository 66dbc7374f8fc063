import ThetaDirectory.Accounts.UidNumbers
import ThetaDirectory.Number

/-!
# The next number

`nextPosixId` of `models/user_ldap.js` on entries as they are read: an id is a text, is missing or
is no number.  The numbers from the reserved floor on are passed over, but the next number may
step onto them.
-/

namespace ThetaDirectory.Accounts

/-- The ids of the entries that are numbers. -/
def idNumbers (ids : List (Option String)) : List ℚ :=
  ids.filterMap fun id => id.bind finiteNumber

/-- `nextPosixId` of entries with these ids. -/
def nextPosixIdOf (conf : LdapConf) (ids : List (Option String)) : ℚ :=
  ((idNumbers ids).filter (· < (conf.uidGidReservedFloor : ℚ))).foldl max
    ((conf.uidGidMin : ℚ) - 1) + 1

variable {conf : LdapConf} {ids : List (Option String)}

theorem cast_foldl_max (numbers : List ℤ) (start : ℤ) :
    ((numbers.foldl max start : ℤ) : ℚ) = (numbers.map Int.cast).foldl max (start : ℚ) := by
  induction numbers generalizing start with
  | nil => rfl
  | cons first numbers ih =>
      rw [List.foldl_cons, ih, Int.cast_max]
      rfl

/-- Among whole numbers it is the next one. -/
theorem nextPosixIdOf_eq {numbers : List ℤ} (whole : idNumbers ids = numbers.map Int.cast) :
    nextPosixIdOf conf ids = nextPosixId conf numbers := by
  have kept : (numbers.map (Int.cast : ℤ → ℚ)).filter (· < (conf.uidGidReservedFloor : ℚ)) =
      (numbers.filter (· < conf.uidGidReservedFloor)).map Int.cast := by
    rw [List.filter_map]
    apply congrArg (List.map Int.cast)
    apply List.filter_congr
    intro number _
    simp
  rw [nextPosixIdOf, nextPosixId, whole, kept, Int.cast_add, cast_foldl_max, Int.cast_sub,
    Int.cast_one]

end ThetaDirectory.Accounts
