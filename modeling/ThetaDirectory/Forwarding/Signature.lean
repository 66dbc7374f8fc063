import Mathlib.Algebra.Order.Floor.Ring
import Mathlib.Tactic.FieldSimp
import Mathlib.Tactic.NormNum
import Mathlib.Tactic.Positivity
import ThetaDirectory.Library.Numerals
import ThetaDirectory.Number

/-!
# Signatures of forwarded requests

`utils/forwarded_auth_hmac.js`.  A request is signed with a token over the user, the time and the
path, one on each line.
-/

namespace ThetaDirectory.Forwarding

open Library

def WINDOW_MS : Nat := 5 * 60 * 1000

/-- `createHmac('sha256', key).update(message).digest()`. -/
abbrev Hmac := String → String → List UInt8

/-- `digest('hex')`. -/
def toHex (octets : List UInt8) : String :=
  String.ofList (octets.flatMap fun octet =>
    [Nat.digitChar (octet.toNat / 16), Nat.digitChar (octet.toNat % 16)])

/-- `Buffer.from(text, 'hex')`, which ends where the text is not hexadecimal. -/
def fromHex : List Char → List UInt8
  | first :: second :: rest =>
      match digitOf first, digitOf second with
      | some high, some low => UInt8.ofNat (high * 16 + low) :: fromHex rest
      | _, _ => []
  | _ => []

def message (uid ts path : String) : String := uid ++ "\n" ++ ts ++ "\n" ++ path

def sign (hmac : Hmac) (pushToken uid ts path : String) : String :=
  toHex (hmac pushToken (message uid ts path))

def verify (hmac : Hmac) (now : Nat) (pushToken uid ts path mac : String) : Bool :=
  if pushToken = "" ∨ uid = "" ∨ ts = "" ∨ mac = "" then false
  else
    match finiteNumber ts with
    | none => false
    | some t =>
        if (WINDOW_MS : ℚ) < abs (now - t) then false
        else fromHex (sign hmac pushToken uid ts path).toList == fromHex mac.toList

variable {hmac : Hmac} {now : Nat} {token uid ts path mac : String}

/-! ## Hexadecimal texts -/

theorem digitOf_digitChar {digit : Nat} (small : digit < 16) :
    digitOf (Nat.digitChar digit) = some digit := by
  have all : ∀ digit : Fin 16, digitOf (Nat.digitChar digit) = some digit.val := by decide
  exact all ⟨digit, small⟩

theorem fromHex_toHex (octets : List UInt8) : fromHex (toHex octets).toList = octets := by
  rw [toHex, String.toList_ofList]
  induction octets with
  | nil => rfl
  | cons octet octets ih =>
      have bound := octet.toNat_lt
      simp only [List.flatMap_cons, List.cons_append, List.nil_append, fromHex]
      rw [digitOf_digitChar (by omega), digitOf_digitChar (Nat.mod_lt _ (by decide)), ih]
      dsimp only
      rw [Nat.div_add_mod', UInt8.ofNat_toNat]

/-! ## Lines -/

/-- The lines of a message are its user, its time and its path. -/
theorem message_inj {uid' ts' path' : String} (plain : '\n' ∉ uid.toList) (plain' : '\n' ∉ uid'.toList)
    (timed : '\n' ∉ ts.toList) (timed' : '\n' ∉ ts'.toList)
    (same : message uid ts path = message uid' ts' path') :
    uid = uid' ∧ ts = ts' ∧ path = path' := by
  have cut {left right back back' : List Char} (free : '\n' ∉ left) (free' : '\n' ∉ right)
      (equal : left ++ '\n' :: back = right ++ '\n' :: back') : left = right ∧ back = back' := by
    induction left generalizing right with
    | nil =>
        cases right with
        | nil => exact ⟨rfl, List.tail_eq_of_cons_eq equal⟩
        | cons char right =>
            rw [List.head_eq_of_cons_eq equal] at free'
            exact absurd List.mem_cons_self free'
    | cons char left ih =>
        cases right with
        | nil =>
            rw [List.head_eq_of_cons_eq equal] at free
            exact absurd List.mem_cons_self free
        | cons other right =>
            obtain ⟨rfl, rest⟩ := List.cons.inj equal
            have both := ih (fun member => free (List.mem_cons_of_mem _ member))
              (fun member => free' (List.mem_cons_of_mem _ member)) rest
            exact ⟨congrArg (char :: ·) both.1, both.2⟩
  have texts := congrArg String.toList same
  simp only [message, String.toList_append, List.append_assoc] at texts
  obtain ⟨users, rest⟩ := cut plain plain' texts
  obtain ⟨times, paths⟩ := cut timed timed' rest
  exact ⟨String.toList_inj.mp users, String.toList_inj.mp times, String.toList_inj.mp paths⟩

/-! ## Times -/

theorem toNat_of_isDigit {char : Char} (digit : char.isDigit = true) :
    48 ≤ char.toNat ∧ char.toNat ≤ 57 := by
  simp only [Char.isDigit, Bool.and_eq_true, decide_eq_true_eq, ge_iff_le] at digit
  exact ⟨UInt32.le_iff_toNat_le.mp digit.1, UInt32.le_iff_toNat_le.mp digit.2⟩

theorem readDigits_toDigits (number : Nat) :
    readDigits 10 (Nat.toDigits 10 number) = some number := by
  have step (digits : List Char) (start : Nat) (all : ∀ char ∈ digits, char.isDigit = true) :
      digits.foldlM (fun number char => (digitOf char).bind fun digit =>
        if digit < 10 then some (number * 10 + digit) else none) start =
          some (Nat.ofDigitChars 10 digits start) := by
    induction digits generalizing start with
    | nil => rfl
    | cons char digits ih =>
        obtain ⟨digit, others⟩ := List.forall_mem_cons.mp all
        have small : char.toNat - 48 < 10 := by
          have bounds := toNat_of_isDigit digit
          omega
        have read : digitOf char = some (char.toNat - 48) := if_pos digit
        rw [List.foldlM_cons, read, Nat.ofDigitChars_cons, Nat.mul_comm 10]
        simp only [Option.bind_some, small, if_true, Option.bind_eq_bind]
        exact ih _ others
  have digits (char : Char) (member : char ∈ Nat.toDigits 10 number) : char.isDigit = true :=
    Nat.isDigit_of_mem_toDigits (by decide) (by decide) member
  rw [readDigits, if_neg Nat.toDigits_ne_nil, step _ 0 digits,
    Nat.ofDigitChars_toDigits (by decide) (by decide)]

theorem roundHalfEven_natCast (number : Nat) : roundHalfEven (number : ℚ) = number := by
  simp [roundHalfEven]

/-- Whole numbers up to the precision of a double are read as they are. -/
theorem nearestDouble_natCast {number : Nat} (small : number < 2 ^ 53) :
    nearestDouble (number : ℚ) = some (number : ℚ) := by
  by_cases zero : number = 0
  · subst zero
    rfl
  · have log : number.log2 < 53 := (Nat.log2_lt zero).mpr small
    have above : ¬ (number : ℚ) < 2 ^ (number.log2 : Int) := by
      rw [not_lt, zpow_natCast]
      exact_mod_cast Nat.log2_self_le zero
    have unit : max ((number.log2 : Int) - 52) (-1074) = -((52 - number.log2 : Nat) : Int) := by
      omega
    have whole : (number : ℚ) / 2 ^ (-((52 - number.log2 : Nat) : Int)) =
        ((number * 2 ^ (52 - number.log2) : Nat) : ℚ) := by
      rw [zpow_neg, div_inv_eq_mul, zpow_natCast]
      push_cast
      rfl
    have back : ((number * 2 ^ (52 - number.log2) : Nat) : ℚ) * 2 ^ (-((52 - number.log2 : Nat) : Int)) =
        number := by
      rw [zpow_neg, zpow_natCast]
      push_cast
      exact mul_inv_cancel_right₀ (by positivity) _
    have finite : (number : ℚ) < 2 ^ 1024 := by
      exact_mod_cast small.trans (Nat.pow_lt_pow_right (by decide) (by decide))
    have guess : (((number : ℚ).num.natAbs.log2 : Nat) : Int) - (((number : ℚ).den.log2 : Nat) : Int) =
        (number.log2 : Int) := by
      have one : Nat.log2 1 = 0 := by decide
      simp [one]
    rw [nearestDouble, if_neg (Nat.cast_ne_zero.mpr zero)]
    simp only [guess]
    rw [if_neg above, unit, whole, roundHalfEven_natCast, Int.cast_natCast, back, if_pos finite]

theorem plain_toDigits {number : Nat} {mark : Char} (other : mark.isDigit = false) :
    mark ∉ Nat.toDigits 10 number := by
  intro member
  have digit := Nat.isDigit_of_mem_toDigits (by decide : 0 < 10) (by decide) member
  exact Bool.false_ne_true (other.symm.trans digit)

theorem readDecimal_toDigits (number : Nat) :
    readDecimal (Nat.toDigits 10 number) = some (number : ℚ) := by
  have exponent (char : Char) (member : char ∈ Nat.toDigits 10 number) :
      (char ≠ 'e' && char ≠ 'E') = true := by
    have lower : char ≠ 'e' := fun same => plain_toDigits (by decide) (same ▸ member)
    have upper : char ≠ 'E' := fun same => plain_toDigits (by decide) (same ▸ member)
    simp [lower, upper]
  have point (char : Char) (member : char ∈ Nat.toDigits 10 number) :
      (decide (char ≠ '.')) = true :=
    decide_eq_true fun same => plain_toDigits (by decide) (same ▸ member)
  simp only [readDecimal, List.takeWhile_eq_self_iff.mpr exponent, List.takeWhile_eq_self_iff.mpr point,
    List.dropWhile_eq_nil_iff.mpr exponent, List.dropWhile_eq_nil_iff.mpr point, List.drop_nil,
    List.append_nil, readDigits_toDigits]
  simp

theorem solid_toDigits {number : Nat} (char : Char) (member : char ∈ Nat.toDigits 10 number) :
    isSpace char = false := by
  have bounds := toNat_of_isDigit (Nat.isDigit_of_mem_toDigits (by decide) (by decide) member)
  have all : ∀ code : Fin 10, isSpace (Char.ofNat (48 + code)) = false := by decide
  have same : Char.ofNat (48 + (char.toNat - 48)) = char := by
    rw [Nat.add_sub_cancel' bounds.1, Char.ofNat_toNat]
  rw [← same]
  exact all ⟨char.toNat - 48, by omega⟩

theorem trim_toString (number : Nat) : (trim (toString number)).toList = Nat.toDigits 10 number := by
  have text : (toString number).toList = Nat.toDigits 10 number := Nat.toList_repr
  have front : (Nat.toDigits 10 number).dropWhile isSpace = Nat.toDigits 10 number := by
    rw [List.dropWhile_eq_self_iff]
    exact fun present => by simp [solid_toDigits _ (List.getElem_mem present)]
  have back : (Nat.toDigits 10 number).rdropWhile isSpace = Nat.toDigits 10 number := by
    rw [List.rdropWhile_eq_self_iff]
    exact fun present => by simp [solid_toDigits _ (List.getLast_mem present)]
  rw [trim, String.toList_ofList, text, front, back]

theorem finiteNumber_toString {number : Nat} (small : number < 2 ^ 53) :
    finiteNumber (toString number) = some (number : ℚ) := by
  have read : (readDecimal (Nat.toDigits 10 number)).bind nearestDouble = some (number : ℚ) := by
    rw [readDecimal_toDigits, Option.bind_some, nearestDouble_natCast small]
  have plain {mark : Char} (other : mark.isDigit = false) : mark ∉ Nat.toDigits 10 number :=
    plain_toDigits other
  rw [finiteNumber, trim_toString]
  revert read plain
  cases listed : Nat.toDigits 10 number with
  | nil => exact absurd listed Nat.toDigits_ne_nil
  | cons first rest =>
      intro read plain
      have minus : first ≠ '-' := by
        rintro rfl
        exact plain (by decide) List.mem_cons_self
      have plus : first ≠ '+' := by
        rintro rfl
        exact plain (by decide) List.mem_cons_self
      split
      · contradiction
      · simp_all
      · simp_all
      · rename_i mark others same
        cases same
        have other {char : Char} (letter : char.isDigit = false) : mark ≠ char := by
          rintro rfl
          exact plain letter (List.mem_cons_of_mem _ List.mem_cons_self)
        rw [if_neg (not_or.mpr ⟨other (by decide), other (by decide)⟩),
          if_neg (not_or.mpr ⟨other (by decide), other (by decide)⟩),
          if_neg (not_or.mpr ⟨other (by decide), other (by decide)⟩), read]
      · exact read

/-! ## Verification -/

theorem verify_iff : verify hmac now token uid ts path mac = true ↔
    (token ≠ "" ∧ uid ≠ "" ∧ ts ≠ "" ∧ mac ≠ "") ∧
      (∃ t, finiteNumber ts = some t ∧ abs (now - t) ≤ WINDOW_MS) ∧
        fromHex mac.toList = hmac token (message uid ts path) := by
  unfold verify
  split
  · rename_i missing
    simp only [Bool.false_eq_true, false_iff, not_and]
    rintro ⟨one, two, three, four⟩
    exact absurd missing (not_or.mpr ⟨one, not_or.mpr ⟨two, not_or.mpr ⟨three, four⟩⟩⟩)
  · rename_i given
    simp only [not_or] at given
    cases read : finiteNumber ts with
    | none => simp
    | some t =>
        dsimp only
        split
        · rename_i late
          simp only [Bool.false_eq_true, false_iff, not_and]
          rintro - ⟨other, same, timely⟩
          cases same
          exact absurd late (not_lt.mpr timely)
        · rename_i timely
          rw [beq_iff_eq, sign, fromHex_toHex]
          exact ⟨fun same => ⟨⟨given.1, given.2.1, given.2.2.1, given.2.2.2⟩,
            ⟨t, rfl, not_lt.mp timely⟩, same.symm⟩, fun all => all.2.2.symm⟩

theorem toHex_ne_empty {octets : List UInt8} (some : octets ≠ []) : toHex octets ≠ "" := by
  intro none
  apply some
  rw [← fromHex_toHex octets, none]
  rfl

theorem abs_le_window {signed : Nat} :
    abs ((now : ℚ) - (signed : ℚ)) ≤ WINDOW_MS ↔
      now ≤ signed + WINDOW_MS ∧ signed ≤ now + WINDOW_MS := by
  rw [abs_le', sub_le_iff_le_add', neg_sub, sub_le_iff_le_add']
  exact_mod_cast Iff.rfl

/-- What was signed at a time is accepted for as long as the window is open. -/
theorem verify_sign_iff {signed : Nat} (keyed : token ≠ "") (named : uid ≠ "")
    (small : signed < 2 ^ 53) (some : hmac token (message uid (toString signed) path) ≠ []) :
    verify hmac now token uid (toString signed) path (sign hmac token uid (toString signed) path) = true ↔
      now ≤ signed + WINDOW_MS ∧ signed ≤ now + WINDOW_MS := by
  have timed : toString signed ≠ "" := by
    rw [Nat.toString_eq_repr, ← String.toList_inj.ne, Nat.toList_repr]
    exact Nat.toDigits_ne_nil
  rw [verify_iff, finiteNumber_toString small, ← abs_le_window]
  constructor
  · rintro ⟨-, ⟨t, read, timely⟩, -⟩
    cases read
    exact timely
  · exact fun timely => ⟨⟨keyed, named, timed, toHex_ne_empty some⟩, ⟨_, rfl, timely⟩, fromHex_toHex _⟩

end ThetaDirectory.Forwarding
