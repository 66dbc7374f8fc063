import Mathlib.Data.Char

/-!
# Code units

Strings as sequences of 16-bit code units, which need not pair up, and the characters that units
and pairs of them stand for.
-/

namespace ThetaDirectory.Library.Utf16

abbrev Units : Type := List UInt16

/-- The units of a character. -/
def ofChar (char : Char) : Units :=
  if char.toNat < 0x10000 then [UInt16.ofNat char.toNat]
  else [UInt16.ofNat (0xD800 + (char.toNat - 0x10000) / 0x400),
    UInt16.ofNat (0xDC00 + (char.toNat - 0x10000) % 0x400)]

def ofString (text : String) : Units := text.toList.flatMap ofChar

def isHigh (unit : UInt16) : Bool := 0xD800 ≤ unit.toNat && unit.toNat < 0xDC00

def isLow (unit : UInt16) : Bool := 0xDC00 ≤ unit.toNat && unit.toNat < 0xE000

/-- Half of a pair. -/
def isSurrogate (unit : UInt16) : Bool := isHigh unit || isLow unit

def pairChar (high low : UInt16) : Char :=
  Char.ofNat (0x10000 + (high.toNat - 0xD800) * 0x400 + (low.toNat - 0xDC00))

def unitChar (unit : UInt16) : Char := Char.ofNat unit.toNat

variable {unit high low : UInt16}

theorem toNat_ofNat {code : Nat} (valid : code.isValidChar) : (Char.ofNat code).toNat = code := by
  rw [Char.ofNat, dif_pos valid]
  rfl

theorem toNat_unitChar (single : isSurrogate unit = false) : (unitChar unit).toNat = unit.toNat := by
  apply toNat_ofNat
  have bound := unit.toNat_lt
  simp only [isSurrogate, isHigh, isLow, Bool.or_eq_false_iff, Bool.and_eq_false_iff,
    decide_eq_false_iff_not] at single
  unfold Nat.isValidChar
  omega

theorem toNat_pairChar (isHigh : isHigh high = true) (isLow : isLow low = true) :
    (pairChar high low).toNat = 0x10000 + (high.toNat - 0xD800) * 0x400 + (low.toNat - 0xDC00) := by
  apply toNat_ofNat
  simp only [Utf16.isHigh, Utf16.isLow, Bool.and_eq_true, decide_eq_true_eq] at isHigh isLow
  unfold Nat.isValidChar
  omega

theorem ofChar_unitChar (single : isSurrogate unit = false) : ofChar (unitChar unit) = [unit] := by
  have bound := unit.toNat_lt
  rw [ofChar, toNat_unitChar single, if_pos (by omega), UInt16.ofNat_toNat]

theorem ofChar_pairChar (isHigh : isHigh high = true) (isLow : isLow low = true) :
    ofChar (pairChar high low) = [high, low] := by
  rw [ofChar, toNat_pairChar isHigh isLow, if_neg (by omega)]
  simp only [Utf16.isHigh, Utf16.isLow, Bool.and_eq_true, decide_eq_true_eq] at isHigh isLow
  have first : 0xD800 + (0x10000 + (high.toNat - 0xD800) * 0x400 + (low.toNat - 0xDC00) - 0x10000) /
      0x400 = high.toNat := by omega
  have second : 0xDC00 + (0x10000 + (high.toNat - 0xD800) * 0x400 + (low.toNat - 0xDC00) - 0x10000) %
      0x400 = low.toNat := by omega
  rw [first, second, UInt16.ofNat_toNat, UInt16.ofNat_toNat]

theorem ofChar_append_inj {char other : Char} {rest others : Units}
    (same : ofChar char ++ rest = ofChar other ++ others) : char = other ∧ rest = others := by
  have bound (char : Char) : char.toNat < 0xD800 ∨ 0xDFFF < char.toNat ∧ char.toNat < 0x110000 :=
    char.valid
  have first := bound char
  have second := bound other
  have codes : char.toNat = other.toNat ∧ rest = others := by
    unfold ofChar at same
    split at same <;> split at same <;>
      simp only [List.cons_append, List.nil_append, List.cons.injEq, ← UInt16.toNat_inj,
        UInt16.toNat_ofNat', Nat.reducePow] at same
    · exact ⟨by omega, same.2⟩
    · omega
    · omega
    · exact ⟨by omega, same.2.2⟩
  exact ⟨Char.toNat_inj.mp codes.1, codes.2⟩

theorem ofChar_ne_nil (char : Char) : ofChar char ≠ [] := by
  unfold ofChar
  split <;> exact List.cons_ne_nil _ _

/-- Different texts are different units. -/
theorem ofString_inj {text other : String} : ofString text = ofString other ↔ text = other := by
  constructor
  · intro same
    apply String.toList_inj.mp
    unfold ofString at same
    generalize text.toList = chars at same
    generalize other.toList = others at same
    induction chars generalizing others with
    | nil =>
        cases others with
        | nil => rfl
        | cons char others =>
            exact absurd (List.append_eq_nil_iff.mp same.symm).1 (ofChar_ne_nil char)
    | cons char chars ih =>
        cases others with
        | nil => exact absurd (List.append_eq_nil_iff.mp same).1 (ofChar_ne_nil char)
        | cons head others =>
            obtain ⟨heads, tails⟩ := ofChar_append_inj same
            rw [heads, ih others tails]
  · exact congrArg ofString

/-- A unit of its own is not one of another character. -/
theorem unitChar_ne {char : Char} (single : isSurrogate unit = false)
    (different : unit.toNat ≠ char.toNat) : unitChar unit ≠ char := by
  intro same
  rw [← same, toNat_unitChar single] at different
  exact different rfl

theorem pairChar_ne {char : Char} (isHigh : isHigh high = true) (isLow : isLow low = true)
    (small : char.toNat < 0x10000) : pairChar high low ≠ char := by
  intro same
  rw [← same, toNat_pairChar isHigh isLow] at small
  omega

end ThetaDirectory.Library.Utf16
