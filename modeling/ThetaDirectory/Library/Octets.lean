import Mathlib.Data.List.Basic
import Mathlib.Tactic.IntervalCases

/-!
# Octets of a text

UTF-8 with a replacement character for what is malformed, and Base64.  Both decoders give back what
the encoders were given.
-/

namespace ThetaDirectory.Library.Octets

/-! ## UTF-8 -/

def replacement : Char := Char.ofNat 0xFFFD

/-- The code so far, the octets still needed and the range of the next one. -/
structure Partial where
  code : Nat
  needed : Nat
  lower : Nat
  upper : Nat

/-- What a first octet starts: a character, a longer one, or nothing. -/
def first (octet : UInt8) : Option Char × Option Partial :=
  let code := octet.toNat
  if code < 0x80 then (some (Char.ofNat code), none)
  else if 0xC2 ≤ code ∧ code ≤ 0xDF then (none, some ⟨code - 0xC0, 1, 0x80, 0xBF⟩)
  else if 0xE0 ≤ code ∧ code ≤ 0xEF then
    (none, some ⟨code - 0xE0, 2, if code = 0xE0 then 0xA0 else 0x80, if code = 0xED then 0x9F else 0xBF⟩)
  else if 0xF0 ≤ code ∧ code ≤ 0xF4 then
    (none, some ⟨code - 0xF0, 3, if code = 0xF0 then 0x90 else 0x80, if code = 0xF4 then 0x8F else 0xBF⟩)
  else (some replacement, none)

/-- One octet.  One that does not go on with what was started ends it and is read as a first one. -/
def next : Option Partial → UInt8 → List Char × Option Partial
  | none, octet => ((first octet).1.toList, (first octet).2)
  | some started, octet =>
      if started.lower ≤ octet.toNat ∧ octet.toNat ≤ started.upper then
        let code := started.code * 64 + (octet.toNat - 0x80)
        if started.needed = 1 then ([Char.ofNat code], none)
        else ([], some ⟨code, started.needed - 1, 0x80, 0xBF⟩)
      else (replacement :: (first octet).1.toList, (first octet).2)

def decodeFrom : Option Partial → List UInt8 → List Char
  | none, [] => []
  | some _, [] => [replacement]
  | started, octet :: octets => (next started octet).1 ++ decodeFrom (next started octet).2 octets

def utf8Decode (octets : List UInt8) : List Char := decodeFrom none octets

def utf8Encode (text : List Char) : List UInt8 := text.flatMap String.utf8EncodeChar

theorem toNat_octet {code : Nat} (small : code < 256) : (UInt8.ofNat code).toNat = code := by
  rw [UInt8.toNat_ofNat']
  exact Nat.mod_eq_of_lt small

theorem decodeFrom_cons (started : Option Partial) (octet : UInt8) (octets : List UInt8) :
    decodeFrom started (octet :: octets) =
      (next started octet).1 ++ decodeFrom (next started octet).2 octets := by
  cases started <;> rfl

/-- An octet in the range goes on. -/
theorem next_some {started : Partial} {octet : UInt8} (more : started.needed ≠ 1)
    (above : started.lower ≤ octet.toNat) (below : octet.toNat ≤ started.upper) :
    next (some started) octet =
      ([], some ⟨started.code * 64 + (octet.toNat - 0x80), started.needed - 1, 0x80, 0xBF⟩) := by
  dsimp only [next]
  rw [if_pos ⟨above, below⟩]
  exact if_neg more

theorem next_last {started : Partial} {octet : UInt8} (last : started.needed = 1)
    (above : started.lower ≤ octet.toNat) (below : octet.toNat ≤ started.upper) :
    next (some started) octet = ([Char.ofNat (started.code * 64 + (octet.toNat - 0x80))], none) := by
  dsimp only [next]
  rw [if_pos ⟨above, below⟩]
  exact if_pos last

theorem first_two {octet : UInt8} (above : 0xC2 ≤ octet.toNat) (below : octet.toNat ≤ 0xDF) :
    next none octet = ([], some ⟨octet.toNat - 0xC0, 1, 0x80, 0xBF⟩) := by
  unfold next first
  dsimp only
  rw [if_neg (by omega), if_pos ⟨above, below⟩]
  rfl

theorem first_three {octet : UInt8} (above : 0xE0 ≤ octet.toNat) (below : octet.toNat ≤ 0xEF) :
    next none octet = ([], some ⟨octet.toNat - 0xE0, 2, if octet.toNat = 0xE0 then 0xA0 else 0x80,
      if octet.toNat = 0xED then 0x9F else 0xBF⟩) := by
  unfold next first
  dsimp only
  rw [if_neg (by omega), if_neg (by omega), if_pos ⟨above, below⟩]
  rfl

theorem first_four {octet : UInt8} (above : 0xF0 ≤ octet.toNat) (below : octet.toNat ≤ 0xF4) :
    next none octet = ([], some ⟨octet.toNat - 0xF0, 3, if octet.toNat = 0xF0 then 0x90 else 0x80,
      if octet.toNat = 0xF4 then 0x8F else 0xBF⟩) := by
  unfold next first
  dsimp only
  rw [if_neg (by omega), if_neg (by omega), if_neg (by omega), if_pos ⟨above, below⟩]
  rfl

theorem decodeFrom_char (char : Char) (octets : List UInt8) :
    decodeFrom none (String.utf8EncodeChar char ++ octets) = char :: decodeFrom none octets := by
  have same : Char.ofNat char.val.toNat = char := Char.ofNat_toNat char
  have bound : char.val.toNat < 0xD800 ∨ 0xDFFF < char.val.toNat ∧ char.val.toNat < 0x110000 :=
    char.valid
  unfold String.utf8EncodeChar
  generalize char.val.toNat = code at same bound
  have tail (part : Nat) : (UInt8.ofNat (part % 64 + 128)).toNat = part % 64 + 128 :=
    toNat_octet (by omega)
  dsimp only
  split
  · rename_i one
    have octet := @toNat_octet code (by omega)
    rw [List.singleton_append, decodeFrom_cons]
    unfold next first
    dsimp only
    rw [octet, if_pos (by omega), same]
    rfl
  split
  · rename_i two
    have head := @toNat_octet (code / 64 % 32 + 192) (by omega)
    simp only [List.cons_append, List.nil_append, decodeFrom_cons]
    rw [first_two (by omega) (by omega), next_last rfl (by dsimp only; rw [tail]; omega)
      (by dsimp only; rw [tail]; omega)]
    dsimp only
    rw [head, tail, show (code / 64 % 32 + 192 - 192) * 64 + (code % 64 + 128 - 128) = code by omega, same]
    rfl
  split
  · rename_i three
    have head := @toNat_octet (code / 4096 % 16 + 224) (by omega)
    simp only [List.cons_append, List.nil_append, decodeFrom_cons]
    rw [first_three (by omega) (by omega),
      next_some (by dsimp only; omega) (by dsimp only; rw [tail]; split <;> omega)
        (by dsimp only; rw [tail]; split <;> omega)]
    dsimp only
    rw [next_last rfl (by dsimp only; rw [tail]; omega) (by dsimp only; rw [tail]; omega)]
    dsimp only
    rw [head, tail, tail, show ((code / 4096 % 16 + 224 - 224) * 64 + (code / 64 % 64 + 128 - 128)) * 64 +
      (code % 64 + 128 - 128) = code by omega, same]
    rfl
  · rename_i four
    have head := @toNat_octet (code / 262144 % 8 + 240) (by omega)
    simp only [List.cons_append, List.nil_append, decodeFrom_cons]
    rw [first_four (by omega) (by omega),
      next_some (by dsimp only; omega) (by dsimp only; rw [tail]; split <;> omega)
        (by dsimp only; rw [tail]; split <;> omega)]
    dsimp only
    rw [next_some (by dsimp only; omega) (by dsimp only; rw [tail]; omega) (by dsimp only; rw [tail]; omega)]
    dsimp only
    rw [next_last rfl (by dsimp only; rw [tail]; omega) (by dsimp only; rw [tail]; omega)]
    dsimp only
    rw [head, tail, tail, tail, show (((code / 262144 % 8 + 240 - 240) * 64 + (code / 4096 % 64 + 128 - 128)) * 64 +
      (code / 64 % 64 + 128 - 128)) * 64 + (code % 64 + 128 - 128) = code by omega, same]
    rfl

theorem utf8Decode_utf8Encode (text : List Char) : utf8Decode (utf8Encode text) = text := by
  induction text with
  | nil => rfl
  | cons char text ih => exact (decodeFrom_char char (utf8Encode text)).trans (congrArg _ ih)

/-! ## Base64 -/

def digit (sextet : Nat) : Char :=
  if sextet < 26 then Char.ofNat (65 + sextet)
  else if sextet < 52 then Char.ofNat (71 + sextet)
  else if sextet < 62 then Char.ofNat (sextet - 4)
  else if sextet = 62 then '+' else '/'

/-- A character of the alphabet. -/
def isDigit64 (char : Char) : Bool := char.isAlphanum || char == '+' || char == '/'

def sextet (char : Char) : Nat :=
  if char.isUpper then char.toNat - 65
  else if char.isLower then char.toNat - 71
  else if char.isDigit then char.toNat + 4
  else if char = '+' then 62 else 63

def base64Encode : List UInt8 → List Char
  | [] => []
  | [one] => [digit (one.toNat / 4), digit (one.toNat % 4 * 16), '=', '=']
  | [one, two] =>
      [digit (one.toNat / 4), digit (one.toNat % 4 * 16 + two.toNat / 16),
        digit (two.toNat % 16 * 4), '=']
  | one :: two :: three :: octets =>
      digit (one.toNat / 4) :: digit (one.toNat % 4 * 16 + two.toNat / 16) ::
        digit (two.toNat % 16 * 4 + three.toNat / 64) :: digit (three.toNat % 64) ::
          base64Encode octets

/-- Digits that do not fill an octet are dropped. -/
def decodeSextets : List Nat → List UInt8
  | one :: two :: three :: four :: sextets =>
      UInt8.ofNat (one * 4 + two / 16) :: UInt8.ofNat (two % 16 * 16 + three / 4) ::
        UInt8.ofNat (three % 4 * 64 + four) :: decodeSextets sextets
  | [one, two, three] =>
      [UInt8.ofNat (one * 4 + two / 16), UInt8.ofNat (two % 16 * 16 + three / 4)]
  | [one, two] => [UInt8.ofNat (one * 4 + two / 16)]
  | _ => []

def base64Decode (text : List Char) : List UInt8 :=
  decodeSextets ((text.takeWhile isDigit64).map sextet)

theorem digit_spec : ∀ number < 64, isDigit64 (digit number) = true ∧ sextet (digit number) = number := by
  decide

theorem takeWhile_digit {number : Nat} (small : number < 64) (text : List Char) :
    (digit number :: text).takeWhile isDigit64 = digit number :: text.takeWhile isDigit64 :=
  List.takeWhile_cons_of_pos (digit_spec number small).1

theorem ofNat_octet {octet : UInt8} {number : Nat} (same : number = octet.toNat) :
    UInt8.ofNat number = octet := by
  rw [same, UInt8.ofNat_toNat]

theorem base64Decode_base64Encode (octets : List UInt8) :
    base64Decode (base64Encode octets) = octets := by
  have padding (text : List Char) : ('=' :: text).takeWhile isDigit64 = [] := rfl
  have value {number : Nat} (small : number < 64) := (digit_spec number small).2
  have small (octet : UInt8) : octet.toNat < 256 := octet.toNat_lt_size
  unfold base64Decode
  induction octets using base64Encode.induct with
  | case1 => rfl
  | case2 one =>
      have bound := small one
      simp only [base64Encode]
      rw [takeWhile_digit (by omega), takeWhile_digit (by omega), padding]
      simp only [List.map_cons, List.map_nil, decodeSextets]
      rw [value (by omega), value (by omega), @ofNat_octet one _ (by omega)]
  | case3 one two =>
      have bound := small one
      have bound := small two
      simp only [base64Encode]
      rw [takeWhile_digit (by omega), takeWhile_digit (by omega), takeWhile_digit (by omega), padding]
      simp only [List.map_cons, List.map_nil, decodeSextets]
      rw [value (by omega), value (by omega), value (by omega), @ofNat_octet one _ (by omega),
        @ofNat_octet two _ (by omega)]
  | case4 one two three octets ih =>
      have bound := small one
      have bound := small two
      have bound := small three
      simp only [base64Encode]
      rw [takeWhile_digit (by omega), takeWhile_digit (by omega), takeWhile_digit (by omega),
        takeWhile_digit (by omega)]
      simp only [List.map_cons, decodeSextets]
      rw [value (by omega), value (by omega), value (by omega), value (by omega), ih,
        @ofNat_octet one _ (by omega), @ofNat_octet two _ (by omega), @ofNat_octet three _ (by omega)]

/-- What encoded text looks like: digits with at most two marks behind. -/
theorem base64Encode_shape (octets : List UInt8) :
    ∃ digits count, base64Encode octets = digits ++ List.replicate count '=' ∧
      (∀ char ∈ digits, isDigit64 char = true) ∧ count ≤ 2 := by
  have isDigit {number : Nat} (small : number < 64) := (digit_spec number small).1
  have small (octet : UInt8) : octet.toNat < 256 := octet.toNat_lt_size
  induction octets using base64Encode.induct with
  | case1 => exact ⟨[], 0, rfl, fun _ listed => (nomatch listed), Nat.zero_le 2⟩
  | case2 one =>
      have bound := small one
      refine ⟨[_, _], 2, rfl, ?_, Nat.le_refl 2⟩
      simp only [List.forall_mem_cons]
      exact ⟨isDigit (by omega), isDigit (by omega), fun _ listed => nomatch listed⟩
  | case3 one two =>
      have bound := small one
      have bound := small two
      refine ⟨[_, _, _], 1, rfl, ?_, Nat.le_succ 1⟩
      simp only [List.forall_mem_cons]
      exact ⟨isDigit (by omega), isDigit (by omega), isDigit (by omega),
        fun _ listed => nomatch listed⟩
  | case4 one two three octets ih =>
      obtain ⟨digits, count, isText, allDigits, few⟩ := ih
      have bound := small one
      have bound := small two
      have bound := small three
      refine ⟨digit (one.toNat / 4) :: digit (one.toNat % 4 * 16 + two.toNat / 16) ::
        digit (two.toNat % 16 * 4 + three.toNat / 64) :: digit (three.toNat % 64) :: digits,
        count, ?_, ?_, few⟩
      · rw [base64Encode, isText]
        rfl
      · simp only [List.forall_mem_cons]
        exact ⟨isDigit (by omega), isDigit (by omega), isDigit (by omega), isDigit (by omega), allDigits⟩

end ThetaDirectory.Library.Octets
