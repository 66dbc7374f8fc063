import Mathlib.Data.Fin.Basic
import ThetaDirectory.Library.Delimited

/-!
# Numbers as texts

The texts of natural numbers, and those that `Number::toString` of ECMAScript gives finite
numbers: by the shortest decimal digits that name a number, with an exponent outside a range.
-/

namespace ThetaDirectory.Library.Numerals

/-! ## Natural numbers -/

theorem notMem_toString {char : Char} (other : char.isDigit = false) (number : Nat) :
    char ∉ (toString number).toList := by
  intro member
  rw [Nat.toString_eq_repr, Nat.toList_repr] at member
  rw [Nat.isDigit_of_mem_toDigits (by decide) (by decide) member] at other
  cases other

theorem toString_inj {left right : Nat} : toString left = toString right ↔ left = right := by
  refine ⟨fun same => ?_, congrArg toString⟩
  rw [Nat.toString_eq_repr, Nat.toString_eq_repr, ← String.toList_inj, Nat.toList_repr,
    Nat.toList_repr] at same
  have read := congrArg (fun digits => Nat.ofDigitChars 10 digits 0) same
  simpa only [Nat.ofDigitChars_toDigits (by decide : 1 < 10) (by decide : 10 ≤ 10)] using read

/-! ## Finite numbers -/

/-- The number `0.digits × 10 ^ point`, by digits that neither begin nor end with a zero. -/
structure Decimal where
  digits : List (Fin 10)
  point : Int
  nonempty : digits ≠ []
  first : ∀ digit ∈ digits.head?, digit ≠ 0
  last : ∀ digit ∈ digits.getLast?, digit ≠ 0
  deriving DecidableEq

/-- The finite numbers; the two zeros are one. -/
inductive Number where
  | zero
  | signed (negative : Bool) (decimal : Decimal)
  deriving DecidableEq

def digitChar (digit : Fin 10) : Char := Char.ofNat (48 + digit)

def exponent (power : Int) : List Char :=
  (if 0 ≤ power then '+' else '-') :: (toString power.natAbs).toList

def mantissa : List Char → List Char
  | first :: second :: rest => first :: '.' :: second :: rest
  | short => short

namespace Decimal

def chars (decimal : Decimal) : List Char := decimal.digits.map digitChar

def text (decimal : Decimal) : List Char :=
  let length : Int := decimal.digits.length
  if length ≤ decimal.point ∧ decimal.point ≤ 21 then
    decimal.chars ++ List.replicate (decimal.point - length).toNat '0'
  else if 0 < decimal.point ∧ decimal.point ≤ 21 then
    decimal.chars.take decimal.point.toNat ++ '.' :: decimal.chars.drop decimal.point.toNat
  else if -6 < decimal.point ∧ decimal.point ≤ 0 then
    '0' :: '.' :: (List.replicate (-decimal.point).toNat '0' ++ decimal.chars)
  else mantissa decimal.chars ++ 'e' :: exponent (decimal.point - 1)

end Decimal

namespace Number

def text : Number → List Char
  | zero => ['0']
  | signed negative decimal => (if negative then ['-'] else []) ++ decimal.text

end Number

/-! ## Reading back -/

/-- The digits of a text without a sign, and the point or the text of the exponent. -/
def read (text : List Char) : List Char × (Int ⊕ List Char) :=
  match text.dropWhile (· != 'e') with
  | _ :: exponent => ((text.takeWhile (· != 'e')).filter (· != '.'), .inr exponent)
  | [] =>
      let whole := text.takeWhile (· != '.')
      match text.dropWhile (· != '.') with
      | _ :: fraction =>
          if whole = ['0'] then
            (fraction.dropWhile (· == '0'), .inl (-(fraction.takeWhile (· == '0')).length))
          else (whole ++ fraction, .inl whole.length)
      | [] => (text.rdropWhile (· == '0'), .inl text.length)

theorem digitChar_inj {digit other : Fin 10} : digitChar digit = digitChar other ↔ digit = other := by
  revert digit other
  decide

variable {decimal other : Decimal}

theorem digitChar_spec (digit : Fin 10) : digitChar digit ≠ 'e' ∧ digitChar digit ≠ '.' ∧
    digitChar digit ≠ '-' ∧ (digitChar digit).isDigit = true := by
  revert digit
  decide

theorem mem_chars {char : Char} (member : char ∈ decimal.chars) :
    char ≠ 'e' ∧ char ≠ '.' ∧ char ≠ '-' ∧ char.isDigit = true := by
  obtain ⟨digit, -, rfl⟩ := List.mem_map.mp member
  exact digitChar_spec digit

theorem read_exponent {front back : List Char} (free : ∀ char ∈ front, (char != 'e') = true) :
    read (front ++ 'e' :: back) = (front.filter (· != '.'), .inr back) := by
  unfold read
  rw [Delimited.dropWhile_append_mark free rfl, Delimited.takeWhile_append_mark free rfl]

theorem read_point {front back : List Char} (free : ∀ char ∈ front ++ '.' :: back, (char != 'e') = true)
    (whole : ∀ char ∈ front, (char != '.') = true) :
    read (front ++ '.' :: back) =
      if front = ['0'] then
        (back.dropWhile (· == '0'), .inl (-(back.takeWhile (· == '0')).length))
      else (front ++ back, .inl front.length) := by
  unfold read
  rw [List.dropWhile_eq_nil_iff.mpr free, Delimited.dropWhile_append_mark whole rfl,
    Delimited.takeWhile_append_mark whole rfl]

theorem read_whole {text : List Char}
    (free : ∀ char ∈ text, (char != 'e') = true ∧ (char != '.') = true) :
    read text = (text.rdropWhile (· == '0'), .inl text.length) := by
  unfold read
  rw [List.dropWhile_eq_nil_iff.mpr fun char member => (free char member).1,
    List.dropWhile_eq_nil_iff.mpr fun char member => (free char member).2]

/-- What can be read off of the text of a decimal. -/
def Decimal.read (decimal : Decimal) : List Char × (Int ⊕ List Char) :=
  (decimal.chars, if -6 < decimal.point ∧ decimal.point ≤ 21 then .inl decimal.point
    else .inr (exponent (decimal.point - 1)))

theorem digitChar_ne_zero {digit : Fin 10} (nonzero : digit ≠ 0) : (digitChar digit == '0') = false :=
  beq_eq_false_iff_ne.mpr fun same => nonzero (@digitChar_inj digit 0 |>.mp same)

theorem exists_first (decimal : Decimal) :
    ∃ digit rest, decimal.chars = digitChar digit :: rest ∧ (digitChar digit == '0') = false := by
  cases same : decimal.digits with
  | nil => exact absurd same decimal.nonempty
  | cons digit rest =>
      have nonzero : digit ≠ 0 := decimal.first digit (by rw [same]; rfl)
      exact ⟨digit, rest.map digitChar, congrArg (List.map digitChar) same, digitChar_ne_zero nonzero⟩

theorem exists_last (decimal : Decimal) :
    ∃ front digit, decimal.chars = front ++ [digitChar digit] ∧ (digitChar digit == '0') = false := by
  have split := List.dropLast_append_getLast decimal.nonempty
  refine ⟨decimal.digits.dropLast.map digitChar, decimal.digits.getLast decimal.nonempty, ?_, ?_⟩
  · apply (congrArg (List.map digitChar) split).symm.trans
    rw [List.map_append]
    rfl
  · exact digitChar_ne_zero (decimal.last _ (List.getLast?_eq_getLast_of_ne_nil decimal.nonempty))

theorem length_chars (decimal : Decimal) : decimal.chars.length = decimal.digits.length :=
  List.length_map _

theorem length_pos (decimal : Decimal) : 0 < decimal.digits.length :=
  List.length_pos_iff.mpr decimal.nonempty

theorem plain_chars (char : Char) (member : char ∈ decimal.chars) :
    (char != 'e') = true ∧ (char != '.') = true :=
  ⟨bne_iff_ne.mpr (mem_chars member).1, bne_iff_ne.mpr (mem_chars member).2.1⟩

theorem plain_replicate (count : Nat) (char : Char) (member : char ∈ List.replicate count '0') :
    (char != 'e') = true ∧ (char != '.') = true := by
  rw [List.eq_of_mem_replicate member]
  decide

theorem rdropWhile_zeros {front : List Char} {count : Nat} {char : Char}
    (stops : (char == '0') = false) :
    (front ++ [char] ++ List.replicate count '0').rdropWhile (· == '0') = front ++ [char] := by
  induction count with
  | zero =>
      rw [List.replicate_zero, List.append_nil]
      exact List.rdropWhile_concat_neg _ _ _ (by simp [stops])
  | succ count ih =>
      rw [List.replicate_succ', ← List.append_assoc, List.rdropWhile_concat_pos _ _ _ rfl]
      exact ih

theorem filter_mantissa (decimal : Decimal) :
    (mantissa decimal.chars).filter (· != '.') = decimal.chars := by
  have plain : decimal.chars.filter (· != '.') = decimal.chars :=
    List.filter_eq_self.mpr fun char member => (plain_chars char member).2
  match same : decimal.chars with
  | [] | [_] =>
      rw [same] at plain
      exact plain
  | first :: second :: rest =>
      rw [same] at plain
      have one : (first != '.') = true := by
        exact (plain_chars first (by rw [same]; exact List.mem_cons_self)).2
      have keeps (back : List Char) :
          (first :: back).filter (· != '.') = first :: back.filter (· != '.') := by
        rw [List.filter_cons, if_pos one]
      have drops : ('.' :: second :: rest).filter (· != '.') = (second :: rest).filter (· != '.') :=
        List.filter_cons_of_neg (by decide)
      rw [keeps] at plain
      rw [mantissa, keeps, drops, plain]

theorem mem_mantissa {text : List Char} {char : Char} (member : char ∈ mantissa text) :
    char ∈ text ∨ char = '.' := by
  match text with
  | [] | [_] => exact Or.inl member
  | first :: second :: rest =>
      simp only [mantissa, List.mem_cons] at member ⊢
      tauto

theorem read_text (decimal : Decimal) : Numerals.read decimal.text = decimal.read := by
  have length := length_chars decimal
  have positive := length_pos decimal
  unfold Decimal.text Decimal.read
  dsimp only
  split
  · rename_i whole
    obtain ⟨front, digit, last, stops⟩ := exists_last decimal
    rw [read_whole, if_pos (by omega)]
    · have digits : (decimal.chars ++ List.replicate (decimal.point - decimal.digits.length).toNat
          '0').rdropWhile (· == '0') = decimal.chars := by
        rw [last]
        exact rdropWhile_zeros stops
      have count : ((decimal.chars ++ List.replicate (decimal.point - decimal.digits.length).toNat
          '0').length : Int) = decimal.point := by
        rw [List.length_append, List.length_replicate]
        omega
      rw [digits, count]
    · intro char member
      exact (List.mem_append.mp member).elim (plain_chars char) (plain_replicate _ char)
  · rename_i notWhole
    split
    · rename_i inside
      obtain ⟨digit, rest, first, starts⟩ := exists_first decimal
      have split : decimal.chars.take decimal.point.toNat ++ decimal.chars.drop decimal.point.toNat =
          decimal.chars := List.take_append_drop _ _
      have plain : ∀ char ∈ decimal.chars.take decimal.point.toNat, (char != '.') = true :=
        fun char member => (plain_chars char (List.mem_of_mem_take member)).2
      rw [read_point _ plain, if_neg, if_pos (by omega), split, List.length_take]
      · have count : ((min decimal.point.toNat decimal.chars.length : Nat) : Int) = decimal.point := by
          omega
        rw [count]
      · intro zero
        have cut : decimal.point.toNat = (decimal.point.toNat - 1) + 1 := by omega
        rw [first, cut, List.take_succ_cons] at zero
        rw [(List.cons.inj zero).1] at starts
        cases starts
      · intro char member
        rcases List.mem_append.mp member with before | here
        · exact (plain_chars char (List.mem_of_mem_take before)).1
        · rcases List.mem_cons.mp here with rfl | behind
          · rfl
          · exact (plain_chars char (List.mem_of_mem_drop behind)).1
    · rename_i notInside
      split
      · rename_i small
        obtain ⟨digit, rest, first, starts⟩ := exists_first decimal
        have zeros : ∀ char ∈ List.replicate (-decimal.point).toNat '0', (char == '0') = true :=
          fun char member => beq_iff_eq.mpr (List.eq_of_mem_replicate member)
        have plain : ∀ char ∈ ['0'], (char != '.') = true := List.all_eq_true.mp (by decide)
        have free : ∀ char ∈ ['0'] ++ '.' :: (List.replicate (-decimal.point).toNat '0' ++
            decimal.chars), (char != 'e') = true := by
          intro char member
          rcases List.mem_append.mp member with zero | behind
          · rw [List.mem_singleton.mp zero]
            decide
          · rcases List.mem_cons.mp behind with rfl | later
            · decide
            · exact (List.mem_append.mp later).elim (fun zero => (plain_replicate _ char zero).1)
                fun own => (plain_chars char own).1
        have text : '0' :: '.' :: (List.replicate (-decimal.point).toNat '0' ++ decimal.chars) =
            ['0'] ++ '.' :: (List.replicate (-decimal.point).toNat '0' ++ decimal.chars) := rfl
        rw [text, read_point free plain, if_pos rfl, if_pos (by omega), first,
          Delimited.dropWhile_append_mark zeros starts, Delimited.takeWhile_append_mark zeros starts,
          List.length_replicate]
        have count : (-((-decimal.point).toNat : Int)) = decimal.point := by omega
        rw [count]
      · rename_i notSmall
        rw [read_exponent, filter_mantissa, if_neg (by omega)]
        intro char member
        rcases mem_mantissa member with own | rfl
        · exact (plain_chars char own).1
        · rfl

theorem exponent_inj {power other : Int} (same : exponent power = exponent other) :
    power = other := by
  obtain ⟨sign, digits⟩ := List.cons.inj same
  have size : power.natAbs = other.natAbs := toString_inj.mp (String.toList_inj.mp digits)
  by_cases left : 0 ≤ power
  · by_cases right : 0 ≤ other
    · omega
    · rw [if_pos left, if_neg right] at sign
      cases sign
  · by_cases right : 0 ≤ other
    · rw [if_neg left, if_pos right] at sign
      cases sign
    · omega

theorem Decimal.text_inj (same : decimal.text = other.text) : decimal = other := by
  have readings : decimal.read = other.read := by rw [← read_text, ← read_text, same]
  obtain ⟨chars, points⟩ := Prod.mk.inj readings
  have digits : decimal.digits = other.digits :=
    List.map_injective_iff.mpr (fun _ _ => digitChar_inj.mp) chars
  have point : decimal.point = other.point := by
    split at points
    · split at points
      · exact Sum.inl.inj points
      · cases points
    · split at points
      · cases points
      · have power := exponent_inj (Sum.inr.inj points)
        omega
  cases decimal
  cases other
  cases digits
  cases point
  rfl

/-! ## Signs -/

/-- The characters of a number's text. -/
def isNumeral (char : Char) : Bool := char.isDigit || char ∈ ['.', 'e', '+', '-']

theorem mem_exponent {power : Int} {char : Char} (member : char ∈ exponent power) :
    isNumeral char = true := by
  rcases List.mem_cons.mp member with rfl | digit
  · split <;> rfl
  · cases numeral : char.isDigit with
    | true => simp [isNumeral, numeral]
    | false => exact absurd digit (notMem_toString numeral _)

theorem isNumeral_chars {char : Char} (member : char ∈ decimal.chars) : isNumeral char = true := by
  simp [isNumeral, (mem_chars member).2.2.2]

theorem Decimal.isNumeral_text {char : Char} (member : char ∈ decimal.text) :
    isNumeral char = true := by
  have zero {count : Nat} (listed : char ∈ List.replicate count '0') : isNumeral char = true := by
    rw [List.eq_of_mem_replicate listed]
    rfl
  unfold Decimal.text at member
  dsimp only at member
  split at member
  · exact (List.mem_append.mp member).elim isNumeral_chars zero
  · split at member
    · rcases List.mem_append.mp member with front | back
      · exact isNumeral_chars (List.mem_of_mem_take front)
      · rcases List.mem_cons.mp back with rfl | behind
        · rfl
        · exact isNumeral_chars (List.mem_of_mem_drop behind)
    · split at member
      · rcases List.mem_cons.mp member with rfl | back
        · rfl
        · rcases List.mem_cons.mp back with rfl | behind
          · rfl
          · exact (List.mem_append.mp behind).elim zero isNumeral_chars
      · rcases List.mem_append.mp member with front | back
        · rcases mem_mantissa front with own | rfl
          · exact isNumeral_chars own
          · rfl
        · rcases List.mem_cons.mp back with rfl | behind
          · rfl
          · exact mem_exponent behind

/-- A text without a sign begins with a digit. -/
theorem Decimal.exists_head (decimal : Decimal) : ∃ char rest, decimal.text = char :: rest ∧
    char.isDigit = true := by
  obtain ⟨digit, rest, first, -⟩ := exists_first decimal
  have own : (digitChar digit).isDigit = true := (digitChar_spec digit).2.2.2
  unfold Decimal.text
  dsimp only
  rw [first]
  split
  · exact ⟨digitChar digit, _, rfl, own⟩
  · split
    · rename_i inside
      have cut : decimal.point.toNat = (decimal.point.toNat - 1) + 1 := by omega
      rw [cut]
      exact ⟨digitChar digit, _, rfl, own⟩
    · split
      · exact ⟨'0', _, rfl, rfl⟩
      · cases rest with
        | nil => exact ⟨digitChar digit, _, rfl, own⟩
        | cons second rest => exact ⟨digitChar digit, _, rfl, own⟩

theorem Decimal.text_ne_zero (decimal : Decimal) : decimal.text ≠ ['0'] := by
  intro same
  have reading := congrArg Prod.fst (read_text decimal)
  rw [same] at reading
  obtain ⟨digit, rest, first, -⟩ := exists_first decimal
  change [] = decimal.chars at reading
  rw [first] at reading
  cases reading

namespace Number

theorem isNumeral_text {number : Number} {char : Char} (member : char ∈ number.text) :
    isNumeral char = true := by
  cases number with
  | zero =>
      rw [List.mem_singleton.mp member]
      rfl
  | signed negative decimal =>
      rcases List.mem_append.mp member with sign | own
      · split at sign
        · rw [List.mem_singleton.mp sign]
          rfl
        · cases sign
      · exact decimal.isNumeral_text own

theorem text_ne_nil (number : Number) : number.text ≠ [] := by
  cases number with
  | zero => exact List.cons_ne_nil _ _
  | signed negative decimal =>
      obtain ⟨char, rest, text, -⟩ := decimal.exists_head
      simp [Number.text, text]

/-- Different numbers have different texts. -/
theorem text_inj {number other : Number} (same : number.text = other.text) : number = other := by
  -- a sign, or a digit without one
  have unsigned (decimal : Decimal) (rest : List Char) : decimal.text ≠ '-' :: rest := by
    intro equal
    obtain ⟨char, back, text, digit⟩ := decimal.exists_head
    rw [text] at equal
    rw [(List.cons.inj equal).1] at digit
    cases digit
  cases number with
  | zero =>
      cases other with
      | zero => rfl
      | signed negative decimal =>
          cases negative with
          | true => cases same
          | false => exact absurd same.symm decimal.text_ne_zero
  | signed negative decimal =>
      cases other with
      | zero =>
          cases negative with
          | true => cases same
          | false => exact absurd same decimal.text_ne_zero
      | signed sign other =>
          cases negative with
          | true =>
              cases sign with
              | true => rw [Decimal.text_inj (List.cons.inj same).2]
              | false => exact absurd same.symm (unsigned other _)
          | false =>
              cases sign with
              | true => exact absurd same (unsigned decimal _)
              | false => rw [Decimal.text_inj same]

end Number

end ThetaDirectory.Library.Numerals
