import Mathlib.Algebra.Order.Field.Rat
import Mathlib.Data.Rat.Floor
import ThetaDirectory.Text

/-!
# JavaScript numbers

The finite number, a double, that `Number` reads of a text.
-/

namespace ThetaDirectory

def digitOf (char : Char) : Option Nat :=
  if char.isDigit then some (char.toNat - 48)
  else if 'a' ≤ char ∧ char ≤ 'f' then some (char.toNat - 87)
  else if 'A' ≤ char ∧ char ≤ 'F' then some (char.toNat - 55)
  else none

/-- One or more digits. -/
def readDigits (base : Nat) (text : List Char) : Option Nat :=
  if text = [] then none
  else
    text.foldlM (fun number char =>
      (digitOf char).bind fun digit => if digit < base then some (number * base + digit) else none) 0

def readExponent : List Char → Option Int
  | '+' :: digits => (readDigits 10 digits).map Int.ofNat
  | '-' :: digits => (readDigits 10 digits).map fun power => -Int.ofNat power
  | digits => (readDigits 10 digits).map Int.ofNat

/-- `StrUnsignedDecimalLiteral`, but for `Infinity`. -/
def readDecimal (text : List Char) : Option ℚ :=
  let mantissa := text.takeWhile fun char => char ≠ 'e' && char ≠ 'E'
  let whole := mantissa.takeWhile (· ≠ '.')
  let fraction := (mantissa.dropWhile (· ≠ '.')).drop 1
  let power :=
    match text.dropWhile fun char => char ≠ 'e' && char ≠ 'E' with
    | [] => some 0
    | _ :: digits => readExponent digits
  match readDigits 10 (whole ++ fraction), power with
  | some number, some power => some (number * 10 ^ (power - fraction.length))
  | _, _ => none

def roundHalfEven (value : ℚ) : Int :=
  let below := ⌊value⌋
  let rest := value - below
  if rest < 1 / 2 then below
  else if 1 / 2 < rest then below + 1
  else if below % 2 = 0 then below else below + 1

/-- The nearest double of a number that is not negative. -/
def nearestDouble (value : ℚ) : Option ℚ :=
  if value = 0 then some 0
  else
    let guess : Int := value.num.natAbs.log2 - value.den.log2
    let top := if value < 2 ^ guess then guess - 1 else guess
    let unit := max (top - 52) (-1074)
    let double : ℚ := roundHalfEven (value / 2 ^ unit) * 2 ^ unit
    if double < 2 ^ 1024 then some double else none

/-- `Number(text)`, if that is finite. -/
def finiteNumber (text : String) : Option ℚ :=
  match (trim text).toList with
  | [] => some 0
  | '-' :: rest => ((readDecimal rest).bind nearestDouble).map fun value => -value
  | '+' :: rest => (readDecimal rest).bind nearestDouble
  | '0' :: mark :: rest =>
      if mark = 'x' ∨ mark = 'X' then (readDigits 16 rest).bind fun number => nearestDouble number
      else if mark = 'o' ∨ mark = 'O' then (readDigits 8 rest).bind fun number => nearestDouble number
      else if mark = 'b' ∨ mark = 'B' then (readDigits 2 rest).bind fun number => nearestDouble number
      else (readDecimal ('0' :: mark :: rest)).bind nearestDouble
  | rest => (readDecimal rest).bind nearestDouble

example : [finiteNumber "01500", finiteNumber " 1.5e3 ", finiteNumber "0x5dc", finiteNumber "1500a"] =
    [some 1500, some 1500, some 1500, none] := by decide +kernel

end ThetaDirectory
