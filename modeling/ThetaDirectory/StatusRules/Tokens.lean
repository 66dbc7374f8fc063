import ThetaDirectory.Library.Precedence
import ThetaDirectory.Text

/-!
# Tokens of status-rule conditions

`tokenize` of `services/scheduler.js`.  A number stays the text it is written as.
-/

namespace ThetaDirectory.StatusRules

open Library

inductive Operator where
  | not
  | less
  | lessEqual
  | greater
  | greaterEqual
  | equal
  | notEqual
  | and
  | or
  deriving DecidableEq, Repr

namespace Operator

def text : Operator → String
  | not => "!"
  | less => "<"
  | lessEqual => "<="
  | greater => ">"
  | greaterEqual => ">="
  | equal => "=="
  | notEqual => "!="
  | and => "&&"
  | or => "||"

def precedence : Operator → Nat
  | not => 5
  | less | lessEqual | greater | greaterEqual => 4
  | equal | notEqual => 3
  | and => 2
  | or => 1

/-- `RIGHT_ASSOC`. -/
def isRightAssoc : Operator → Bool
  | not => true
  | _ => false

end Operator

/-- A value, or a path to one; the literal `null` is `none`. -/
inductive Operand where
  | number (text : String)
  | text (value : String)
  | literal (value : Option Bool)
  | path (parts : List String)
  deriving DecidableEq, Repr

abbrev Token := Precedence.Symbol Operand Operator

def contextRoots : List String :=
  ["metadata", "telemetry", "plugin", "environment", "bubbled_environment"]

def twoCharOperator : Char → Char → Option Operator
  | '=', '=' => some .equal
  | '!', '=' => some .notEqual
  | '<', '=' => some .lessEqual
  | '>', '=' => some .greaterEqual
  | '&', '&' => some .and
  | '|', '|' => some .or
  | _, _ => none

def oneCharOperator : Char → Option Operator
  | '<' => some .less
  | '>' => some .greater
  | '!' => some .not
  | _ => none

/-- What an escaped character stands for. -/
def unescape : Char → Char
  | 'n' => '\n'
  | 't' => '\t'
  | char => char

/-- The value of a string literal and what follows it.  The flag is set behind a backslash. -/
def readString (quote : Char) : Bool → List Char → Except String (List Char × List Char)
  | false, [] => .error "Unterminated string literal"
  | true, [] => .error "Unterminated string escape"
  | false, char :: rest =>
      if char = quote then .ok ([], rest)
      else if char = '\\' then readString quote true rest
      else (readString quote false rest).map fun read => (char :: read.1, read.2)
  | true, char :: rest => (readString quote false rest).map fun read => (unescape char :: read.1, read.2)

def readNumber (digits : List Char) : Except String Token :=
  if 1 < digits.count '.' then .error "Invalid number"
  else .ok (.operand (.number (String.ofList digits)))

def readIdent (ident : String) : Except String Token :=
  let parts := splitAt '.' ident
  let root := parts.headD ""
  if parts.any (· == "") then .error ("Invalid property path: " ++ ident)
  else if ident = "true" then .ok (.operand (.literal (some true)))
  else if ident = "false" then .ok (.operand (.literal (some false)))
  else if ident = "null" then .ok (.operand (.literal none))
  else if contextRoots.contains root then .ok (.operand (.path parts))
  else .error ("Unknown context root \"" ++ root ++ "\" (expected one of: " ++
    ", ".intercalate contextRoots ++ ")")

def isIdentStart (char : Char) : Bool := char.isAlpha || char == '_'

def isIdentChar (char : Char) : Bool := char.isAlphanum || char == '_' || char == '.'

def isNumberChar (char : Char) : Bool := char.isDigit || char == '.'

/-- The token that starts with a character, if any, and what follows it. -/
def nextToken (char : Char) (rest : List Char) : Except String (Option Token × List Char) :=
  if isSpace char then .ok (none, rest)
  else if char = '(' then .ok (some .left, rest)
  else if char = ')' then .ok (some .right, rest)
  else
    match rest.head?.bind (twoCharOperator char) with
    | some operator => .ok (some (.operator operator), rest.tail)
    | none =>
        match oneCharOperator char with
        | some operator => .ok (some (.operator operator), rest)
        | none =>
            if char = '"' ∨ char = '\'' then
              (readString char false rest).map fun read =>
                (some (.operand (.text (String.ofList read.1))), read.2)
            else if char.isDigit || char == '.' && rest.head?.any Char.isDigit then
              (readNumber (char :: rest.takeWhile isNumberChar)).map fun token =>
                (some token, rest.dropWhile isNumberChar)
            else if isIdentStart char then
              (readIdent (String.ofList (char :: rest.takeWhile isIdentChar))).map fun token =>
                (some token, rest.dropWhile isIdentChar)
            else .error ("Unexpected character: " ++ String.singleton char)

/-- The tokens of a text; every round takes a character at least. -/
def tokenizeFrom : Nat → List Char → Except String (List Token)
  | _, [] => .ok []
  | 0, _ :: _ => .error "Unexpected end"
  | rounds + 1, char :: rest =>
      (nextToken char rest).bind fun read =>
        (tokenizeFrom rounds read.2).map fun tokens => read.1.toList ++ tokens

def tokenize (expression : String) : Except String (List Token) :=
  tokenizeFrom expression.length expression.toList

/-! ## Enough rounds -/

theorem length_of_map {β γ : Type} {result : Except String β} {change : β → γ × List Char}
    {bound : Nat} (short : ∀ found, result = .ok found → (change found).2.length ≤ bound) {token : γ}
    {rest : List Char} (read : result.map change = .ok (token, rest)) : rest.length ≤ bound := by
  cases result with
  | error error => cases read
  | ok found =>
      have least := short found rfl
      rw [Except.ok.inj read] at least
      exact least

theorem readString_length {quote : Char} {escaped : Bool} {chars value rest : List Char}
    (read : readString quote escaped chars = .ok (value, rest)) : rest.length ≤ chars.length := by
  induction chars generalizing escaped value rest with
  | nil => cases escaped <;> cases read
  | cons char chars ih =>
      apply Nat.le_succ_of_le
      cases escaped with
      | true =>
          rw [readString] at read
          exact length_of_map (fun found inner => @ih false found.1 found.2 inner) read
      | false =>
          rw [readString] at read
          split at read
          · cases read
            exact Nat.le_refl _
          split at read
          · exact ih read
          · exact length_of_map (fun found inner => @ih false found.1 found.2 inner) read

/-- A token takes no more than is there. -/
theorem nextToken_length {char : Char} {chars rest : List Char} {token : Option Token}
    (read : nextToken char chars = .ok (token, rest)) : rest.length ≤ chars.length := by
  unfold nextToken at read
  split at read
  · cases read
    exact Nat.le_refl _
  split at read
  · cases read
    exact Nat.le_refl _
  split at read
  · cases read
    exact Nat.le_refl _
  split at read
  · cases read
    exact (List.length_tail).trans_le (Nat.sub_le _ _)
  split at read
  · cases read
    exact Nat.le_refl _
  split at read
  · refine length_of_map (fun found inner => ?_) read
    exact readString_length inner
  split at read
  · exact length_of_map (fun _ _ => List.length_dropWhile_le _ _) read
  split at read
  · exact length_of_map (fun _ _ => List.length_dropWhile_le _ _) read
  · cases read

/-- More rounds than characters change nothing. -/
theorem tokenizeFrom_eq {rounds more : Nat} {chars : List Char} (enough : chars.length ≤ rounds)
    (also : chars.length ≤ more) : tokenizeFrom more chars = tokenizeFrom rounds chars := by
  induction rounds generalizing more chars with
  | zero =>
      rw [List.length_eq_zero_iff.mp (Nat.le_zero.mp enough)]
      cases more <;> rfl
  | succ rounds ih =>
      cases chars with
      | nil => cases more <;> rfl
      | cons char rest =>
          cases more with
          | zero => exact absurd also (Nat.not_succ_le_zero _)
          | succ more =>
              rw [tokenizeFrom, tokenizeFrom]
              cases read : nextToken char rest with
              | error error => rfl
              | ok found =>
                  have short := nextToken_length read
                  have same := @ih more found.2 (short.trans (Nat.le_of_succ_le_succ enough))
                    (short.trans (Nat.le_of_succ_le_succ also))
                  change (tokenizeFrom more found.2).map _ = (tokenizeFrom rounds found.2).map _
                  rw [same]

end ThetaDirectory.StatusRules
