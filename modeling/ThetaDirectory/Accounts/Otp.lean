import ThetaDirectory.Library.Interleaving
import ThetaDirectory.Library.Table

/-!
# One-time codes

The `OtpToken` rows of `models/token.js`, their `issue` and their `verify`, as calls that take
one turn for each operation they wait for.
-/

namespace ThetaDirectory.Accounts.Otp

open Library Library.Interleaving

/-- An `OtpToken` row. -/
structure OtpToken where
  token : String
  created_by : String
  created_on : Nat
  is_valid : Bool
  uid : String
  code : String
  method : String
  expires_at : Nat
  deriving DecidableEq, Repr

abbrev OtpTable : Type := Table OtpToken [OtpToken.token]

def OtpToken.isExpired (now : Nat) (row : OtpToken) : Bool := row.expires_at < now

/-- The row that a code matches.  Times are in milliseconds. -/
def findMatch (now : Nat) (rows : List OtpToken) (uid code : String) : Option OtpToken :=
  (rows.filter fun row => row.uid == uid).find? fun row =>
    row.is_valid && !row.isExpired now && row.code == code

/-- What the environment supplies to a turn. -/
structure Outcome where
  ok : Bool
  error : String
  now : Nat
  uuid : String
  code : String

inductive Issuing where
  | listing
  | clearing (rest : List OtpToken)
  | issued (row : OtpToken)
  | thrown (error : String)
  deriving DecidableEq, Repr

inductive Verifying where
  | matching
  | consuming (row : OtpToken)
  | verified (row : OtpToken)
  /-- No code matched. -/
  | rejected
  | thrown (error : String)
  deriving DecidableEq, Repr

def invalidate (row : OtpToken) : OtpToken := { row with is_valid := false }

/-- One turn of `issue`. -/
def Issuing.turn (outcome : Outcome) (uid method : String) (rows : OtpTable) :
    Issuing → OtpTable × Issuing
  | .listing =>
      if outcome.ok then
        (rows, .clearing (rows.rows.filter fun row => row.uid == uid && row.is_valid))
      else (rows, .thrown outcome.error)
  | .clearing (existing :: rest) =>
      if outcome.ok then
        match rows.update (fun row => row.token == existing.token) invalidate with
        | some rows => (rows, .clearing rest)
        | none => (rows, .thrown outcome.error)
      else (rows, .thrown outcome.error)
  | .clearing [] =>
      let row : OtpToken := ⟨outcome.uuid, uid, outcome.now, true, uid, outcome.code, method,
        outcome.now + 600000⟩
      if outcome.ok then
        match rows.insert row with
        | some rows => (rows, .issued row)
        | none => (rows, .thrown outcome.error)
      else (rows, .thrown outcome.error)
  | .issued row => (rows, .issued row)
  | .thrown error => (rows, .thrown error)

/-- One turn of `verify`. -/
def Verifying.turn (outcome : Outcome) (uid code : String) (rows : OtpTable) :
    Verifying → OtpTable × Verifying
  | .matching =>
      if outcome.ok then
        match findMatch outcome.now rows.rows uid code with
        | some row => (rows, .consuming row)
        | none => (rows, .rejected)
      else (rows, .thrown outcome.error)
  | .consuming found =>
      if outcome.ok then
        match rows.update (fun row => row.token == found.token) invalidate with
        | some rows => (rows, .verified (invalidate found))
        | none => (rows, .thrown outcome.error)
      else (rows, .thrown outcome.error)
  | .verified row => (rows, .verified row)
  | .rejected => (rows, .rejected)
  | .thrown error => (rows, .thrown error)

inductive Input where
  | issue (uid method : String)
  | verify (uid code : String)

inductive Call where
  | issue (uid method : String) (phase : Issuing)
  | verify (uid code : String) (phase : Verifying)
  deriving DecidableEq, Repr

def codes : Protocol OtpTable Call Input Outcome where
  call
    | .issue uid method, rows => (rows, .issue uid method .listing)
    | .verify uid code, rows => (rows, .verify uid code .matching)
  turn outcome rows
    | .issue uid method phase =>
        let (rows, next) := phase.turn outcome uid method rows
        (rows, .issue uid method next)
    | .verify uid code phase =>
        let (rows, next) := phase.turn outcome uid code rows
        (rows, .verify uid code next)

def start (rows : OtpTable) : Pool OtpTable Call := ⟨rows, []⟩

end ThetaDirectory.Accounts.Otp
