import ThetaDirectory.Accounts.Invites
import ThetaDirectory.Accounts.Otp

/-!
# Invites and codes are used once

Both are looked up first and marked as used after a wait.  How often one is used in a run in
which nobody passes its check while another use of it is under way.
-/

namespace ThetaDirectory.Accounts

open Library Library.Interleaving

/-! ## Invites -/

/-- The valid token that a request has read, until it is consumed. -/
def Phase.read : Phase → Option InviteToken
  | .inviting token | .suggesting token | .checkingMail token _ | .checkingMobile token _
  | .adding token _ | .reading token _ | .verifying token _ | .consuming token _ => some token
  | _ => none

def Phase.consumed : Phase → Bool
  | .finishing _ | .created _ | .broken _ true => true
  | _ => false

/-- An account has been made. -/
def Phase.made : Phase → Bool
  | .reading _ _ | .verifying _ _ | .consuming _ _ | .finishing _ | .created _ | .broken _ _ => true
  | _ => false

/-- The check of the token was passed, and an account has been made or may still be. -/
def Phase.engaged : Phase → Bool
  | .fetching | .refused _ => false
  | _ => true

def Call.made (token : String) : Call → Bool
  | .request application phase => application.token == token && phase.made
  | .done => false

def Call.engaged (token : String) : Call → Bool
  | .request application phase => application.token == token && phase.engaged
  | .done => false

/-- The request uses the token and has not consumed it. -/
def Call.opens (token : String) : Call → Bool
  | .request application phase =>
      application.token == token && phase.engaged && !phase.consumed
  | .done => false

/-- A request passes the check of the token only when no other one has passed it without
consuming the token or giving up before it made an account. -/
def Alone (token : String) (event : Event Input Outcome) (pool : Pool Directory Call) : Prop :=
  match event with
  | .turn index outcome =>
      match pool.calls[index]? with
      | some (.request application .fetching) =>
          application.token = token → outcome.ok = true →
            (pool.shared.invites.rows.find? fun row => row.token == token).any
              application.admits = true →
            ∀ call ∈ pool.calls, call.opens token = false
      | _ => True
  | .call _ => True

instance (token : String) (event : Event Input Outcome) (pool : Pool Directory Call) :
    Decidable (Alone token event pool) := by
  unfold Alone
  split
  · split <;> infer_instance
  · infer_instance

/-- No invite is deleted or becomes valid again. -/
def Lasts (directory after : Directory) : Prop :=
  Table.Later InviteToken.token InviteToken.is_valid directory.invites after.invites

/-- The token in use is stored, and one that was consumed is stored as used. -/
def Call.Own (directory : Directory) : Call → Prop
  | .request application phase =>
      (∀ token ∈ phase.read, token.token = application.token ∧
        ∃ row ∈ directory.invites.rows, row.token = application.token) ∧
      (phase.consumed = true →
        ∃ row ∈ directory.invites.rows, row.token = application.token ∧ row.is_valid = false)
  | .done => True

theorem lasts_writeInvites {directory : Directory} {write : InviteTable → Option InviteTable}
    (lasts : ∀ after, write directory.invites = some after →
      Table.Later InviteToken.token InviteToken.is_valid directory.invites after) :
    Lasts directory (directory.writeInvites write) := by
  unfold Lasts Directory.writeInvites
  cases written : write directory.invites with
  | none => exact Table.Later.refl _
  | some after => exact lasts after written

theorem own_turn {application : Application} {phase : Phase} (outcome : Outcome)
    {directory : Directory} (own : Call.Own directory (.request application phase)) :
    Lasts directory (application.turn outcome directory phase).1 ∧
      Call.Own (application.turn outcome directory phase).1
        (.request application (application.turn outcome directory phase).2) := by
  have lasts : Lasts directory directory := Table.Later.refl _
  -- a phase that has read the same token, or none
  have goes : ∀ next : Phase, (∀ token ∈ next.read, token ∈ phase.read) →
      (next.consumed = true → phase.consumed = true) →
      Lasts directory directory ∧ Call.Own directory (.request application next) :=
    fun next reads consumed =>
      ⟨lasts, fun token read => own.1 token (reads token read), fun used => own.2 (consumed used)⟩
  have stops : ∀ next : Phase, next.read = none → next.consumed = false →
      Lasts directory directory ∧ Call.Own directory (.request application next) :=
    fun next none unused => goes next (fun token read => by rw [none] at read; cases read)
      fun used => by rw [unused] at used; cases used
  cases phase with
  | fetching =>
      simp only [Application.turn]
      split
      · split
        · rename_i token found
          have same := List.find?_some found
          split
          · refine ⟨lasts, fun read holds => ?_, fun used => by cases used⟩
            cases holds
            exact ⟨eq_of_beq same, token, List.mem_of_find?_eq_some found, eq_of_beq same⟩
          · exact stops _ rfl rfl
        · exact stops _ rfl rfl
      · exact stops _ rfl rfl
  | inviting token => exact goes _ (fun _ read => read) fun used => used
  | suggesting token | checkingMail token _ | checkingMobile token _ | reading token _
  | verifying token _ =>
      simp only [Application.turn]
      repeat' split
      all_goals first
        | exact goes _ (fun _ read => read) fun used => used
        | exact stops _ rfl rfl
  | adding token uid =>
      simp only [Application.turn]
      split
      · split
        · exact stops _ rfl rfl
        · exact ⟨lasts, own⟩
      · exact stops _ rfl rfl
  | consuming token uid =>
      obtain ⟨same, row, stored, names⟩ := own.1 token rfl
      simp only [Application.turn]
      split
      · split
        · rename_i invites updated
          refine ⟨Table.later_update updated (fun _ => ⟨rfl, fun _ => rfl⟩),
            fun _ read => (by cases read), fun _ => ⟨Application.claim uid row, ?_, names, rfl⟩⟩
          exact (Table.mem_update List.mem_cons_self updated).mpr
            (Or.inr ⟨row, stored, names.trans same.symm, rfl⟩)
        · exact stops _ rfl rfl
      · exact stops _ rfl rfl
  | finishing uid =>
      simp only [Application.turn]
      split
      · exact goes _ (fun _ read => (by cases read)) fun _ => rfl
      · exact goes _ (fun _ read => (by cases read)) fun _ => rfl
  | created uid | refused refusal => exact ⟨lasts, own⟩
  | broken refusal consumed => exact ⟨lasts, own⟩

theorem stable_signup : Stable signup (fun directory call => call.Own directory) Lasts where
  survives := by
    intro directory after call lasts own
    cases call with
    | done => trivial
    | request application phase =>
        refine ⟨fun token read => ⟨(own.1 token read).1, ?_⟩, fun used => ?_⟩
        · obtain ⟨row, stored, names⟩ := (own.1 token read).2
          obtain ⟨later, storedLater, same, -⟩ := lasts row stored
          exact ⟨later, storedLater, same.trans names⟩
        · obtain ⟨row, stored, names, unused⟩ := own.2 used
          obtain ⟨later, storedLater, same, stays⟩ := lasts row stored
          exact ⟨later, storedLater, same.trans names, stays unused⟩
  call := by
    intro input directory
    cases input with
    | addByInvite application =>
        exact ⟨Table.Later.refl _, fun _ read => (by cases read), fun used => (by cases used)⟩
    | invite token createdBy now groups =>
        exact ⟨lasts_writeInvites fun _ inserted => Table.later_insert inserted, trivial⟩
    | editInvite token patch =>
        exact ⟨lasts_writeInvites fun _ updated =>
          Table.later_update updated (fun _ => ⟨rfl, fun unused => unused⟩), trivial⟩
    | withdraw token =>
        exact ⟨lasts_writeInvites fun _ updated =>
          Table.later_update updated (fun _ => ⟨rfl, fun _ => rfl⟩), trivial⟩
    | setUsers users => exact ⟨Table.Later.refl _, trivial⟩
  turn := by
    intro outcome directory call own
    cases call with
    | done => exact ⟨Table.Later.refl _, trivial⟩
    | request application phase => exact own_turn outcome own

theorem opens_eq {token : String} {call : Call} (engaged : call.engaged token = true)
    (unopened : call.opens token = false) : ∃ application phase,
      call = .request application phase ∧ application.token = token ∧ phase.consumed = true := by
  cases call with
  | done => cases engaged
  | request application phase =>
      obtain ⟨same, inside⟩ := Bool.and_eq_true_iff.mp engaged
      refine ⟨application, phase, rfl, eq_of_beq same, ?_⟩
      change (application.token == token && phase.engaged && !phase.consumed) = false at unopened
      rw [same, inside] at unopened
      simpa using unopened

/-- A request is engaged by the check of its token. -/
theorem fetched_of_enters {token : String} {event : Event Input Outcome}
    {pool : Pool Directory Call} (enters : signup.Enters (Call.engaged token) event pool) :
    ∃ index outcome application row, event = .turn index outcome ∧
      pool.calls[index]? = some (.request application .fetching) ∧ application.token = token ∧
        outcome.ok = true ∧
        pool.shared.invites.rows.find? (fun stored => stored.token == token) = some row ∧
        application.admits row = true := by
  cases event with
  | call input =>
      cases input with
      | addByInvite application =>
          exact absurd (Bool.and_eq_true_iff.mp enters).2 Bool.false_ne_true
      | invite _ _ _ _ | editInvite _ _ | withdraw _ | setUsers _ => cases enters
  | turn index outcome =>
      obtain ⟨call, found, outside, inside⟩ := enters
      cases call with
      | done => cases inside
      | request application phase =>
          obtain ⟨same, engaged⟩ := Bool.and_eq_true_iff.mp inside
          have unengaged : phase.engaged = false := by
            change (application.token == token && phase.engaged) = false at outside
            rwa [same, Bool.true_and] at outside
          cases phase with
          | fetching =>
              rw [← eq_of_beq same]
              simp only at engaged
              split at engaged
              · split at engaged
                · split at engaged
                  · exact ⟨index, outcome, application, _, rfl, found, rfl, ‹_›, ‹_›, ‹_›⟩
                  · cases engaged
                · cases engaged
              · cases engaged
          | refused refusal => cases engaged
          | inviting _ | suggesting _ | checkingMail _ _ | checkingMobile _ _ | adding _ _
          | reading _ _ | verifying _ _ | consuming _ _ | finishing _ | created _ | broken _ _ =>
              cases unengaged

theorem engaged_of_made {token : String} {call : Call} (made : call.made token = true) :
    call.engaged token = true := by
  cases call with
  | done => cases made
  | request application phase =>
      obtain ⟨same, holds⟩ := Bool.and_eq_true_iff.mp made
      refine Bool.and_eq_true_iff.mpr ⟨same, ?_⟩
      cases phase <;> first | rfl | cases holds

theorem made_run {token : String} {invites : InviteTable} {users : List User}
    {events : List (Event Input Outcome)}
    (alone : ∀ step ∈ Runs.steps signup.apply events (start invites users),
      Alone token step.operation step.before) :
    ∀ step ∈ Runs.steps signup.apply events (start invites users),
      step.after.count (Call.made token) ≤ 1 := by
  intro step member
  apply Nat.le_trans (Pool.count_mono fun _ => engaged_of_made)
  apply count_run_le_one rfl ?_ step member
  intro step member enters call listed
  obtain ⟨index, outcome, application, row, turns, found, names, ok, stored, admits⟩ :=
    fetched_of_enters enters
  have unopened := alone step member
  rw [turns] at unopened
  simp only [Alone, found] at unopened
  have passes := unopened names ok (by rw [stored]; exact admits) call listed
  -- a request that has consumed the token would have left it invalid
  by_contra engaged
  obtain ⟨other, phase, rfl, same, consumed⟩ := opens_eq (Bool.not_eq_false _ ▸ engaged) passes
  have owned := stable_signup.run rfl step member _ listed
  obtain ⟨spent, storedSpent, namesSpent, invalid⟩ := owned.2 consumed
  have unique : spent = row := by
    refine Table.eq_of_column InviteToken.token List.mem_cons_self storedSpent
      (List.mem_of_find?_eq_some stored) ?_
    have here := List.find?_some stored
    exact (namesSpent.trans same).trans (eq_of_beq here).symm
  rw [Application.admits, ← unique, invalid] at admits
  exact absurd admits Bool.false_ne_true

/-! ## One-time codes -/

namespace Otp

/-- The code with this id was matched and will be marked as used. -/
def Call.opens (token : String) : Call → Bool
  | .verify _ _ (.consuming row) => row.token == token
  | _ => false

def Call.accepted (token : String) : Call → Bool
  | .verify _ _ (.verified row) => row.token == token
  | _ => false

def Call.engaged (token : String) (call : Call) : Bool := call.opens token || call.accepted token

/-- A verification matches the code only when no other one is about to mark it as used. -/
def Alone (token : String) (event : Event Input Outcome) (pool : Pool OtpTable Call) : Prop :=
  match event with
  | .turn index outcome =>
      match pool.calls[index]? with
      | some (.verify uid code .matching) =>
          outcome.ok = true →
            (findMatch outcome.now pool.shared.rows uid code).map OtpToken.token = some token →
              ∀ call ∈ pool.calls, call.opens token = false
      | _ => True
  | .call _ => True

instance (token : String) (event : Event Input Outcome) (pool : Pool OtpTable Call) :
    Decidable (Alone token event pool) := by
  unfold Alone
  split
  · split <;> infer_instance
  · infer_instance

/-- A code that was matched is stored, and one that was accepted is stored as used. -/
def Call.Own (rows : OtpTable) : Call → Prop
  | .verify _ _ (.consuming found) => ∃ row ∈ rows.rows, row.token = found.token
  | .verify _ _ (.verified found) =>
      ∃ row ∈ rows.rows, row.token = found.token ∧ row.is_valid = false
  | _ => True

theorem mem_of_findMatch {now : Nat} {rows : List OtpToken} {uid code : String} {row : OtpToken}
    (found : findMatch now rows uid code = some row) : row ∈ rows ∧ row.is_valid = true := by
  have member := List.mem_of_find?_eq_some found
  have matched := List.find?_some found
  simp only [Bool.and_eq_true] at matched
  exact ⟨(List.mem_filter.mp member).1, matched.1.1⟩

theorem stable_codes : Stable codes (fun rows call => call.Own rows)
    (Table.Later OtpToken.token OtpToken.is_valid) where
  survives := by
    intro rows after call lasts own
    cases call with
    | issue _ _ _ => trivial
    | verify uid code phase =>
        cases phase with
        | consuming found =>
            obtain ⟨row, stored, same⟩ := own
            obtain ⟨later, storedLater, names, -⟩ := lasts row stored
            exact ⟨later, storedLater, names.trans same⟩
        | verified found =>
            obtain ⟨row, stored, same, used⟩ := own
            obtain ⟨later, storedLater, names, stays⟩ := lasts row stored
            exact ⟨later, storedLater, names.trans same, stays used⟩
        | matching | rejected | thrown _ => trivial
  call := by
    intro input rows
    cases input <;> exact ⟨Table.Later.refl _, trivial⟩
  turn := by
    intro outcome rows call own
    have stays : Table.Later OtpToken.token OtpToken.is_valid rows rows := Table.Later.refl _
    cases call with
    | issue uid method phase =>
        refine ⟨?_, trivial⟩
        cases phase with
        | listing | issued _ | thrown _ =>
            simp only [codes, Issuing.turn]
            repeat' split
            all_goals exact stays
        | clearing rest =>
            cases rest with
            | nil =>
                simp only [codes, Issuing.turn]
                split
                · split
                  · exact Table.later_insert ‹_›
                  · exact stays
                · exact stays
            | cons existing rest =>
                simp only [codes, Issuing.turn]
                split
                · split
                  · rename_i updated
                    exact Table.later_update updated fun _ => ⟨rfl, fun _ => rfl⟩
                  · exact stays
                · exact stays
    | verify uid code phase =>
        cases phase with
        | matching =>
            simp only [codes, Verifying.turn]
            split
            · split
              · exact ⟨stays, _, (mem_of_findMatch ‹_›).1, rfl⟩
              · exact ⟨stays, trivial⟩
            · exact ⟨stays, trivial⟩
        | consuming found =>
            obtain ⟨row, stored, same⟩ := own
            simp only [codes, Verifying.turn]
            split
            · split
              · rename_i updated
                refine ⟨Table.later_update updated fun _ => ⟨rfl, fun _ => rfl⟩,
                  invalidate row, ?_, same, rfl⟩
                exact (Table.mem_update List.mem_cons_self updated).mpr
                  (Or.inr ⟨row, stored, same, rfl⟩)
              · exact ⟨stays, trivial⟩
            · exact ⟨stays, trivial⟩
        | verified _ | rejected | thrown _ => exact ⟨stays, own⟩

/-- A verification is engaged by its match. -/
theorem matched_of_enters {token : String} {event : Event Input Outcome}
    {pool : Pool OtpTable Call} (enters : codes.Enters (Call.engaged token) event pool) :
    ∃ index outcome uid code row, event = .turn index outcome ∧
      pool.calls[index]? = some (.verify uid code .matching) ∧ outcome.ok = true ∧
        findMatch outcome.now pool.shared.rows uid code = some row ∧ row.token = token := by
  cases event with
  | call input => cases input <;> cases enters
  | turn index outcome =>
      obtain ⟨call, found, outside, inside⟩ := enters
      cases call with
      | issue uid method phase => cases inside
      | verify uid code phase =>
          cases phase with
          | matching =>
              simp only [codes, Verifying.turn] at inside
              split at inside
              · split at inside
                · rename_i ok _ row matched
                  refine ⟨index, outcome, uid, code, row, rfl, found, ok, matched, ?_⟩
                  rcases Bool.or_eq_true_iff.mp inside with opens | accepted
                  · exact eq_of_beq opens
                  · cases accepted
                · cases inside
              · cases inside
          | consuming row =>
              simp only [codes, Verifying.turn] at inside
              split at inside
              · split at inside
                · -- it was engaged before, with the same row
                  have accepts : (row.token == token) = true := inside
                  have unopened : (row.token == token) = false := (Bool.or_eq_false_iff.mp outside).1
                  exact absurd (unopened.symm.trans accepts) Bool.false_ne_true
                · cases inside
              · cases inside
          | verified _ | rejected | thrown _ =>
              exact absurd (outside.symm.trans inside) Bool.false_ne_true

theorem engaged_of_accepted {token : String} {call : Call} (accepted : call.accepted token = true) :
    call.engaged token = true :=
  Bool.or_eq_true_iff.mpr (Or.inr accepted)

theorem accepted_run {token : String} {rows : OtpTable} {events : List (Event Input Outcome)}
    (alone : ∀ step ∈ Runs.steps codes.apply events (start rows),
      Alone token step.operation step.before) :
    ∀ step ∈ Runs.steps codes.apply events (start rows),
      step.after.count (Call.accepted token) ≤ 1 := by
  intro step member
  apply Nat.le_trans (Pool.count_mono fun _ => engaged_of_accepted)
  apply count_run_le_one rfl ?_ step member
  intro step member enters call listed
  obtain ⟨index, outcome, uid, code, row, turns, found, ok, matched, names⟩ :=
    matched_of_enters enters
  have unopened := alone step member
  rw [turns] at unopened
  simp only [Alone, found] at unopened
  refine Bool.or_eq_false_iff.mpr ⟨unopened ok (by rw [matched]; exact congrArg some names)
    call listed, ?_⟩
  -- a code that was accepted is stored as used, and would not match
  by_contra accepted
  obtain ⟨stored, valid⟩ := mem_of_findMatch matched
  have owned := stable_codes.run rfl step member call listed
  cases call with
  | issue _ _ _ => exact accepted rfl
  | verify uid code phase =>
      cases phase with
      | verified other =>
          obtain ⟨used, storedUsed, same, invalid⟩ := owned
          have accepts : other.token = token := eq_of_beq (Bool.not_eq_false _ ▸ accepted)
          have unique : used = row := Table.eq_of_column OtpToken.token List.mem_cons_self
            storedUsed stored ((same.trans accepts).trans names.symm)
          rw [← unique, invalid] at valid
          exact absurd valid Bool.false_ne_true
      | matching | consuming _ | rejected | thrown _ => exact accepted rfl

end Otp

/-! ## Both -/

private def teamInvite : InviteTable :=
  (Table.empty.insert ⟨"i1", "ada", 1, true, "__NONE__", "eve@team.example", "m1", "[]"⟩).getD .empty

private def signsUp (uid : String) (mailToken : String) : Event Input Outcome :=
  .call (.addByInvite ⟨"i1", mailToken, some uid, none⟩)

private def proceeds : Outcome := ⟨true, ⟨500, ""⟩, ["eve", "evans"]⟩

/-- A request takes so many turns. -/
private def goesOn (index turns : Nat) : List (Event Input Outcome) :=
  List.replicate turns (.turn index proceeds)

/-- A wrong link, a sign up, and the same link again. -/
private def usedAgain : List (Event Input Outcome) :=
  [signsUp "eve" "m2"] ++ goesOn 0 1 ++ [signsUp "eve" "m1"] ++ goesOn 1 10 ++
    [signsUp "evans" "m1"] ++ goesOn 2 1

private def logsIn (uuid : String) : Otp.Outcome := ⟨true, "", 1000, uuid, "123456"⟩

/-- A code is sent, entered, and entered again. -/
private def enteredAgain : List (Event Otp.Input Otp.Outcome) :=
  [.call (.issue "eve" "email"), .turn 0 (logsIn "c1"), .turn 0 (logsIn "c1"),
    .call (.verify "eve" "123456"), .turn 1 (logsIn ""), .turn 1 (logsIn ""),
    .call (.verify "eve" "123456"), .turn 2 (logsIn "")]

end ThetaDirectory.Accounts
