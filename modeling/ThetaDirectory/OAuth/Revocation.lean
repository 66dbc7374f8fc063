import ThetaDirectory.OAuth.Provenance

/-!
# What is used up stays used up

A code or refresh token is looked up first and marked after a wait, and so is a token that is
revoked.  Requests that overlap may all be let in with one of them, but none is once it is marked.
-/

namespace ThetaDirectory.OAuth

open Library Library.Interleaving

variable {server : Server} {store after : Store} {pool : Pool Store Call} {outcome : Outcome}

/-- What a request is let in with. -/
inductive Credential where
  | code (token : String)
  | token (kind : TokenKind) (token : String)
  deriving DecidableEq, Repr

def Grant.credential : Grant → Credential
  | .code row => .code row.token
  | .refresh row => .token .refresh row.token

/-- It is stored as used or revoked. -/
def Store.Spent (store : Store) : Credential → Prop
  | .code token => ∃ row ∈ store.codes.rows, row.token = token ∧ row.is_valid = false
  | .token kind token =>
      ∃ row ∈ (store.tokens kind).rows, row.token = token ∧ row.is_valid = false

/-- The grant that a request has been let in with. -/
def Exchanging.grant : Exchanging → Option Grant
  | .consuming _ _ grant | .reading _ _ grant | .issuing _ _ grant _ _ _ | .signing _ _ grant _ _ _
  | .answered _ grant _ => some grant
  | _ => none

/-- The grant that a request has used up. -/
def Exchanging.used : Exchanging → Option Grant
  | .reading _ _ grant | .issuing _ _ grant _ _ _ | .signing _ _ grant _ _ _
  | .answered _ grant _ => some grant
  | _ => none

def Call.admitted : Call → Option Credential
  | .token _ phase => phase.grant.map Grant.credential
  | .userinfo _ (.reading row) | .userinfo _ (.gathering row _) | .userinfo _ (.answered row _) =>
      some (.token .access row.token)
  | _ => none

/-- What the call has marked. -/
def Call.ended : Call → Option Credential
  | .token _ phase => phase.used.map Grant.credential
  | .revoke _ (.answered (some (kind, revoked))) => some (.token kind revoked)
  | _ => none

def Grant.Held (store : Store) : Grant → Prop
  | .code row => store.codes.Holds OAuthCode.invalidate row
  | .refresh row => store.refresh.Holds OAuthToken.invalidate row

def Call.consuming : Call → Option Grant
  | .token _ (.consuming _ _ grant) => some grant
  | _ => none

def Call.marking : Call → Option (TokenKind × OAuthToken)
  | .revoke _ (.marking kind row) => some (kind, row)
  | _ => none

/-- What is to be marked is stored, and what was marked is stored as such. -/
structure Call.Marks (store : Store) (call : Call) : Prop where
  consuming : ∀ grant ∈ call.consuming, grant.Held store
  marking : ∀ found ∈ call.marking, (store.tokens found.1).Holds OAuthToken.invalidate found.2
  ended : ∀ credential ∈ call.ended, store.Spent credential

/-! ## Later stores -/

theorem Store.Spent.later {credential : Credential} (later : store.Later after)
    (spent : store.Spent credential) : after.Spent credential := by
  cases credential with
  | code token =>
      obtain ⟨row, listed, named, invalid⟩ := spent
      rcases later.codes row listed with here | marked
      · exact ⟨row, here, named, invalid⟩
      · exact ⟨row.invalidate, marked, named, rfl⟩
  | token kind token =>
      obtain ⟨row, listed, named, invalid⟩ := spent
      rcases later.tokens kind row listed with here | marked
      · exact ⟨row, here, named, invalid⟩
      · exact ⟨row.invalidate, marked, named, rfl⟩

theorem Grant.Held.later {grant : Grant} (later : store.Later after) (held : grant.Held store) :
    grant.Held after := by
  cases grant with
  | code row => exact later.codes.holds (fun _ => rfl) held
  | refresh row => exact (later.tokens .refresh).holds (fun _ => rfl) held

theorem Call.Marks.later {call : Call} (later : store.Later after) (marks : call.Marks store) :
    call.Marks after where
  consuming grant given := (marks.consuming grant given).later later
  marking found given := (later.tokens found.1).holds (fun _ => rfl) (marks.marking found given)
  ended credential given := (marks.ended credential given).later later

/-! ## Turns -/

/-- A call that is about to use a grant up. -/
theorem marks_of_consuming {call : Call} (marking : call.marking = none) (ended : call.ended = none)
    (held : ∀ grant ∈ call.consuming, grant.Held store) : call.Marks store where
  consuming := held
  marking found given := (Option.not_mem_none found (marking ▸ given)).elim
  ended credential given := (Option.not_mem_none credential (ended ▸ given)).elim

/-- A call that is about to revoke a token. -/
theorem marks_of_marking {call : Call} (consuming : call.consuming = none) (ended : call.ended = none)
    (held : ∀ found ∈ call.marking, (store.tokens found.1).Holds OAuthToken.invalidate found.2) :
    call.Marks store where
  consuming grant given := (Option.not_mem_none grant (consuming ▸ given)).elim
  marking := held
  ended credential given := (Option.not_mem_none credential (ended ▸ given)).elim

/-- A call that has ended a credential. -/
theorem marks_of_ended {call : Call} (consuming : call.consuming = none)
    (marking : call.marking = none) (spent : ∀ credential ∈ call.ended, store.Spent credential) :
    call.Marks store where
  consuming grant given := (Option.not_mem_none grant (consuming ▸ given)).elim
  marking found given := (Option.not_mem_none found (marking ▸ given)).elim
  ended := spent

/-- A call that marks nothing. -/
theorem marks_of_none {call : Call} (consuming : call.consuming = none)
    (marking : call.marking = none) (ended : call.ended = none) : call.Marks store :=
  marks_of_ended consuming marking fun credential given =>
    (Option.not_mem_none credential (ended ▸ given)).elim

/-- A check of a code lets the request in with the code, or not at all. -/
theorem checkCode_cases {request : TokenRequest} {client : OAuthClient} {now : Nat}
    {row : OAuthCode} :
    (request.checkCode server client now outcome row).grant = none ∨
      row.is_valid = true ∧
        request.checkCode server client now outcome row = .consuming client now (.code row) := by
  unfold TokenRequest.checkCode
  split
  · exact Or.inl rfl
  · rename_i fresh
    have valid : row.is_valid = true := by
      simp only [Bool.or_eq_true, Bool.not_eq_true', not_or, Bool.not_eq_false] at fresh
      exact fresh.1
    repeat' split
    all_goals first
      | exact Or.inl rfl
      | exact Or.inr ⟨valid, rfl⟩

theorem checkRefresh_cases {request : TokenRequest} {client : OAuthClient} {now : Nat}
    {row : OAuthToken} :
    (request.checkRefresh client now outcome row).grant = none ∨
      row.is_valid = true ∧
        request.checkRefresh client now outcome row = .consuming client now (.refresh row) := by
  unfold TokenRequest.checkRefresh
  split
  · exact Or.inl rfl
  · rename_i fresh
    have valid : row.is_valid = true := by
      simp only [Bool.or_eq_true, Bool.not_eq_true', not_or, Bool.not_eq_false] at fresh
      exact fresh.1
    split
    · exact Or.inl rfl
    · exact Or.inr ⟨valid, rfl⟩

theorem grant_start {request : TokenRequest} {client : OAuthClient} {now : Nat} :
    (request.start client now).grant = none := by
  unfold TokenRequest.start
  split <;> rfl

theorem grant_authenticate {request : TokenRequest} {client : OAuthClient} {now : Nat} :
    (request.authenticate client now).grant = none := by
  unfold TokenRequest.authenticate
  repeat' split
  all_goals first
    | exact grant_start
    | rfl

theorem proceed_cases {client : OAuthClient} {now : Nat} {grant : Grant} {user : User}
    {access refresh : Added} :
    (proceed client now grant user access refresh).grant = none ∨
      (proceed client now grant user access refresh).used = some grant ∧
        (proceed client now grant user access refresh).grant = some grant := by
  unfold proceed
  repeat' split
  all_goals first
    | exact Or.inl rfl
    | exact Or.inr ⟨rfl, rfl⟩

theorem marks_of_grant_none {request : TokenRequest} {phase : Exchanging}
    (none : phase.grant = none) : (Call.token request phase).Marks store := by
  cases phase with
  | fetching | comparing client | finding client now | rejected refusal | thrown error =>
      exact marks_of_none rfl rfl rfl
  | consuming client now grant | reading client now grant
  | issuing client now grant user access refresh | signing client now grant user access refresh
  | answered client grant response => cases none

/-- A call that has marked its grant, and still has. -/
theorem marks_of_used {request : TokenRequest} {phase : Exchanging} {grant : Grant}
    (used : phase.used = some grant) (spent : store.Spent grant.credential) :
    (Call.token request phase).Marks store := by
  have ended : (Call.token request phase).ended = some grant.credential :=
    congrArg (Option.map Grant.credential) used
  constructor
  · cases phase with
    | consuming client now other => cases used
    | fetching | comparing client | finding client now | reading client now other
    | issuing client now other user access refresh | signing client now other user access refresh
    | answered client other response | rejected refusal | thrown error =>
        exact fun other given => nomatch given
  · exact fun found given => nomatch given
  · intro credential given
    cases ended.symm.trans given
    exact spent

theorem spent_consume {grant : Grant} (held : grant.Held store)
    (consumed : store.consume grant = some after) : after.Spent grant.credential := by
  cases grant with
  | code row =>
      obtain ⟨codes, updated, rfl⟩ := Option.map_eq_some_iff.mp consumed
      exact ⟨row.invalidate, Table.spent_of_update List.mem_cons_self (fun _ => rfl) (fun _ => rfl)
        updated held, rfl, rfl⟩
  | refresh row =>
      obtain ⟨rows, updated, rfl⟩ := Option.map_eq_some_iff.mp consumed
      exact ⟨row.invalidate, Table.spent_of_update List.mem_cons_self (fun _ => rfl) (fun _ => rfl)
        updated held, rfl, rfl⟩

theorem marks_token {request : TokenRequest} {phase : Exchanging}
    (marks : (Call.token request phase).Marks store) :
    (Call.token request (request.turn server outcome store phase).2).Marks
      (request.turn server outcome store phase).1 := by
  cases phase with
  | fetching =>
      simp only [TokenRequest.turn]
      split
      · exact marks_of_grant_none grant_authenticate
      · exact marks_of_grant_none rfl
  | comparing client =>
      simp only [TokenRequest.turn]
      split
      · exact marks_of_grant_none rfl
      · split
        · exact marks_of_grant_none grant_start
        · exact marks_of_grant_none rfl
  | finding client now =>
      simp only [TokenRequest.turn]
      split
      · split
        · rename_i row found
          split at found
          · obtain ⟨token, -, listed⟩ := Option.bind_eq_some_iff.mp found
            rcases @checkCode_cases server outcome request client now row with none | ⟨-, goesOn⟩
            · exact marks_of_grant_none none
            · rw [goesOn]
              refine marks_of_consuming rfl rfl fun grant given => ?_
              cases given
              exact Or.inl (List.mem_of_find?_eq_some listed)
          · cases found
        · exact marks_of_grant_none rfl
      · split
        · rename_i row found
          split at found
          · obtain ⟨token, -, listed⟩ := Option.bind_eq_some_iff.mp found
            rcases @checkRefresh_cases outcome request client now row with none | ⟨-, goesOn⟩
            · exact marks_of_grant_none none
            · rw [goesOn]
              refine marks_of_consuming rfl rfl fun grant given => ?_
              cases given
              exact Or.inl (List.mem_of_find?_eq_some listed)
          · cases found
        · exact marks_of_grant_none rfl
  | consuming client now grant =>
      simp only [TokenRequest.turn]
      split
      · rename_i consumed
        split at consumed
        · exact marks_of_used rfl (spent_consume (marks.consuming grant rfl) consumed)
        · cases consumed
      · exact marks_of_grant_none rfl
  | reading client now grant =>
      simp only [TokenRequest.turn]
      split
      · exact marks_of_used rfl (marks.ended _ rfl)
      · exact marks_of_grant_none rfl
  | issuing client now grant user access refresh =>
      have spent := marks.ended grant.credential rfl
      have added (kind : TokenKind) (added : Added) (row : OAuthToken) :
          (added.turn outcome store kind row).1.Spent grant.credential := by
        cases added with
        | waiting =>
            simp only [Added.turn]
            split
            · rename_i rows inserted
              split at inserted
              · exact spent.later (later_setTokens (Table.lasts_insert inserted))
              · cases inserted
            · exact spent
        | stored row | failed error => exact spent
      have proceeds (access refresh : Added) {store : Store} (spent : store.Spent grant.credential) :
          (Call.token request (proceed client now grant user access refresh)).Marks store := by
        rcases @proceed_cases client now grant user access refresh with none | ⟨used, -⟩
        · exact marks_of_grant_none none
        · exact marks_of_used used spent
      simp only [TokenRequest.turn]
      cases outcome.kind with
      | access => exact proceeds _ _ (added .access access _)
      | refresh => exact proceeds _ _ (added .refresh refresh _)
  | signing client now grant user access refresh =>
      simp only [TokenRequest.turn]
      split
      · exact marks_of_used rfl (marks.ended _ rfl)
      · exact marks_of_grant_none rfl
  | answered client grant response => exact marks
  | rejected refusal | thrown error => exact marks

theorem marks_start {request : RevokeRequest} : (Call.revoke request request.start).Marks store := by
  unfold RevokeRequest.start
  split
  · unfold RevokeRequest.order
    split <;> exact marks_of_none rfl rfl rfl
  · exact marks_of_none rfl rfl rfl

theorem marks_search {request : RevokeRequest} {kinds : List TokenKind} :
    (Call.revoke request (.search kinds)).Marks store := by
  cases kinds <;> exact marks_of_none rfl rfl rfl

theorem marks_revoke {request : RevokeRequest} {phase : Revoking}
    (marks : (Call.revoke request phase).Marks store) :
    (Call.revoke request (request.turn server outcome store phase).2).Marks
      (request.turn server outcome store phase).1 := by
  cases phase with
  | fetching =>
      simp only [RevokeRequest.turn]
      split
      · split
        · exact marks_start
        · exact marks_of_none rfl rfl rfl
      · exact marks_of_none rfl rfl rfl
  | comparing client =>
      simp only [RevokeRequest.turn]
      split
      · exact marks_of_none rfl rfl rfl
      · split
        · exact marks_start
        · exact marks_of_none rfl rfl rfl
  | searching kind others =>
      simp only [RevokeRequest.turn]
      split
      · rename_i row found
        split at found
        · obtain ⟨token, -, stored⟩ := Option.bind_eq_some_iff.mp found
          have listed := List.mem_of_find?_eq_some stored
          split
          · exact marks_search
          · split
            · refine marks_of_marking rfl rfl fun other given => ?_
              cases given
              exact Or.inl listed
            · rename_i invalid
              refine marks_of_ended rfl rfl fun credential given => ?_
              cases given
              exact ⟨row, listed, rfl, Bool.eq_false_iff.mpr invalid⟩
        · cases found
      · exact marks_search
  | marking kind row =>
      have held := marks.marking (kind, row) rfl
      simp only [RevokeRequest.turn]
      split
      · rename_i rows updated
        split at updated
        · refine marks_of_ended rfl rfl fun credential given => ?_
          cases given
          refine ⟨row.invalidate, ?_, rfl, rfl⟩
          rw [tokens_setTokens, if_pos rfl]
          exact Table.spent_of_update List.mem_cons_self (fun _ => rfl) (fun _ => rfl) updated held
        · cases updated
      · exact marks_of_none rfl rfl rfl
  | answered revoked | rejected refusal | thrown error => exact marks

theorem marks_turn {call : Call} (marks : call.Marks store) :
    (server.oauth.turn outcome store call).2.Marks (server.oauth.turn outcome store call).1 := by
  cases call with
  | token request phase => exact marks_token marks
  | revoke request phase => exact marks_revoke marks
  | authorize request phase | userinfo bearer phase | done => exact marks_of_none rfl rfl rfl

theorem marks_call (input : Input) :
    (server.oauth.call input store).2.Marks (server.oauth.call input store).1 := by
  cases input with
  | authorize request | userinfo bearer | setClients clients => exact marks_of_none rfl rfl rfl
  | token request =>
      simp only [Server.oauth]
      split <;> exact marks_of_none rfl rfl rfl
  | revoke request =>
      simp only [Server.oauth]
      split <;> exact marks_of_none rfl rfl rfl

/-! ## Admission -/

/-- A row found under a key that is stored as spent is not valid. -/
theorem not_valid_of_spent_code {token : Option String} {row : OAuthCode}
    (found : store.code token = some row) (spent : store.Spent (.code row.token)) :
    row.is_valid = false := by
  obtain ⟨key, -, stored⟩ := Option.bind_eq_some_iff.mp found
  obtain ⟨other, listed, same, invalid⟩ := spent
  rw [← Table.eq_of_column OAuthCode.token List.mem_cons_self listed
    (List.mem_of_find?_eq_some stored) same]
  exact invalid

theorem not_valid_of_spent_token {kind : TokenKind} {token : Option String} {row : OAuthToken}
    (found : store.token kind token = some row) (spent : store.Spent (.token kind row.token)) :
    row.is_valid = false := by
  obtain ⟨key, -, stored⟩ := Option.bind_eq_some_iff.mp found
  obtain ⟨other, listed, same, invalid⟩ := spent
  rw [← Table.eq_of_column OAuthToken.token List.mem_cons_self listed
    (List.mem_of_find?_eq_some stored) same]
  exact invalid

variable {credential : Credential}

/-- With what is spent, only a request goes on that was let in before. -/
theorem admitted_turn {call : Call} (spent : store.Spent credential)
    (admitted : (server.oauth.turn outcome store call).2.admitted = some credential) :
    call.admitted = some credential := by
  cases call with
  | authorize request phase | revoke request phase | done => cases admitted
  | userinfo bearer phase =>
      cases phase with
      | finding =>
          simp only [Server.oauth, Informing.turn] at admitted
          split at admitted
          · rename_i row found
            split at found
            · split at admitted
              · cases admitted
              · rename_i fresh
                cases admitted
                rw [not_valid_of_spent_token found spent] at fresh
                exact absurd rfl fresh
            · cases found
          · cases admitted
      | reading row =>
          simp only [Server.oauth, Informing.turn] at admitted
          repeat' split at admitted
          all_goals first
            | exact admitted
            | cases admitted
      | gathering row user => exact admitted
      | answered row claims => exact admitted
      | rejected refusal | thrown error => cases admitted
  | token request phase =>
      have kept {next : Exchanging} {grant : Grant}
          (goesOn : next.grant = none ∨ next.grant = some grant) (here : phase.grant = some grant)
          (admitted : next.grant.map Grant.credential = some credential) :
          (Call.token request phase).admitted = some credential := by
        rcases goesOn with none | some
        · rw [none] at admitted
          cases admitted
        · rw [some] at admitted
          exact (congrArg (Option.map Grant.credential) here).trans admitted
      change ((request.turn server outcome store phase).2.grant.map _) = some credential at admitted
      cases phase with
      | fetching =>
          simp only [TokenRequest.turn] at admitted
          split at admitted
          · rw [grant_authenticate] at admitted
            cases admitted
          · cases admitted
      | comparing client =>
          simp only [TokenRequest.turn] at admitted
          repeat' split at admitted
          all_goals first
            | cases admitted
            | rw [grant_start] at admitted
              cases admitted
      | finding client now =>
          simp only [TokenRequest.turn] at admitted
          split at admitted
          · split at admitted
            · rename_i row found
              split at found
              · rcases @checkCode_cases server outcome request client now row with none | ⟨valid, goesOn⟩
                · rw [none] at admitted
                  cases admitted
                · rw [goesOn] at admitted
                  cases admitted
                  rw [not_valid_of_spent_code found spent] at valid
                  cases valid
              · cases found
            · cases admitted
          · split at admitted
            · rename_i row found
              split at found
              · rcases @checkRefresh_cases outcome request client now row with none | ⟨valid, goesOn⟩
                · rw [none] at admitted
                  cases admitted
                · rw [goesOn] at admitted
                  cases admitted
                  rw [not_valid_of_spent_token found spent] at valid
                  cases valid
              · cases found
            · cases admitted
      | consuming client now grant =>
          refine kept ?_ rfl admitted
          simp only [TokenRequest.turn]
          split
          · exact Or.inr rfl
          · exact Or.inl rfl
      | reading client now grant =>
          refine kept ?_ rfl admitted
          simp only [TokenRequest.turn]
          split
          · exact Or.inr rfl
          · exact Or.inl rfl
      | issuing client now grant user access refresh =>
          refine kept ?_ rfl admitted
          simp only [TokenRequest.turn]
          cases outcome.kind with
          | access => exact proceed_cases.imp_right And.right
          | refresh => exact proceed_cases.imp_right And.right
      | signing client now grant user access refresh =>
          refine kept ?_ rfl admitted
          simp only [TokenRequest.turn]
          split
          · exact Or.inr rfl
          · exact Or.inl rfl
      | answered client grant response => exact admitted
      | rejected refusal | thrown error => cases admitted

theorem admitted_call (input : Input) : (server.oauth.call input store).2.admitted = none := by
  cases input with
  | authorize request | userinfo bearer | revoke request | setClients clients => rfl
  | token request =>
      simp only [Server.oauth]
      split <;> rfl

/-! ## Runs -/

/-- A reachable state with what its calls have marked. -/
structure Reached (server : Server) (pool : Pool Store Call) : Prop where
  sound : Sound server pool
  marks : pool.Owned fun store call => call.Marks store

/-- What one event does to the store. -/
theorem later_apply (event : Event Input Outcome) (sound : Sound server pool) :
    pool.shared.Later (server.oauth.apply event pool).shared := by
  cases event with
  | call input => exact (@fits_call server pool.shared input).1.later
  | turn index outcome =>
      cases found : pool.calls[index]? with
      | none =>
          rw [apply_turn_of_none found]
          exact .refl _
      | some call =>
          rw [apply_turn_of_some found]
          exact (fits_turn sound.outlined.shared (sound.outlined.each index call found)).1.later

theorem reached_apply (event : Event Input Outcome) (reached : Reached server pool) :
    Reached server (server.oauth.apply event pool) := by
  refine ⟨sound_apply event reached.sound, fun call listed => ?_⟩
  have later := later_apply event reached.sound
  obtain ⟨position, found⟩ := List.mem_iff_getElem?.mp listed
  cases event with
  | call input =>
      rcases getElem?_apply_call server.oauth pool input found with old | ⟨-, rfl⟩
      · exact (reached.marks call (List.mem_of_getElem? old)).later later
      · exact marks_call input
  | turn index outcome =>
      cases turned : pool.calls[index]? with
      | none =>
          rw [apply_turn_of_none turned] at listed ⊢
          exact reached.marks call listed
      | some turning =>
          rcases getElem?_apply_turn turned found with ⟨-, rfl⟩ | ⟨-, before⟩
          · rw [shared_apply_turn turned]
            exact marks_turn (reached.marks turning (List.mem_of_getElem? turned))
          · exact (reached.marks call (List.mem_of_getElem? before)).later later

theorem reached_run {clients : List OAuthClient} {events : List (Event Input Outcome)} :
    Reached server (Runs.run server.oauth.apply events (start clients)) := by
  apply Runs.run_of_keeps (Reached server) ?_ fun event _ => reached_apply event
  exact ⟨sound_start clients, fun call listed => absurd listed List.not_mem_nil⟩

/-- With a spent credential no event lets a request in. -/
theorem admitted_apply {event : Event Input Outcome} {index : Nat} {call : Call}
    (spent : pool.shared.Spent credential)
    (found : (server.oauth.apply event pool).calls[index]? = some call)
    (admitted : call.admitted = some credential) :
    ∃ before, pool.calls[index]? = some before ∧ before.admitted = some credential := by
  cases event with
  | call input =>
      rcases getElem?_apply_call server.oauth pool input found with old | ⟨-, rfl⟩
      · exact ⟨call, old, admitted⟩
      · rw [admitted_call] at admitted
        cases admitted
  | turn position outcome =>
      cases turned : pool.calls[position]? with
      | none =>
          rw [apply_turn_of_none turned] at found
          exact ⟨call, found, admitted⟩
      | some turning =>
          rcases getElem?_apply_turn turned found with ⟨rfl, rfl⟩ | ⟨-, before⟩
          · exact ⟨turning, turned, admitted_turn spent admitted⟩
          · exact ⟨call, before, admitted⟩

theorem admitted_run {more : List (Event Input Outcome)} {index : Nat} {call : Call}
    (sound : Sound server pool) (spent : pool.shared.Spent credential)
    (found : (Runs.run server.oauth.apply more pool).calls[index]? = some call)
    (admitted : call.admitted = some credential) :
    ∃ before, pool.calls[index]? = some before ∧ before.admitted = some credential := by
  induction more generalizing pool with
  | nil => exact ⟨call, found, admitted⟩
  | cons event more ih =>
      have after := spent.later (later_apply event sound)
      obtain ⟨between, there, still⟩ := ih (sound_apply event sound) after found
      exact admitted_apply spent there still

/-- Once a request has used up a code or a refresh token, or has been told that a token is revoked,
the requests that go on with it are those that had been let in before. -/
theorem ended_run (server : Server) (clients : List OAuthClient)
    (events more : List (Event Input Outcome)) (credential : Credential)
    (ended : (Runs.run server.oauth.apply events (start clients)).Has
      fun call => call.ended = some credential) (index : Nat) (call : Call)
    (found : (Runs.run server.oauth.apply (events ++ more) (start clients)).calls[index]? = some call)
    (admitted : call.admitted = some credential) :
    ∃ before, (Runs.run server.oauth.apply events (start clients)).calls[index]? = some before ∧
      before.admitted = some credential := by
  obtain ⟨position, other, there, marked⟩ := ended
  have reached := @reached_run server clients events
  have spent := (reached.marks other (List.mem_of_getElem? there)).ended credential marked
  rw [Runs.run_append] at found
  exact admitted_run reached.sound spent found admitted

private def shop : Server where
  issuer := "https://sso.example"
  engine := fun _ => none
  compare := fun secret hash => hash == "$2b$" ++ secret
  challenge := fun verifier => "E9Melhoa" ++ verifier

private def till : OAuthClient :=
  ⟨"till", "$2b$s3cret", ["https://till.example/cb"], ["openid"], ["staff"], ⟨3600, 7200⟩, true, false⟩

private def goesWell (now : Nat) (uuid : String) : Outcome :=
  ⟨true, "", now, uuid, ⟨"ada", "Ada", "Byron", "ada@example.com"⟩, ["staff"], .access⟩

private def opens : AuthorizeRequest :=
  ⟨"ada", some "code", some "till", some "https://till.example/cb", some "openid",
    some "E9Melhoav1", none⟩

private def redeems : TokenRequest :=
  ⟨some "till", some "s3cret", some "authorization_code", some "c1", some "https://till.example/cb",
    some "v1", none⟩

/-- The second exchange finds the code before the first has used it up. -/
private def twice : List (Event Input Outcome) :=
  .call (.authorize opens) :: List.replicate 3 (.turn 0 (goesWell 1000 "c1")) ++
    [.call (.token redeems), .call (.token redeems)] ++
    List.replicate 3 (.turn 1 (goesWell 2000 "")) ++ List.replicate 3 (.turn 2 (goesWell 2000 "")) ++
    [.turn 1 (goesWell 2000 "")]

private def spentCode : OAuthCode :=
  ⟨"c1", true, "till", "https://till.example/cb", "openid", "ada", "E9Melhoav1", "S256", 601000⟩

theorem ended_run_twice :
    ∃ before, (Runs.run shop.oauth.apply twice (start [till])).calls[2]? = some before ∧
      before.admitted = some (.code "c1") :=
  ended_run shop [till] twice [.turn 2 (goesWell 2000 "")] (.code "c1") (by decide +kernel) 2
    (.token redeems (.reading till 2000 (.code spentCode))) (by decide +kernel) rfl

end ThetaDirectory.OAuth
