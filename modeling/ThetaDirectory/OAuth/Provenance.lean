import ThetaDirectory.OAuth.Server

/-!
# Where tokens come from

Whatever requests overlap, every token goes back to a code that its user had issued for its client
at the authorize endpoint, and says no more than the scope granted there.
-/

namespace ThetaDirectory.OAuth

open Library Library.Interleaving

variable {server : Server} {store after : Store} {pool : Pool Store Call} {outcome : Outcome}

/-! ## What a request has shown -/

/-- The user may have a code issued for the client. -/
structure Admits (server : Server) (request : AuthorizeRequest) (client : OAuthClient)
    (groups : List String) : Prop where
  known : request.client_id = some client.client_id
  active : client.is_valid = true
  registered : redirectUriAllowed server.engine client.redirect_uris request.redirect_uri = true
  challenged : client.is_public = true → (truthy request.code_challenge).isSome
  member : client.allowed_groups = [] ∨ ∃ group ∈ client.allowed_groups, group ∈ groups

/-- The request comes from the client: with its secret, or without one where it has none. -/
structure Authenticated (server : Server) (request : TokenRequest) (client : OAuthClient) :
    Prop where
  known : request.client_id = some client.client_id
  active : client.is_valid = true
  proved : client.is_public = true ∧ truthy request.client_secret = none ∨
    client.is_public = false ∧
      server.compare (request.client_secret.getD "") client.client_secret_hash = true

/-- The request may have tokens for the grant. -/
def Entitled (server : Server) (request : TokenRequest) (client : OAuthClient) : Grant → Prop
  | .code row => row.is_valid = true ∧ request.client_id = some row.client_id ∧
      request.redirect_uri = some row.redirect_uri ∧
        (row.code_challenge = "" ∧ client.is_public = false ∨
          ∃ verifier, request.code_verifier = some verifier ∧
            server.verifyPKCE verifier row.code_challenge row.code_challenge_method = true)
  | .refresh row => row.is_valid = true ∧ request.client_id = some row.client_id

/-- A code was issued for the client, the user and the scope. -/
def Sourced (store : Store) (client_id username scope : String) : Prop :=
  ∃ code ∈ store.codes.rows, code.client_id = client_id ∧ code.username = username ∧
    code.scope = scope

/-- All tokens go back to codes. -/
def Store.Traced (store : Store) : Prop :=
  ∀ kind, ∀ row ∈ (store.tokens kind).rows, Sourced store row.client_id row.username row.scope

/-- The token is stored, and is one for the grant. -/
def IssuedFor (store : Store) (kind : TokenKind) (grant : Grant) (row : OAuthToken) : Prop :=
  (store.tokens kind).Holds OAuthToken.invalidate row ∧ row.client_id = grant.client_id ∧
    row.username = grant.username ∧ row.scope = grant.scope

/-- The claims tell what the scope lists. -/
structure Limited (claims : Claims) (scope : String) : Prop where
  profile : (claims.name.isSome ∨ claims.given_name.isSome ∨ claims.family_name.isSome) →
    "profile" ∈ splitAt ' ' scope
  email : claims.email.isSome → "email" ∈ splitAt ' ' scope
  groups : claims.groups.isSome → "groups" ∈ splitAt ' ' scope

/-! ## Calls -/

def Authorizing.Fits (server : Server) (request : AuthorizeRequest) : Authorizing → Prop
  | .grouping client => ∀ groups, (∃ group ∈ client.allowed_groups, group ∈ groups) →
      Admits server request client groups
  | .adding client groups => Admits server request client groups
  | .issued client groups row => Admits server request client groups ∧
      ∃ now uuid, row = request.newCode client now uuid
  | _ => True

def Added.Fits (store : Store) (kind : TokenKind) (grant : Grant) : Added → Prop
  | .stored row => IssuedFor store kind grant row
  | _ => True

/-- The request may have the tokens of a grant that goes back to a code. -/
structure Passed (server : Server) (request : TokenRequest) (store : Store) (client : OAuthClient)
    (grant : Grant) : Prop where
  authenticated : Authenticated server request client
  entitled : Entitled server request client grant
  sourced : Sourced store grant.client_id grant.username grant.scope

def Exchanging.Fits (server : Server) (request : TokenRequest) (store : Store) : Exchanging → Prop
  | .comparing client => request.client_id = some client.client_id ∧ client.is_valid = true ∧
      client.is_public = false
  | .finding client _ => Authenticated server request client
  | .consuming client _ grant | .reading client _ grant => Passed server request store client grant
  | .issuing client _ grant _ access refresh => Passed server request store client grant ∧
      access.Fits store .access grant ∧ refresh.Fits store .refresh grant
  | .signing client _ grant _ access refresh => Passed server request store client grant ∧
      IssuedFor store .access grant access ∧ IssuedFor store .refresh grant refresh
  | .answered client grant response => Passed server request store client grant ∧
      IssuedFor store .access grant response.access ∧
        IssuedFor store .refresh grant response.refresh ∧
          ∀ token ∈ response.id_token, Limited token.claims grant.scope
  | _ => True

def Informing.Fits (store : Store) : Informing → Prop
  | .reading row | .gathering row _ => Sourced store row.client_id row.username row.scope
  | .answered row claims => Sourced store row.client_id row.username row.scope ∧
      Limited claims row.scope
  | _ => True

def Call.Fits (server : Server) (store : Store) : Call → Prop
  | .authorize request phase => phase.Fits server request
  | .token request phase => phase.Fits server request store
  | .userinfo _ phase => phase.Fits store
  | .revoke _ _ | .done => True

/-- Nothing that was stored goes away. -/
structure Store.Later (store after : Store) : Prop where
  codes : Table.Lasts OAuthCode.invalidate store.codes after.codes
  tokens : ∀ kind, Table.Lasts OAuthToken.invalidate (store.tokens kind) (after.tokens kind)

/-- What a turn leaves: a store behind the one before, with all tokens traced. -/
structure Store.Leads (store after : Store) : Prop where
  later : store.Later after
  traced : store.Traced → after.Traced

theorem Store.Later.refl (store : Store) : store.Later store :=
  ⟨Table.Lasts.refl _, fun _ => Table.Lasts.refl _⟩

theorem Store.Leads.refl (store : Store) : store.Leads store := ⟨.refl store, id⟩

theorem Sourced.later {client_id username scope : String} (later : store.Later after)
    (sourced : Sourced store client_id username scope) : Sourced after client_id username scope := by
  obtain ⟨code, listed, same⟩ := sourced
  rcases later.codes code listed with here | spent
  · exact ⟨code, here, same⟩
  · exact ⟨code.invalidate, spent, same⟩

theorem IssuedFor.later {kind : TokenKind} {grant : Grant} {row : OAuthToken}
    (later : store.Later after) (issued : IssuedFor store kind grant row) :
    IssuedFor after kind grant row :=
  ⟨(later.tokens kind).holds (fun _ => rfl) issued.1, issued.2⟩

theorem Passed.later {request : TokenRequest} {client : OAuthClient} {grant : Grant}
    (later : store.Later after) (passed : Passed server request store client grant) :
    Passed server request after client grant :=
  { passed with sourced := passed.sourced.later later }

theorem Added.Fits.later {kind : TokenKind} {grant : Grant} {added : Added}
    (later : store.Later after) (fits : added.Fits store kind grant) :
    added.Fits after kind grant := by
  cases added with
  | stored row => exact IssuedFor.later later fits
  | waiting | failed error => trivial

/-- What a call has shown stays so whatever the others do. -/
theorem Call.Fits.later {call : Call} (later : store.Later after) (fits : call.Fits server store) :
    call.Fits server after := by
  cases call with
  | authorize request phase => exact fits
  | token request phase =>
      cases phase with
      | consuming client now grant | reading client now grant => exact Passed.later later fits
      | issuing client now grant user access refresh =>
          exact ⟨fits.1.later later, fits.2.1.later later, fits.2.2.later later⟩
      | signing client now grant user access refresh =>
          exact ⟨fits.1.later later, fits.2.1.later later, fits.2.2.later later⟩
      | answered client grant response =>
          exact ⟨fits.1.later later, fits.2.1.later later, fits.2.2.1.later later, fits.2.2.2⟩
      | fetching | comparing client | finding client now | rejected refusal | thrown error =>
          exact fits
  | userinfo bearer phase =>
      cases phase with
      | reading row | gathering row user => exact Sourced.later later fits
      | answered row claims => exact ⟨fits.1.later later, fits.2⟩
      | finding | rejected refusal | thrown error => trivial
  | revoke request phase => trivial
  | done => trivial

theorem limited_userClaims (user : User) (scope : String) (groups : List String) :
    Limited (userClaims user scope groups) scope := by
  constructor <;> simp [userClaims]

/-! ## Writes -/

theorem tokens_setTokens {rows : TokenTable} {kind other : TokenKind} :
    (store.setTokens rows kind).tokens other = if other = kind then rows else store.tokens other := by
  cases kind <;> cases other <;> rfl

theorem codes_setTokens {rows : TokenTable} {kind : TokenKind} :
    (store.setTokens rows kind).codes = store.codes := by
  cases kind <;> rfl

/-- A write to the tokens of one kind. -/
theorem later_setTokens {rows : TokenTable} {kind : TokenKind}
    (lasts : Table.Lasts OAuthToken.invalidate (store.tokens kind) rows) :
    store.Later (store.setTokens rows kind) := by
  constructor
  · rw [codes_setTokens]
    exact Table.Lasts.refl _
  · intro other
    rw [tokens_setTokens]
    split
    · rename_i same
      exact same ▸ lasts
    · exact Table.Lasts.refl _

theorem leads_setTokens {rows : TokenTable} {kind : TokenKind}
    (lasts : Table.Lasts OAuthToken.invalidate (store.tokens kind) rows)
    (traced : store.Traced → ∀ row ∈ rows.rows, Sourced store row.client_id row.username row.scope) :
    store.Leads (store.setTokens rows kind) := by
  have later := later_setTokens lasts
  refine ⟨later, fun before other row listed => ?_⟩
  rw [tokens_setTokens] at listed
  split at listed
  · exact (traced before row listed).later later
  · exact (before other row listed).later later

theorem leads_consume {grant : Grant} (consumed : store.consume grant = some after) :
    store.Leads after := by
  cases grant with
  | code row =>
      obtain ⟨codes, updated, rfl⟩ := Option.map_eq_some_iff.mp consumed
      have later : store.Later { store with codes } :=
        ⟨Table.lasts_update updated, fun _ => Table.Lasts.refl _⟩
      exact ⟨later, fun traced kind row listed => (traced kind row listed).later later⟩
  | refresh row =>
      obtain ⟨rows, updated, rfl⟩ := Option.map_eq_some_iff.mp consumed
      change store.Leads (store.setTokens rows .refresh)
      apply leads_setTokens (Table.lasts_update updated)
      intro traced
      exact Table.forall_of_update updated (traced .refresh) fun _ sourced => sourced

theorem leads_insertCode {row : OAuthCode} {codes : CodeTable}
    (inserted : store.codes.insert row = some codes) : store.Leads { store with codes } := by
  have later : store.Later { store with codes } :=
    ⟨Table.lasts_insert inserted, fun _ => Table.Lasts.refl _⟩
  exact ⟨later, fun traced kind row listed => (traced kind row listed).later later⟩

/-! ## Turns -/

theorem fits_check {request : AuthorizeRequest} {client : OAuthClient}
    (known : request.client_id = some client.client_id) :
    (request.check server client).Fits server request := by
  unfold AuthorizeRequest.check
  split
  · trivial
  · rename_i active
    split
    · trivial
    · rename_i registered
      split
      · trivial
      · rename_i challenged
        have shown (groups : List String)
            (member : client.allowed_groups = [] ∨
              ∃ group ∈ client.allowed_groups, group ∈ groups) :
            Admits server request client groups := by
          refine ⟨known, by simpa using active, by simpa using registered, fun isPublic => ?_, member⟩
          simpa [isPublic, Option.isSome_iff_ne_none] using challenged
        split
        · rename_i open_
          exact shown [] (Or.inl open_)
        · exact fun groups member => shown groups (Or.inr member)

theorem client_id_of_fetch {client_id : Option String} {ok : Bool} {client : OAuthClient}
    (found : (if ok then client_id.bind store.client else none) = some client) :
    client_id = some client.client_id := by
  cases ok with
  | false => cases found
  | true =>
      obtain ⟨id, rfl, stored⟩ := Option.bind_eq_some_iff.mp found
      have same := List.find?_some stored
      exact congrArg some (eq_of_beq same).symm

theorem authorize_turn {request : AuthorizeRequest} {phase : Authorizing}
    (fits : phase.Fits server request) :
    store.Leads (request.turn server outcome store phase).1 ∧
      (request.turn server outcome store phase).2.Fits server request := by
  cases phase with
  | fetching =>
      simp only [AuthorizeRequest.turn]
      split
      · exact ⟨.refl store, fits_check (client_id_of_fetch ‹_›)⟩
      · exact ⟨.refl store, trivial⟩
  | grouping client =>
      dsimp only [AuthorizeRequest.turn]
      generalize (if outcome.ok then outcome.groups else []) = groups
      split
      · rename_i member
        refine ⟨.refl store, fits _ ?_⟩
        simpa using member
      · exact ⟨.refl store, trivial⟩
  | adding client groups =>
      simp only [AuthorizeRequest.turn]
      split
      · rename_i codes added
        split at added
        · exact ⟨leads_insertCode added, fits, _, _, rfl⟩
        · cases added
      · exact ⟨.refl store, trivial⟩
  | issued client groups row => exact ⟨.refl store, fits⟩
  | refused refusal | thrown error => exact ⟨.refl store, trivial⟩

variable {request : TokenRequest} {client : OAuthClient} {grant : Grant} {now : Nat}

theorem fits_start (authenticated : Authenticated server request client) :
    (request.start client now).Fits server request store := by
  unfold TokenRequest.start
  split
  · exact authenticated
  · trivial

theorem fits_authenticate (known : request.client_id = some client.client_id) :
    (request.authenticate client now).Fits server request store := by
  unfold TokenRequest.authenticate
  cases active : client.is_valid with
  | false => trivial
  | true =>
      cases isPublic : client.is_public with
      | true =>
          cases secret : truthy request.client_secret with
          | some secret => trivial
          | none => exact fits_start ⟨known, active, Or.inl ⟨isPublic, secret⟩⟩
      | false =>
          cases truthy request.client_secret with
          | some secret => exact ⟨known, active, isPublic⟩
          | none => trivial

theorem fits_checkCode {row : OAuthCode} (authenticated : Authenticated server request client)
    (listed : row ∈ store.codes.rows) :
    (request.checkCode server client now outcome row).Fits server request store := by
  unfold TokenRequest.checkCode
  split
  · trivial
  · rename_i fresh
    split
    · trivial
    · rename_i sameClient
      split
      · trivial
      · rename_i sameRedirect
        have valid : row.is_valid = true := by
          simp only [Bool.or_eq_true, Bool.not_eq_true', not_or, Bool.not_eq_false] at fresh
          exact fresh.1
        have passed (proof : row.code_challenge = "" ∧ client.is_public = false ∨
            ∃ verifier, request.code_verifier = some verifier ∧
              server.verifyPKCE verifier row.code_challenge row.code_challenge_method = true) :
            Passed server request store client (.code row) :=
          ⟨authenticated, ⟨valid, (not_not.mp sameClient).symm, (not_not.mp sameRedirect).symm, proof⟩,
            row, listed, rfl, rfl, rfl⟩
        split
        · rename_i unchallenged
          cases isPublic : client.is_public with
          | true => trivial
          | false => exact passed (Or.inl ⟨unchallenged, isPublic⟩)
        · split
          · trivial
          · split
            · trivial
            · rename_i verifier given
              split
              · exact passed (Or.inr ⟨verifier, given, ‹_›⟩)
              · trivial

theorem fits_checkRefresh {row : OAuthToken} (authenticated : Authenticated server request client)
    (traced : store.Traced) (listed : row ∈ store.refresh.rows) :
    (request.checkRefresh client now outcome row).Fits server request store := by
  unfold TokenRequest.checkRefresh
  split
  · trivial
  · rename_i fresh
    split
    · trivial
    · rename_i sameClient
      have valid : row.is_valid = true := by
        simp only [Bool.or_eq_true, Bool.not_eq_true', not_or, Bool.not_eq_false] at fresh
        exact fresh.1
      exact ⟨authenticated, ⟨valid, (not_not.mp sameClient).symm⟩, traced .refresh row listed⟩

theorem client_id_of_entitled (entitled : Entitled server request client grant) :
    request.client_id = some grant.client_id := by
  cases grant with
  | code row => exact entitled.2.1
  | refresh row => exact entitled.2

/-- The addition of a token for a grant that goes back to a code. -/
theorem added_turn {kind : TokenKind} {added : Added} {uuid : String}
    (passed : Passed server request store client grant) (fits : added.Fits store kind grant) :
    store.Leads (added.turn outcome store kind (request.newToken client now grant uuid kind)).1 ∧
      (added.turn outcome store kind (request.newToken client now grant uuid kind)).2.Fits
        (added.turn outcome store kind (request.newToken client now grant uuid kind)).1 kind grant := by
  have named : (request.newToken client now grant uuid kind).client_id = grant.client_id := by
    change request.client_id.getD "" = grant.client_id
    rw [client_id_of_entitled passed.entitled]
    rfl
  cases added with
  | waiting =>
      simp only [Added.turn]
      split
      · rename_i rows inserted
        split at inserted
        · refine ⟨leads_setTokens (Table.lasts_insert inserted) fun traced => ?_, ?_⟩
          · apply Table.forall_of_insert inserted (traced kind)
            rw [named]
            exact passed.sourced
          · refine ⟨Or.inl ?_, named, rfl, rfl⟩
            rw [tokens_setTokens, if_pos rfl]
            exact (Table.mem_insert inserted).mpr (Or.inr rfl)
        · cases inserted
      · exact ⟨.refl store, trivial⟩
  | stored row => exact ⟨.refl store, fits⟩
  | failed error => exact ⟨.refl store, trivial⟩

theorem fits_proceed {user : User} {access refresh : Added}
    (passed : Passed server request store client grant)
    (isAccess : access.Fits store .access grant) (isRefresh : refresh.Fits store .refresh grant) :
    (proceed client now grant user access refresh).Fits server request store := by
  cases access with
  | waiting =>
      cases refresh with
      | waiting | stored row | failed error => exact ⟨passed, isAccess, isRefresh⟩
  | failed error =>
      cases refresh with
      | waiting => exact ⟨passed, isAccess, isRefresh⟩
      | stored row | failed other => trivial
  | stored row =>
      cases refresh with
      | waiting => exact ⟨passed, isAccess, isRefresh⟩
      | failed error => trivial
      | stored other =>
          dsimp only [proceed]
          split
          · exact ⟨passed, isAccess, isRefresh⟩
          · exact ⟨passed, isAccess, isRefresh, fun token given => nomatch given⟩

theorem token_turn {phase : Exchanging} (traced : store.Traced)
    (fits : phase.Fits server request store) :
    store.Leads (request.turn server outcome store phase).1 ∧
      (request.turn server outcome store phase).2.Fits server request
        (request.turn server outcome store phase).1 := by
  cases phase with
  | fetching =>
      simp only [TokenRequest.turn]
      split
      · exact ⟨.refl store, fits_authenticate (client_id_of_fetch ‹_›)⟩
      · exact ⟨.refl store, trivial⟩
  | comparing client =>
      simp only [TokenRequest.turn]
      split
      · exact ⟨.refl store, trivial⟩
      · split
        · exact ⟨.refl store, fits_start ⟨fits.1, fits.2.1, Or.inr ⟨fits.2.2, ‹_›⟩⟩⟩
        · exact ⟨.refl store, trivial⟩
  | finding client now =>
      simp only [TokenRequest.turn]
      split
      · split
        · rename_i row found
          split at found
          · obtain ⟨token, -, listed⟩ := Option.bind_eq_some_iff.mp found
            exact ⟨.refl store, fits_checkCode fits (List.mem_of_find?_eq_some listed)⟩
          · cases found
        · exact ⟨.refl store, trivial⟩
      · split
        · rename_i row found
          split at found
          · obtain ⟨token, -, listed⟩ := Option.bind_eq_some_iff.mp found
            exact ⟨.refl store, fits_checkRefresh fits traced (List.mem_of_find?_eq_some listed)⟩
          · cases found
        · exact ⟨.refl store, trivial⟩
  | consuming client now grant =>
      simp only [TokenRequest.turn]
      split
      · rename_i consumed
        split at consumed
        · have leads := leads_consume consumed
          exact ⟨leads, Passed.later leads.later fits⟩
        · cases consumed
      · exact ⟨.refl store, trivial⟩
  | reading client now grant =>
      simp only [TokenRequest.turn]
      split
      · exact ⟨.refl store, fits, trivial, trivial⟩
      · exact ⟨.refl store, trivial⟩
  | issuing client now grant user access refresh =>
      obtain ⟨passed, isAccess, isRefresh⟩ := fits
      simp only [TokenRequest.turn]
      cases outcome.kind with
      | access =>
          have turned := @added_turn server store outcome request client grant now .access access
            outcome.uuid passed isAccess
          exact ⟨turned.1, fits_proceed (passed.later turned.1.later) turned.2
            (isRefresh.later turned.1.later)⟩
      | refresh =>
          have turned := @added_turn server store outcome request client grant now .refresh refresh
            outcome.uuid passed isRefresh
          exact ⟨turned.1, fits_proceed (passed.later turned.1.later)
            (isAccess.later turned.1.later) turned.2⟩
  | signing client now grant user access refresh =>
      simp only [TokenRequest.turn]
      split
      · refine ⟨.refl store, fits.1, fits.2.1, fits.2.2, fun token given => ?_⟩
        cases given
        obtain ⟨profile, email, groups⟩ := limited_userClaims user grant.scope outcome.groups
        exact ⟨profile, email, groups⟩
      · exact ⟨.refl store, trivial⟩
  | answered client grant response => exact ⟨.refl store, fits⟩
  | rejected refusal | thrown error => exact ⟨.refl store, trivial⟩

theorem userinfo_turn {bearer : String} {phase : Informing} (traced : store.Traced)
    (fits : phase.Fits store) : (phase.turn bearer outcome store).Fits store := by
  cases phase with
  | finding =>
      simp only [Informing.turn]
      split
      · rename_i row found
        split at found
        · obtain ⟨token, -, listed⟩ := Option.bind_eq_some_iff.mp found
          split
          · trivial
          · exact traced .access row (List.mem_of_find?_eq_some listed)
        · cases found
      · trivial
  | reading row =>
      simp only [Informing.turn]
      split
      · trivial
      · split
        · exact fits
        · exact ⟨fits, limited_userClaims _ _ _⟩
  | gathering row user => exact ⟨fits, limited_userClaims _ _ _⟩
  | answered row claims => exact fits
  | rejected refusal | thrown error => trivial

theorem revoke_turn {request : RevokeRequest} {phase : Revoking} :
    store.Leads (request.turn server outcome store phase).1 := by
  cases phase with
  | marking kind row =>
      simp only [RevokeRequest.turn]
      split
      · rename_i rows updated
        split at updated
        · apply leads_setTokens (Table.lasts_update updated)
          intro traced
          exact Table.forall_of_update updated (traced kind) fun _ sourced => sourced
        · cases updated
      · exact .refl store
  | fetching | comparing client | searching kind others =>
      simp only [RevokeRequest.turn]
      repeat' split
      all_goals exact .refl store
  | answered revoked | rejected refusal | thrown error => exact .refl store

/-- One turn of any call. -/
theorem fits_turn {call : Call} (traced : store.Traced) (fits : call.Fits server store) :
    store.Leads (server.oauth.turn outcome store call).1 ∧
      (server.oauth.turn outcome store call).2.Fits server
        (server.oauth.turn outcome store call).1 := by
  cases call with
  | authorize request phase => exact authorize_turn fits
  | token request phase => exact token_turn traced fits
  | userinfo bearer phase => exact ⟨.refl store, userinfo_turn traced fits⟩
  | revoke request phase => exact ⟨revoke_turn, trivial⟩
  | done => exact ⟨.refl store, trivial⟩

theorem fits_call (input : Input) :
    store.Leads (server.oauth.call input store).1 ∧
      (server.oauth.call input store).2.Fits server (server.oauth.call input store).1 := by
  cases input with
  | authorize request =>
      refine ⟨.refl store, ?_⟩
      simp only [Server.oauth]
      split <;> trivial
  | token request =>
      refine ⟨.refl store, ?_⟩
      simp only [Server.oauth]
      split <;> trivial
  | userinfo bearer => exact ⟨.refl store, trivial⟩
  | revoke request => exact ⟨.refl store, trivial⟩
  | setClients clients =>
      have later : store.Later { store with clients } :=
        ⟨Table.Lasts.refl _, fun kind => by cases kind <;> exact Table.Lasts.refl _⟩
      refine ⟨⟨later, fun traced kind row listed => ?_⟩, trivial⟩
      cases kind with
      | access => exact (traced .access row listed).later later
      | refresh => exact (traced .refresh row listed).later later

/-! ## Scopes -/

theorem not_mem_of_mem_splitOn {separator : Char} {text piece : List Char}
    (listed : piece ∈ text.splitOn separator) : separator ∉ piece := by
  induction text generalizing piece with
  | nil =>
      rw [List.splitOn_nil, List.mem_singleton] at listed
      rw [listed]
      exact List.not_mem_nil
  | cons char text ih =>
      rw [List.splitOn_cons_eq_if_modifyHead] at listed
      split at listed
      · rcases List.mem_cons.mp listed with rfl | later
        · exact List.not_mem_nil
        · exact ih later
      · rename_i different
        cases pieces : text.splitOn separator with
        | nil => exact absurd pieces (List.splitOn_ne_nil _ _)
        | cons first rest =>
            rw [pieces] at listed ih
            rcases List.mem_cons.mp listed with rfl | later
            · refine not_or.mpr ⟨fun same => different (beq_iff_eq.mpr same.symm), ?_⟩ ∘ List.mem_cons.mp
              exact ih List.mem_cons_self
            · exact ih (List.mem_cons_of_mem _ later)

/-- A word of the granted scope was asked for, and the client is registered for it; or it is
`openid`. -/
theorem word_of_grantedScope {client : OAuthClient} {scope : Option String} {word : String}
    (listed : word ∈ splitAt ' ' (grantedScope client scope)) :
    word = "openid" ∨
      word ∈ client.scopes ∧ word ∈ splitAt ' ' ((truthy scope).getD "openid") := by
  unfold grantedScope at listed
  generalize asked : splitAt ' ' ((truthy scope).getD "openid") = words at listed
  dsimp only at listed
  by_cases none : (words.filter (· ≠ "")).filter client.scopes.contains = []
  · rw [none] at listed
    have single : splitAt ' ' "openid" = ["openid"] := by decide
    rw [String.intercalate_nil] at listed
    change word ∈ splitAt ' ' "openid" at listed
    rw [single] at listed
    exact Or.inl (List.mem_singleton.mp listed)
  · right
    generalize kept : (words.filter (· ≠ "")).filter client.scopes.contains = granted at none listed
    have unspaced : ∀ word ∈ granted, ' ' ∉ word.toList := by
      intro word member
      rw [← kept, ← asked] at member
      obtain ⟨piece, split, same⟩ :=
        List.mem_map.mp (List.mem_of_mem_filter (List.mem_of_mem_filter member))
      rw [← same, String.toList_ofList]
      exact not_mem_of_mem_splitOn split
    have joined : splitAt ' ' (" ".intercalate granted) = granted := by
      rw [splitAt, String.toList_intercalate]
      change (([' '].intercalate (granted.map String.toList)).splitOn ' ').map String.ofList = granted
      rw [List.splitOn_intercalate ' ' ?_ (by simpa using none)]
      · simp [List.map_map, Function.comp_def]
      · intro chars member
        obtain ⟨word, inside, rfl⟩ := List.mem_map.mp member
        exact unspaced word inside
    have given : truthy (some (" ".intercalate granted)) = some (" ".intercalate granted) := by
      apply Option.filter_some_pos
      simp only [ne_eq, decide_eq_true_eq]
      intro blank
      rw [blank] at joined
      have single : granted = [""] := joined.symm
      have member : "" ∈ (words.filter (· ≠ "")).filter client.scopes.contains := by
        rw [kept, single]
        exact List.mem_singleton_self _
      simpa using List.of_mem_filter (List.mem_of_mem_filter member)
    rw [given, Option.getD_some, joined, ← kept] at listed
    exact ⟨List.contains_iff_mem.mp (List.of_mem_filter listed),
      List.mem_of_mem_filter (List.mem_of_mem_filter listed)⟩

/-! ## Runs -/

/-- The call issued the code. -/
def Issues (row : OAuthCode) (call : Call) : Prop :=
  ∃ request client groups issued, call = .authorize request (.issued client groups issued) ∧
    (row = issued ∨ row = issued.invalidate)

theorem Issues.invalidate {row : OAuthCode} {call : Call} (issues : Issues row call) :
    Issues row.invalidate call := by
  obtain ⟨request, client, groups, issued, isCall, same⟩ := issues
  refine ⟨request, client, groups, issued, isCall, Or.inr ?_⟩
  rcases same with rfl | rfl <;> rfl

theorem Issues.turn {row : OAuthCode} {call : Call} (issues : Issues row call) :
    Issues row (server.oauth.turn outcome store call).2 := by
  obtain ⟨request, client, groups, issued, rfl, same⟩ := issues
  exact ⟨request, client, groups, issued, rfl, same⟩

/-- The codes behind a turn are those from before, and one that it issued. -/
theorem codes_turn {call : Call} {row : OAuthCode}
    (listed : row ∈ (server.oauth.turn outcome store call).1.codes.rows) :
    (∃ old ∈ store.codes.rows, row = old ∨ row = old.invalidate) ∨
      Issues row (server.oauth.turn outcome store call).2 := by
  have same (unchanged : (server.oauth.turn outcome store call).1.codes = store.codes) :
      ∃ old ∈ store.codes.rows, row = old ∨ row = old.invalidate :=
    ⟨row, unchanged ▸ listed, Or.inl rfl⟩
  cases call with
  | authorize request phase =>
      cases phase with
      | adding client groups =>
          simp only [Server.oauth, AuthorizeRequest.turn] at listed ⊢
          split at listed
          · rename_i codes added
            split at added
            · rcases (Table.mem_insert added).mp listed with before | rfl
              · exact Or.inl ⟨row, before, Or.inl rfl⟩
              · exact Or.inr ⟨request, client, groups, _, rfl, Or.inl rfl⟩
            · cases added
          · exact Or.inl ⟨row, listed, Or.inl rfl⟩
      | fetching | grouping client =>
          left
          apply same
          simp only [Server.oauth, AuthorizeRequest.turn]
          repeat' split
          all_goals rfl
      | issued client groups row | refused refusal | thrown error => exact Or.inl (same rfl)
  | token request phase =>
      left
      cases phase with
      | consuming client now grant =>
          simp only [Server.oauth, TokenRequest.turn] at listed
          split at listed
          · rename_i consumed
            split at consumed
            · cases grant with
              | code spent =>
                  obtain ⟨codes, updated, rfl⟩ := Option.map_eq_some_iff.mp consumed
                  rcases Table.mem_of_update updated listed with before | ⟨old, before, rfl⟩
                  · exact ⟨row, before, Or.inl rfl⟩
                  · exact ⟨old, before, Or.inr rfl⟩
              | refresh spent =>
                  obtain ⟨rows, updated, rfl⟩ := Option.map_eq_some_iff.mp consumed
                  exact ⟨row, listed, Or.inl rfl⟩
            · cases consumed
          · exact ⟨row, listed, Or.inl rfl⟩
      | issuing client now grant user access refresh =>
          apply same
          have unchanged (kind : TokenKind) (added : Added) (token : OAuthToken) :
              (added.turn outcome store kind token).1.codes = store.codes := by
            cases added with
            | waiting =>
                simp only [Added.turn]
                split
                · exact codes_setTokens
                · rfl
            | stored other | failed error => rfl
          simp only [Server.oauth, TokenRequest.turn]
          cases outcome.kind with
          | access => exact unchanged .access access _
          | refresh => exact unchanged .refresh refresh _
      | fetching | comparing client | finding client now | reading client now grant
      | signing client now grant user access refresh =>
          apply same
          simp only [Server.oauth, TokenRequest.turn]
          repeat' split
          all_goals rfl
      | answered client grant response | rejected refusal | thrown error => exact same rfl
  | userinfo bearer phase => exact Or.inl (same rfl)
  | revoke request phase =>
      left
      apply same
      cases phase with
      | marking kind row =>
          simp only [Server.oauth, RevokeRequest.turn]
          split
          · exact codes_setTokens
          · rfl
      | fetching | comparing client | searching kind others =>
          simp only [Server.oauth, RevokeRequest.turn]
          repeat' split
          all_goals rfl
      | answered revoked | rejected refusal | thrown error => rfl
  | done => exact Or.inl (same rfl)

/-- All that the calls and the tokens rest on. -/
structure Sound (server : Server) (pool : Pool Store Call) : Prop where
  outlined : Outlined Store.Traced (fun store call => call.Fits server store) (fun _ _ => True) pool
  codes : ∀ row ∈ pool.shared.codes.rows, pool.Has (Issues row)

theorem sound_start (clients : List OAuthClient) : Sound server (start clients) := by
  refine ⟨⟨fun kind row listed => ?_, fun index call found => ?_, fun index other call called _ found =>
    ?_⟩, fun row listed => ?_⟩
  · cases kind <;> exact absurd listed List.not_mem_nil
  · cases found
  · cases found
  · exact absurd listed List.not_mem_nil

theorem sound_apply (event : Event Input Outcome) (sound : Sound server pool) :
    Sound server (server.oauth.apply event pool) := by
  cases event with
  | call input =>
      have made := @fits_call server pool.shared input
      constructor
      · apply sound.outlined.apply_call (fun _ _ _ => trivial)
        · exact ⟨made.1.traced sound.outlined.shared, made.2⟩
        · exact fun index called found =>
            ⟨(sound.outlined.each index called found).later made.1.later, trivial⟩
      · intro row listed
        apply has_apply_call
        apply sound.codes
        cases input <;> exact listed
  | turn index outcome =>
      constructor
      · apply sound.outlined.apply_turn (fun _ _ _ => trivial)
        intro call found
        have turned := @fits_turn server pool.shared outcome call sound.outlined.shared
          (sound.outlined.each index call found)
        exact ⟨turned.1.traced sound.outlined.shared, turned.2, fun other called _ there =>
          ⟨(sound.outlined.each other called there).later turned.1.later, trivial⟩⟩
      · intro row listed
        cases found : pool.calls[index]? with
        | none =>
            rw [apply_turn_of_none found] at listed ⊢
            exact sound.codes row listed
        | some call =>
            rw [apply_turn_of_some found] at listed ⊢
            rcases codes_turn listed with ⟨old, before, same⟩ | issues
            · apply has_set found Issues.turn
              obtain ⟨position, issuer, there, issues⟩ := sound.codes old before
              rcases same with rfl | rfl
              · exact ⟨position, issuer, there, issues⟩
              · exact ⟨position, issuer, there, issues.invalidate⟩
            · exact has_set_self found issues

theorem sound_run {clients : List OAuthClient} {events : List (Event Input Outcome)} :
    Sound server (Runs.run server.oauth.apply events (start clients)) :=
  Runs.run_of_keeps (Sound server) (sound_start clients) fun event _ => sound_apply event

/-- The user has had a code issued for the client, which was registered for the words of the scope
and had asked for them. -/
def Consented (server : Server) (calls : List Call) (client_id username scope : String) : Prop :=
  ∃ request client groups row, Call.authorize request (.issued client groups row) ∈ calls ∧
    Admits server request client groups ∧ request.client_id = some client_id ∧
      request.uid = username ∧ ∀ word ∈ splitAt ' ' scope, word = "openid" ∨
        word ∈ client.scopes ∧ word ∈ splitAt ' ' ((truthy request.scope).getD "openid")

theorem Sound.consented {client_id username scope : String} (sound : Sound server pool)
    (sourced : Sourced pool.shared client_id username scope) :
    Consented server pool.calls client_id username scope := by
  obtain ⟨code, listed, rfl, rfl, rfl⟩ := sourced
  obtain ⟨index, call, found, request, client, groups, issued, rfl, same⟩ := sound.codes code listed
  obtain ⟨admits, now, uuid, rfl⟩ := sound.outlined.each index _ found
  have known : request.client_id = some (request.client_id.getD "") := by
    rw [admits.known]
    rfl
  refine ⟨request, client, groups, _, List.mem_of_getElem? found, admits, ?_⟩
  rcases same with rfl | rfl
  · exact ⟨known, rfl, fun word listed => word_of_grantedScope listed⟩
  · exact ⟨known, rfl, fun word listed => word_of_grantedScope listed⟩

/-- Every token that is stored at any time goes back to a consent of its user. -/
theorem consented_run (server : Server) (clients : List OAuthClient)
    (events : List (Event Input Outcome)) (kind : TokenKind) (token : OAuthToken)
    (listed : token ∈
      ((Runs.run server.oauth.apply events (start clients)).shared.tokens kind).rows) :
    Consented server (Runs.run server.oauth.apply events (start clients)).calls token.client_id
      token.username token.scope :=
  sound_run.consented (sound_run.outlined.shared kind token listed)

private def library : Server where
  issuer := "https://sso.example"
  engine := fun _ => none
  compare := fun secret hash => hash == "$2b$" ++ secret
  challenge := fun verifier => "E9Melhoa" ++ verifier

private def app : OAuthClient :=
  ⟨"app", "$2b$s3cret", ["https://app.example/cb"], ["openid", "groups"], ["staff"], ⟨3600, 7200⟩, true,
    false⟩

private def succeeds (now : Nat) (uuid : String) (kind : TokenKind) : Outcome :=
  ⟨true, "", now, uuid, ⟨"ada", "Ada", "Byron", "ada@example.com"⟩, ["staff"], kind⟩

private def asks : AuthorizeRequest :=
  ⟨"ada", some "code", some "app", some "https://app.example/cb", some "openid groups email",
    some "E9Melhoav1", none⟩

private def exchanges : TokenRequest :=
  ⟨some "app", some "s3cret", some "authorization_code", some "c1", some "https://app.example/cb",
    some "v1", none⟩

/-- A code is issued and exchanged, and the access token is used. -/
private def signIn : List (Event Input Outcome) :=
  .call (.authorize asks) :: List.replicate 3 (.turn 0 (succeeds 1000 "c1" .access)) ++
    .call (.token exchanges) :: List.replicate 6 (.turn 1 (succeeds 2000 "a1" .access)) ++
    List.replicate 2 (.turn 1 (succeeds 2000 "r1" .refresh)) ++
    .call (.userinfo "a1") :: List.replicate 3 (.turn 2 (succeeds 3000 "" .access))

private def isCode : OAuthCode :=
  ⟨"c1", true, "app", "https://app.example/cb", "openid groups", "ada", "E9Melhoav1", "S256", 601000⟩

private def isAccess : OAuthToken := ⟨"a1", true, "app", "ada", "openid groups", 3602000⟩

private def isRefresh : OAuthToken := ⟨"r1", true, "app", "ada", "openid groups", 7202000⟩

theorem consented_run_signIn :
    Consented library (Runs.run library.oauth.apply signIn (start [app])).calls "app" "ada"
      "openid groups" :=
  consented_run library [app] signIn .refresh isRefresh (by decide +kernel)

/-- What a client learns of a user, from a token answer or with an access token. -/
inductive Tells : Call → String → String → String → Claims → Prop
  | idToken (request : TokenRequest) (client : OAuthClient) (grant : Grant) (response : TokenResponse)
      (token : IdToken) (signed : response.id_token = some token) :
      Tells (.token request (.answered client grant response)) grant.client_id grant.username
        grant.scope token.claims
  | userinfo (bearer : String) (row : OAuthToken) (claims : Claims) :
      Tells (.userinfo bearer (.answered row claims)) row.client_id row.username row.scope claims

private def told : Claims := ⟨"ada", none, none, none, none, none, some ["staff"]⟩

/-- Tokens are given to the client that they are for: it has shown its secret, where it has one,
and for a code that was bound to a challenge also the verifier. -/
theorem answered_run (server : Server) (clients : List OAuthClient)
    (events : List (Event Input Outcome)) (request : TokenRequest) (client : OAuthClient)
    (grant : Grant) (response : TokenResponse)
    (listed : Call.token request (.answered client grant response) ∈
      (Runs.run server.oauth.apply events (start clients)).calls) :
    Authenticated server request client ∧ Entitled server request client grant ∧
      IssuedFor (Runs.run server.oauth.apply events (start clients)).shared .access grant
        response.access ∧
      IssuedFor (Runs.run server.oauth.apply events (start clients)).shared .refresh grant
        response.refresh := by
  obtain ⟨index, found⟩ := List.mem_iff_getElem?.mp listed
  obtain ⟨passed, access, refresh, -⟩ :=
    (@sound_run server clients events).outlined.each index _ found
  exact ⟨passed.authenticated, passed.entitled, access, refresh⟩

private def answer : TokenResponse where
  access := isAccess
  refresh := isRefresh
  expires_in := 3600
  id_token := some ⟨"https://sso.example", "app", 2, 3602, { told with preferred_username := some "ada" }⟩

theorem answered_run_signIn :
    Authenticated library exchanges app ∧ Entitled library exchanges app (.code isCode) ∧
      IssuedFor (Runs.run library.oauth.apply signIn (start [app])).shared .access (.code isCode)
        isAccess ∧
      IssuedFor (Runs.run library.oauth.apply signIn (start [app])).shared .refresh (.code isCode)
        isRefresh :=
  answered_run library [app] signIn exchanges app (.code isCode) answer (by decide +kernel)

end ThetaDirectory.OAuth
