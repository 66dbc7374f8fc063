import ThetaDirectory.Forwarding.Cluster

/-!
# Nobody acts for a user who was not there

Anyone may send a site any request, and send what was sent before again, but signatures are only
made by who holds the token.  A site then acts for a user only where the user has shown a credential
to this site, or to another one that has signed for the same path within five minutes.
-/

namespace ThetaDirectory.Forwarding

open Library

variable {hmac : Hmac} {nodes : List Site} {past : List Event} {cluster : Cluster} {site : Site}
  {request : Request} {now node : Nat}

/-! ## Credentials -/

/-- The credential comes with the request and stands for the user. -/
structure Shows (site : Site) (request : Request) (credential : Credential) (uid : String) :
    Prop where
  carried : request.Carries credential
  identified : site.identify credential = some uid

theorem eq_of_truthy {text : Option String} {value : String} (given : truthy text = some value) :
    text = some value := by
  unfold truthy at given
  exact (Option.filter_eq_some_iff.mp given).1

theorem shows_session {caller : Caller} (found : site.session request = some caller) :
    Shows site request caller.credential caller.uid := by
  obtain ⟨token, carried, rest⟩ := Option.bind_eq_some_iff.mp found
  obtain ⟨uid, known, made⟩ := Option.bind_eq_some_iff.mp rest
  cases made
  exact ⟨carried, eq_of_truthy known⟩

theorem shows_resolveCaller {caller : Caller} (found : site.resolveCaller request = some caller) :
    Shows site request caller.credential caller.uid := by
  unfold Site.resolveCaller at found
  split at found
  · rename_i token bearer
    split at found
    · rename_i isApi
      rcases Option.or_eq_some_iff.mp found with known | ⟨-, known⟩
      · obtain ⟨uid, user, rfl⟩ := Option.map_eq_some_iff.mp known
        exact ⟨⟨bearer, isApi⟩, eq_of_truthy user⟩
      · exact shows_session known
    · rename_i other
      split at found
      · rename_i uid known
        split at found
        · cases found
        · cases found
          exact ⟨⟨bearer, Bool.eq_false_iff.mpr other⟩, known⟩
      · exact shows_session found
  · exact shows_session found

/-- The identity is that of a credential. -/
def Identity.Shown (site : Site) (request : Request) (identity : Identity) : Prop :=
  ∃ credential, identity.origin = .credential credential ∧
    Shows site request credential identity.uid

theorem shown_session {identity : Identity}
    (found : (site.session request).map Caller.identity = some identity) :
    identity.Shown site request := by
  obtain ⟨caller, known, rfl⟩ := Option.map_eq_some_iff.mp found
  exact ⟨caller.credential, rfl, shows_session known⟩

theorem shown_authenticate {identity : Identity} (found : site.authenticate request = some identity) :
    identity.Shown site request := by
  unfold Site.authenticate at found
  split at found
  · rename_i token bearer
    split at found
    · rename_i isApi
      split at found
      · rename_i uid known
        split at found
        · exact shown_session found
        · cases found
          exact ⟨.api token, rfl, ⟨bearer, isApi⟩, known⟩
      · cases found
    · rename_i other
      split at found
      · rename_i uid known
        cases found
        exact ⟨.service token, rfl, ⟨bearer, Bool.eq_false_iff.mpr other⟩, known⟩
      · exact shown_session found
  · exact shown_session found

/-! ## Signatures -/

/-- The site has the token to sign and to verify with. -/
def Site.Holds (site : Site) (token : String) : Prop :=
  token = site.replicationPushToken ∨ ∃ spoke ∈ site.spokes, token = spoke.pushToken

theorem holds_forwarder {token slug key : String} (found : site.forwarder token = some (slug, key)) :
    site.Holds key := by
  unfold Site.forwarder at found
  split at found
  · cases found
    exact Or.inl rfl
  · obtain ⟨spoke, known, same⟩ := Option.map_eq_some_iff.mp found
    cases same
    exact Or.inr ⟨spoke, List.mem_of_find?_eq_some known, rfl⟩

/-- What a site takes for a forwarded request. -/
structure Vouched (hmac : Hmac) (site : Site) (now : Nat) (request : Request) (identity : Identity) :
    Prop where
  forwarded : ∃ slug, identity.origin = .forwarded slug
  signed : ∃ key fwdUser, site.Holds key ∧ request.forwardedUser = some fwdUser ∧
    site.user fwdUser = some identity.uid ∧
    verify hmac now key fwdUser (request.forwardedTs.getD "") request.path
      (request.forwardedMac.getD "") = true

theorem vouched_forwardedBy {token fwdUser : String} {identity : Identity}
    (named : request.forwardedUser = some fwdUser)
    (found : site.forwardedBy hmac now request token fwdUser = .identified identity) :
    Vouched hmac site now request identity := by
  unfold Site.forwardedBy at found
  split at found
  · cases found
  · rename_i slug key known
    dsimp only at found
    split at found
    · split at found
      · cases found
      · rename_i verified
        rw [not_or, Bool.not_eq_false] at verified
        split at found
        · rename_i uid user
          cases found
          exact ⟨⟨_, rfl⟩, key, fwdUser, holds_forwarder known, named, eq_of_truthy user, verified.2⟩
        · cases found
    · cases found

theorem auth_cases {identity : Identity} (found : site.auth hmac now request = some identity) :
    identity.Shown site request ∨ Vouched hmac site now request identity := by
  unfold Site.auth at found
  split at found
  · rename_i token fwdUser bearer named
    split at found
    · rename_i known
      cases found
      exact Or.inr (vouched_forwardedBy (eq_of_truthy named) known)
    · cases found
    · exact Or.inl (shown_authenticate found)
  · exact Or.inl (shown_authenticate found)

/-- A signature in a request is one that somebody made who holds the token. -/
def Cluster.Unforged (hmac : Hmac) (cluster : Cluster) : Event → Prop
  | .receive node request => ∀ site mac token text, cluster.nodes[node]? = some site →
      request.forwardedMac = some mac → site.Holds token → fromHex mac.toList = hmac token text →
        ∃ signed ∈ cluster.signed, signed.token = token ∧
          text = message signed.uid (toString signed.time) signed.path
  | _ => True

/-- Every event of the run. -/
def Unforged (hmac : Hmac) (nodes : List Site) (events : List Event) : Prop :=
  ∀ before event after, events = before ++ event :: after →
    (Runs.run (Cluster.apply hmac) before (Cluster.start nodes)).Unforged hmac event

/-! ## What is signed and what is accepted -/

/-- The user has shown a credential in a request for the path. -/
structure Signed.Backed (hmac : Hmac) (nodes : List Site) (past : List Event) (signed : Signed) :
    Prop where
  plain : '\n' ∉ signed.uid.toList
  shown : ∃ request, request.path = signed.path ∧
    Runs.Made (Cluster.apply hmac) (Cluster.start nodes) past (.receive signed.node request)
      fun cluster => cluster.clock ≤ signed.time ∧ ∃ site, cluster.nodes[signed.node]? = some site ∧
        Shows site request signed.credential signed.uid

/-- Another site has signed for the user and the path within the window. -/
structure Accepted.Signed (hmac : Hmac) (nodes : List Site) (past : List Event)
    (accepted : Accepted) (signed : Forwarding.Signed) : Prop where
  backed : signed.Backed hmac nodes past
  path : signed.path = accepted.request.path
  before : signed.time ≤ accepted.time
  timely : accepted.time ≤ signed.time + WINDOW_MS
  known : Runs.Made (Cluster.apply hmac) (Cluster.start nodes) past
    (.receive accepted.node accepted.request) fun cluster =>
      ∃ site, cluster.nodes[accepted.node]? = some site ∧
        site.user signed.uid = some accepted.identity.uid

/-- The user has shown a credential in this request. -/
def Accepted.Direct (hmac : Hmac) (nodes : List Site) (past : List Event) (accepted : Accepted)
    (credential : Credential) : Prop :=
  Runs.Made (Cluster.apply hmac) (Cluster.start nodes) past
    (.receive accepted.node accepted.request) fun cluster =>
      cluster.clock ≤ accepted.time ∧ ∃ site, cluster.nodes[accepted.node]? = some site ∧
        Shows site accepted.request credential accepted.identity.uid

def Accepted.Backed (hmac : Hmac) (nodes : List Site) (past : List Event) (accepted : Accepted) :
    Prop :=
  match accepted.identity.origin with
  | .credential credential => accepted.Direct hmac nodes past credential
  | .forwarded _ => ∃ signed, accepted.Signed hmac nodes past signed

structure Cluster.Backed (hmac : Hmac) (nodes : List Site) (past : List Event) (cluster : Cluster) :
    Prop where
  clock : cluster.clock ≤ MAX_TIME
  signed : ∀ signed ∈ cluster.signed, signed.Backed hmac nodes past ∧ signed.time ≤ cluster.clock
  accepted : ∀ accepted ∈ cluster.accepted, accepted.Backed hmac nodes past ∧
    accepted.time ≤ cluster.clock

theorem Signed.Backed.concat {signed : Signed} {event : Event}
    (backed : signed.Backed hmac nodes past) : signed.Backed hmac nodes (past ++ [event]) := by
  obtain ⟨plain, request, path, shown⟩ := backed
  exact ⟨plain, request, path, shown.concat⟩

theorem Accepted.Backed.concat {accepted : Accepted} {event : Event}
    (backed : accepted.Backed hmac nodes past) : accepted.Backed hmac nodes (past ++ [event]) := by
  unfold Accepted.Backed at backed ⊢
  split at backed
  · exact Runs.Made.concat backed
  · obtain ⟨signed, backed, path, before, timely, known⟩ := backed
    exact ⟨signed, backed.concat, path, before, timely, known.concat⟩

theorem Cluster.Backed.concat {event : Event} (backed : cluster.Backed hmac nodes past) :
    cluster.Backed hmac nodes (past ++ [event]) :=
  ⟨backed.clock, fun signed listed => (backed.signed signed listed).imp_left (·.concat),
    fun accepted listed => (backed.accepted accepted listed).imp_left (·.concat)⟩

/-- The cluster after some events. -/
abbrev Cluster.ran (hmac : Hmac) (nodes : List Site) (events : List Event) : Cluster :=
  Runs.run (Cluster.apply hmac) events (Cluster.start nodes)

theorem sent_cases {caller : Caller} {message : Request}
    (sent : site.spokeWriteProxy hmac now request = .sent caller message) :
    isHeader caller.uid = true ∧ Shows site request caller.credential caller.uid := by
  unfold Site.spokeWriteProxy at sent
  split at sent
  · cases sent
  · split at sent
    · cases sent
    · split at sent
      · cases sent
      · rename_i caller found
        split at sent
        · rename_i header
          cases sent
          exact ⟨header, shows_resolveCaller found⟩
        · cases sent

/-- A verified request has the signature of somebody who holds the token. -/
theorem exists_signed {identity : Identity} (found : cluster.nodes[node]? = some site)
    (unforged : cluster.Unforged hmac (.receive node request))
    (backed : ∀ signed ∈ cluster.signed, signed.Backed hmac nodes past ∧ signed.time ≤ cluster.clock)
    (bounded : cluster.clock ≤ MAX_TIME)
    (vouched : Vouched hmac site cluster.clock request identity) :
    ∃ signed ∈ cluster.signed, site.user signed.uid = some identity.uid ∧
      signed.path = request.path ∧ cluster.clock ≤ signed.time + WINDOW_MS := by
  obtain ⟨key, fwdUser, holds, named, user, verified⟩ := vouched.signed
  obtain ⟨⟨-, -, timed, maced⟩, ⟨t, read, timely⟩, same⟩ := verify_iff.mp verified
  cases mac : request.forwardedMac with
  | none =>
      rw [mac] at maced
      exact absurd rfl maced
  | some text =>
      rw [mac] at same
      obtain ⟨signed, listed, -, lines⟩ := unforged site text key _ found mac holds same
      cases ts : request.forwardedTs with
      | none =>
          rw [ts] at timed
          exact absurd rfl timed
      | some time =>
          rw [ts] at lines read
          have plainUser := request.plain _ List.mem_cons_self fwdUser named
          have plainTime := request.plain _ (List.mem_cons_of_mem _ List.mem_cons_self) time ts
          obtain ⟨rfl, stamp, path⟩ := message_inj plainUser (backed signed listed).1.plain plainTime
            (toString_plain signed.time) lines
          refine ⟨signed, listed, user, path.symm, ?_⟩
          have small : signed.time < 2 ^ 53 :=
            ((backed signed listed).2.trans bounded).trans_lt (by decide)
          change finiteNumber time = some t at read
          change time = toString signed.time at stamp
          rw [stamp, finiteNumber_toString small] at read
          cases read
          exact (abs_le_window.mp timely).1

theorem backed_receive (request : Request) (backed : (Cluster.ran hmac nodes past).Backed hmac nodes past)
    (unforged : (Cluster.ran hmac nodes past).Unforged hmac (.receive node request)) :
    ((Cluster.ran hmac nodes past).receive hmac node request).Backed hmac nodes
      (past ++ [.receive node request]) := by
  unfold Cluster.receive
  split
  · exact backed.concat
  · rename_i site found
    split
    · exact backed.concat
    · rename_i caller message sent
      obtain ⟨header, shows⟩ := sent_cases sent
      refine ⟨backed.clock, fun signed listed => ?_, backed.concat.accepted⟩
      rcases List.mem_append.mp listed with old | new
      · exact backed.concat.signed signed old
      · rw [List.mem_singleton.mp new]
        exact ⟨⟨isHeader_plain header, request, rfl, .of_now ⟨le_rfl, site, found, shows⟩⟩, le_rfl⟩
    · split
      · exact backed.concat
      · rename_i identity identified
        refine ⟨backed.clock, backed.concat.signed, fun accepted listed => ?_⟩
        rcases List.mem_append.mp listed with old | new
        · exact backed.concat.accepted accepted old
        · rw [List.mem_singleton.mp new]
          refine ⟨?_, le_rfl⟩
          rcases auth_cases identified with ⟨credential, origin, shows⟩ | vouched
          · simp only [Accepted.Backed, origin]
            exact .of_now ⟨le_rfl, site, found, shows⟩
          · obtain ⟨slug, origin⟩ := vouched.forwarded
            obtain ⟨signed, listed, user, path, timely⟩ :=
              exists_signed found unforged backed.signed backed.clock vouched
            obtain ⟨own, before⟩ := backed.signed signed listed
            simp only [Accepted.Backed, origin]
            exact ⟨signed, own.concat, path, before, timely, .of_now ⟨site, found, user⟩⟩

theorem backed_dispatch {index spoke : Nat} {agent : String}
    (backed : (Cluster.ran hmac nodes past).Backed hmac nodes past) :
    ((Cluster.ran hmac nodes past).dispatch index agent spoke).Backed hmac nodes
      (past ++ [.dispatch index agent spoke]) := by
  unfold Cluster.dispatch
  split
  · exact backed.concat
  · rename_i entry found
    split
    · rename_i credential site origin there
      split
      · rename_i token dispatched
        split
        · rename_i allowed
          obtain ⟨path, -, -, header⟩ := allowed
          obtain ⟨own, before⟩ := backed.accepted entry (List.mem_of_getElem? found)
          simp only [Accepted.Backed, origin] at own
          refine ⟨backed.clock, fun signed listed => ?_, backed.concat.accepted⟩
          rcases List.mem_append.mp listed with old | new
          · exact backed.concat.signed signed old
          · rw [List.mem_singleton.mp new]
            refine ⟨⟨isHeader_plain header, entry.request, path, ?_⟩, le_rfl⟩
            exact (Runs.Made.concat own).imp fun cluster both => ⟨both.1.trans before, both.2⟩
        · exact backed.concat
      · exact backed.concat
    · exact backed.concat

theorem backed_apply (event : Event) (backed : (Cluster.ran hmac nodes past).Backed hmac nodes past)
    (unforged : (Cluster.ran hmac nodes past).Unforged hmac event) :
    (Cluster.apply hmac event (Cluster.ran hmac nodes past)).Backed hmac nodes (past ++ [event]) := by
  cases event with
  | elapse time =>
      have later : (Cluster.ran hmac nodes past).clock ≤
          min ((Cluster.ran hmac nodes past).clock + time) MAX_TIME :=
        le_min (Nat.le_add_right _ _) backed.clock
      exact ⟨min_le_right _ _,
        fun signed listed => (backed.concat.signed signed listed).imp_right (·.trans later),
        fun accepted listed => (backed.concat.accepted accepted listed).imp_right (·.trans later)⟩
  | configure node site => exact ⟨backed.clock, backed.concat.signed, backed.concat.accepted⟩
  | receive node request => exact backed_receive request backed unforged
  | dispatch index agent spoke => exact backed_dispatch backed

theorem backed_run {events : List Event} (unforged : Unforged hmac nodes events) :
    (Cluster.ran hmac nodes events).Backed hmac nodes events := by
  induction events using List.reverseRecOn with
  | nil => exact ⟨Nat.zero_le _, by rintro signed ⟨⟩, by rintro accepted ⟨⟩⟩
  | append_singleton past event ih =>
      have before : Unforged hmac nodes past := by
        rintro front other back rfl
        exact unforged front other (back ++ [event]) (by simp)
      have now := unforged past event [] rfl
      rw [Cluster.ran, Runs.run_concat]
      exact backed_apply event (ih before) now

/-- HMAC-SHA256 at the one input that is signed. -/
private def digest : List UInt8 :=
  [204, 214, 229, 195, 180, 55, 144, 18, 199, 235, 113, 31, 189, 220, 79, 244, 252, 217, 172,
    5, 160, 118, 95, 81, 97, 162, 241, 147, 41, 35, 58, 127]

private def sealed : Hmac := fun key text =>
  if key = "t1" ∧ text = "ada\n0\n/api/tos/accept" then digest else []

private def hub : Site where
  isMaster := true
  masterUrl := ""
  siteSlug := "hub"
  replicationPushToken := ""
  masterJoinKey := ""
  spokes := [⟨"https://spoke.example", "spoke1", "t1"⟩]
  user := fun uid => if uid = "ada" then some uid else none
  checkApiToken := fun _ => none
  serviceToken := fun _ => none
  checkToken := fun _ => none

private def spoke : Site where
  isMaster := false
  masterUrl := "https://hub.example"
  siteSlug := "spoke1"
  replicationPushToken := "t1"
  masterJoinKey := ""
  spokes := []
  user := fun uid => if uid = "ada" then some uid else none
  checkApiToken := fun _ => none
  serviceToken := fun _ => none
  checkToken := fun token => if token = "s1" then some "ada" else none

private def accepts : Request :=
  ⟨"POST", "/api/tos/accept?v=2", none, some "s1", none, none, none, none, none, by simp⟩

private def onward : Request := forwarded sealed spoke 0 accepts ⟨"ada", .session "s1"⟩ (by decide)

private def across : List Event := [.receive 1 accepts, .receive 0 onward]

private theorem unforged_across : Unforged sealed [hub, spoke] across := by
  intro before event after split
  match before, split with
  | [], split =>
      cases split
      intro site mac token text _ given
      cases given
  | [first], split =>
      cases split
      intro site mac token text found given holds same
      cases found
      cases given
      have octets : fromHex (sign sealed "t1" "ada" (toString 0) accepts.path).toList = digest := by
        decide +kernel
      change fromHex (sign sealed "t1" "ada" (toString 0) accepts.path).toList = _ at same
      rw [octets, sealed] at same
      split at same
      · rename_i key
        exact ⟨⟨1, "t1", "ada", 0, "/api/tos/accept", .session "s1"⟩, by decide +kernel, key.1.symm,
          key.2⟩
      · cases same
  | first :: second :: before, split => simp [across] at split

end ThetaDirectory.Forwarding
