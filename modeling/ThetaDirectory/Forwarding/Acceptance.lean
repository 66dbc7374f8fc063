import ThetaDirectory.Forwarding.Authenticity

/-!
# What a site makes of a request that another site has sent on

The request as it leaves the one site, read by the other.
-/

namespace ThetaDirectory.Forwarding

open Library

variable {hmac : Hmac} {site hub : Site} {request message : Request} {caller : Caller}
  {now later : Nat} {identity : Identity}

/-- The name that a site gives itself. -/
def Site.name (site : Site) : String := if site.siteSlug = "" then "spoke" else site.siteSlug

theorem truthy_ne_empty {text : Option String} {value : String} (given : truthy text = some value) :
    value ≠ "" := by
  unfold truthy at given
  simpa using (Option.filter_eq_some_iff.mp given).2

theorem session_ne_empty (found : site.session request = some caller) : caller.uid ≠ "" := by
  obtain ⟨token, -, rest⟩ := Option.bind_eq_some_iff.mp found
  obtain ⟨uid, known, made⟩ := Option.bind_eq_some_iff.mp rest
  cases made
  exact truthy_ne_empty known

/-- `resolveCaller` finds nobody without a name. -/
theorem caller_ne_empty (found : site.resolveCaller request = some caller) : caller.uid ≠ "" := by
  unfold Site.resolveCaller at found
  split at found
  · split at found
    · rcases Option.or_eq_some_iff.mp found with known | ⟨-, known⟩
      · obtain ⟨uid, user, rfl⟩ := Option.map_eq_some_iff.mp known
        exact truthy_ne_empty user
      · exact session_ne_empty known
    · split at found
      · split at found
        · cases found
        · rename_i named
          cases found
          exact named
      · exact session_ne_empty found
  · exact session_ne_empty found

/-- What is sent, and for whom. -/
structure Sent (hmac : Hmac) (site : Site) (now : Nat) (request : Request) (caller : Caller)
    (message : Request) : Prop where
  keyed : site.replicationPushToken ≠ ""
  named : caller.uid ≠ ""
  made : ∃ header, message = forwarded hmac site now request caller header

theorem sent_of_proxy (sent : site.spokeWriteProxy hmac now request = .sent caller message) :
    Sent hmac site now request caller message := by
  unfold Site.spokeWriteProxy at sent
  split at sent
  · cases sent
  · split at sent
    · cases sent
    · rename_i ready
      split at sent
      · cases sent
      · rename_i caller found
        split at sent
        · rename_i header
          cases sent
          exact ⟨(not_or.mp ready).2, caller_ne_empty found, header, rfl⟩
        · cases sent

theorem bearer_forwarded {header : isHeader caller.uid = true}
    (trimmed : trim site.replicationPushToken = site.replicationPushToken) :
    (forwarded hmac site now request caller header).bearer = some site.replicationPushToken := by
  have front : ("Bearer " ++ site.replicationPushToken).toList.take 7 = "Bearer ".toList := by
    simp [String.toList_append]
  have back : ("Bearer " ++ site.replicationPushToken).toList.drop 7 =
      site.replicationPushToken.toList := by
    simp [String.toList_append]
  have lower : toLowerCase "Bearer " = "bearer " := by decide +kernel
  simp only [Request.bearer, forwarded, Option.getD_some, front, back, String.ofList_toList, lower,
    if_true, trimmed]

theorem authenticate_origin (found : site.authenticate request = some identity) (slug : String) :
    identity.origin ≠ .forwarded slug := by
  obtain ⟨credential, origin, -⟩ := shown_authenticate found
  rw [origin]
  exact Origin.noConfusion

theorem forwarder_key {token slug key : String} (found : hub.forwarder token = some (slug, key)) :
    key = token := by
  unfold Site.forwarder at found
  split at found
  · rename_i master
    cases found
    exact eq_of_beq (Bool.and_eq_true_iff.mp master).2
  · obtain ⟨row, known, same⟩ := Option.map_eq_some_iff.mp found
    cases same
    have named := List.find?_some known
    exact eq_of_beq named

/-- The word of another site counts if its token is known under its name, the user is known here,
and not more than five minutes have passed. -/
structure Counts (hub site : Site) (now later : Nat) (uid : String) (identity : Identity) : Prop where
  known : ∃ slug, hub.forwarder site.replicationPushToken = some (slug, site.replicationPushToken) ∧
    (slug = "" ∨ slug = site.name) ∧
    identity.origin = .forwarded (if slug = "" then "cluster" else slug)
  user : hub.user uid = some identity.uid
  named : identity.uid ≠ ""
  timely : later ≤ now + WINDOW_MS ∧ now ≤ later + WINDOW_MS

theorem name_ne_empty : site.name ≠ "" := by
  unfold Site.name
  split
  · decide
  · rename_i named
    exact named

theorem forwardedBy_iff (sent : Sent hmac site now request caller message) (bounded : now ≤ MAX_TIME)
    (digests : ∀ key text, hmac key text ≠ []) :
    hub.forwardedBy hmac later message site.replicationPushToken caller.uid = .identified identity ↔
      Counts hub site now later caller.uid identity := by
  obtain ⟨keyed, named, header, rfl⟩ := sent
  have verified := @verify_sign_iff hmac later site.replicationPushToken caller.uid request.path now
    keyed named (bounded.trans_lt (by decide)) (digests _ _)
  unfold Site.forwardedBy
  cases known : hub.forwarder site.replicationPushToken with
  | none =>
      simp only [reduceCtorEq, false_iff]
      rintro ⟨⟨slug, found, -⟩, -⟩
      rw [known] at found
      cases found
  | some found =>
      obtain ⟨slug, key⟩ := found
      cases forwarder_key known
      have claimed : (forwarded hmac site now request caller header).forwardedSpoke.getD "" =
          site.name := rfl
      have path : (forwarded hmac site now request caller header).path = request.path := rfl
      simp only [claimed, path, name_ne_empty, false_or, keyed]
      constructor
      · intro answered
        split at answered
        · rename_i agrees
          split at answered
          · cases answered
          · rename_i valid
            rw [Bool.not_eq_false] at valid
            split at answered
            · rename_i uid user
              cases answered
              exact ⟨⟨slug, known, agrees.imp_right Eq.symm, rfl⟩, eq_of_truthy user,
                truthy_ne_empty user, verified.mp valid⟩
            · cases answered
        · cases answered
      · rintro ⟨⟨other, found, agrees, origin⟩, user, present, timely⟩
        rw [known] at found
        cases found
        have valid := verified.mpr timely
        have user : truthy (hub.user caller.uid) = some identity.uid := by
          simp [truthy, user, present]
        rw [if_pos (agrees.imp_right Eq.symm), if_neg (by simpa [forwarded] using valid), user, ← origin]

/-- HMAC-SHA256 at the one input that is signed. -/
private def stamp : List UInt8 :=
  [204, 214, 229, 195, 180, 55, 144, 18, 199, 235, 113, 31, 189, 220, 79, 244, 252, 217, 172, 5,
    160, 118, 95, 81, 97, 162, 241, 147, 41, 35, 58, 127]

private def centre : Site where
  isMaster := true
  masterUrl := ""
  siteSlug := "hub"
  replicationPushToken := ""
  masterJoinKey := ""
  spokes := [⟨"https://edge.example", "edge", "t1"⟩]
  user := some
  checkApiToken := fun _ => none
  serviceToken := fun _ => none
  checkToken := fun _ => none

private def edge : Site where
  isMaster := false
  masterUrl := "https://hub.example"
  siteSlug := "edge"
  replicationPushToken := "t1"
  masterJoinKey := ""
  spokes := []
  user := some
  checkApiToken := fun _ => none
  serviceToken := fun _ => none
  checkToken := fun token => if token = "s1" then some "ada" else none

private theorem plain_absent :
    ∀ header ∈ [(none : Option String), none], ∀ text ∈ header, '\n' ∉ text.toList := by
  simp

private def agrees : Request :=
  ⟨"POST", "/api/tos/accept", none, some "s1", none, none, none, none, none, plain_absent⟩

end ThetaDirectory.Forwarding
