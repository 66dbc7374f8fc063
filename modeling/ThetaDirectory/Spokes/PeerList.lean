import ThetaDirectory.Library.Keyed
import ThetaDirectory.SlapdConfig.Peers
import ThetaDirectory.Spokes.ServerIds

/-!
# The LDAP peers of a spoke

`GET /ldap-peers` of `routes/api_site.js`: a spoke names its endpoint and is told its own ServerID
and the peers it replicates with.
-/

namespace ThetaDirectory.Spokes

open Library SlapdConfig

/-- The directory of a site on the mesh. -/
def meshHost (siteId : Nat) : String := "ldap://10." ++ toString siteId ++ ".0.1:389"

def ldapMeshHost (siteId : Nat) : Option String :=
  if siteId < 1 then none else some (meshHost siteId)

/-- The fallback, by the host name of a URL that can be parsed. -/
def ldapHostFor (hostname : String → Option String) (endpoint : String) : Option String :=
  (hostname endpoint).map fun host => "ldaps://" ++ host ++ ":636"

def ldapHostForSpoke (hostname : String → Option String) (spoke : SiteSpoke) : Option String :=
  ((assignedId spoke.ldapServerId).bind ldapMeshHost).or (ldapHostFor hostname spoke.endpoint)

/-- `replace(/^https?:\/\//, '')` -/
def dropScheme (url : List Char) : List Char :=
  if "https://".toList.isPrefixOf url then url.drop 8
  else if "http://".toList.isPrefixOf url then url.drop 7
  else url

def normalize (url : String) : String :=
  String.ofList ((dropScheme (trim url).toList).rdropWhile (· == '/'))

inductive PeersResponse where
  | refused (status : Nat) (message : String)
  | ok (ldapServerId : Nat) (peers : List Peer)

/-- The entry of a spoke; one without a ServerID has none. -/
def peerEntry (hostname : String → Option String) (spoke : SiteSpoke) : Option Peer :=
  (assignedId spoke.ldapServerId).bind fun id =>
    (ldapHostForSpoke hostname spoke).map fun host => ⟨id, host⟩

def ldapPeers (hostname : String → Option String) (authenticated : Bool) (masterUrl : String)
    (callerEndpoint : String) (spokes : List SiteSpoke) : PeersResponse :=
  if authenticated = false then .refused 401 "invalid or revoked site join key or push token"
  else if callerEndpoint = "" then .refused 400 "endpoint query param is required"
  else
    let masterHost := ((ldapMeshHost 1).or (ldapHostFor hostname masterUrl)).getD ""
    let caller := spokes.find? fun spoke =>
      spoke.endpoint == callerEndpoint || normalize spoke.endpoint == normalize callerEndpoint
    match caller.bind fun caller => assignedId caller.ldapServerId with
    | none => .refused 404
        "this endpoint is not a registered spoke -- register via POST /api/site/spokes first"
    | some ldapServerId =>
        .ok ldapServerId (⟨1, masterHost⟩ :: spokes.filterMap fun spoke =>
          if spoke.endpoint = callerEndpoint then none else peerEntry hostname spoke)

/-- A spoke with a ServerID at its mesh address. -/
def meshPeer (spoke : SiteSpoke) : Option Peer :=
  (assignedId spoke.ldapServerId).map fun id => ⟨id, meshHost id⟩

/-- The peers a spoke should have: the master and each other spoke with a ServerID. -/
def wantedOf (spokes : List SiteSpoke) (caller : SiteSpoke) : List Peer :=
  ⟨1, meshHost 1⟩ :: (spokes.filter (· != caller)).filterMap meshPeer

variable {hostname : String → Option String} {masterUrl callerEndpoint : String}
variable {spokes : List SiteSpoke} {caller spoke : SiteSpoke} {ldapServerId : Nat}

theorem ldapMeshHost_assigned (assigned : assignedId spoke.ldapServerId = some ldapServerId) :
    ldapMeshHost ldapServerId = some (meshHost ldapServerId) := by
  have positive := (Option.filter_eq_some_iff.mp assigned).2
  apply if_neg
  rw [Nat.not_lt]
  exact Nat.one_le_iff_ne_zero.mpr (of_decide_eq_true positive)

/-- A spoke is listed at its mesh address. -/
theorem peerEntry_eq : peerEntry hostname spoke = meshPeer spoke := by
  unfold peerEntry ldapHostForSpoke meshPeer
  cases assigned : assignedId spoke.ldapServerId with
  | none => rfl
  | some id =>
      rw [Option.bind_some, Option.bind_some, ldapMeshHost_assigned assigned]
      rfl

section Caller

variable (distinct : (spokes.map fun spoke => normalize spoke.endpoint).Nodup)
variable (member : caller ∈ spokes) (spelled : normalize caller.endpoint = normalize callerEndpoint)

include distinct member spelled

theorem eq_caller (listed : spoke ∈ spokes) (same : spoke.endpoint = callerEndpoint) :
    spoke = caller :=
  List.inj_on_of_nodup_map distinct listed member (same ▸ spelled.symm)

/-- The caller is found under any spelling. -/
theorem find_caller : (spokes.find? fun spoke =>
    spoke.endpoint == callerEndpoint || normalize spoke.endpoint == normalize callerEndpoint) =
      some caller := by
  have either : (fun spoke : SiteSpoke => spoke.endpoint == callerEndpoint ||
      normalize spoke.endpoint == normalize callerEndpoint) =
        fun spoke => normalize spoke.endpoint == normalize callerEndpoint := by
    funext spoke
    rw [Bool.or_eq_right_iff_imp]
    intro same
    rw [eq_of_beq same, beq_self_eq_true]
  rw [either]
  exact (Keyed.find?_eq_some_iff distinct).mpr ⟨member, spelled⟩

theorem ldapPeers_eq (asks : callerEndpoint ≠ "")
    (assigned : assignedId caller.ldapServerId = some ldapServerId) :
    ldapPeers hostname true masterUrl callerEndpoint spokes =
      .ok ldapServerId (⟨1, meshHost 1⟩ :: spokes.filterMap fun spoke =>
        if spoke.endpoint = callerEndpoint then none else meshPeer spoke) := by
  unfold ldapPeers
  rw [if_neg Bool.noConfusion, if_neg asks, find_caller distinct member spelled]
  dsimp only
  rw [Option.bind_some, assigned]
  simp only [peerEntry_eq]
  rfl

end Caller

/-- The list is complete and leaves the caller out exactly when it asks with the very text that it
is registered under. -/
theorem ldapPeers_complete_iff (hostname : String → Option String)
    (masterUrl callerEndpoint : String) (spokes : List SiteSpoke) (caller : SiteSpoke)
    (ldapServerId : Nat) (distinct : (spokes.map fun spoke => normalize spoke.endpoint).Nodup)
    (member : caller ∈ spokes) (spelled : normalize caller.endpoint = normalize callerEndpoint)
    (asks : callerEndpoint ≠ "")
    (assigned : assignedId caller.ldapServerId = some ldapServerId) :
    (∃ peers, ldapPeers hostname true masterUrl callerEndpoint spokes = .ok ldapServerId peers ∧
        peers.Perm (wantedOf spokes caller)) ↔
      caller.endpoint = callerEndpoint := by
  rw [ldapPeers_eq distinct member spelled asks assigned]
  have nodup : spokes.Nodup := List.Nodup.of_map _ distinct
  constructor
  · intro listed
    obtain ⟨peers, isList, complete⟩ := listed
    cases isList
    by_contra other
    -- No spoke has the text of the caller, so nobody is left out.
    have all : spokes.filterMap (fun spoke =>
        if spoke.endpoint = callerEndpoint then none else meshPeer spoke) =
          spokes.filterMap meshPeer := by
      apply List.filterMap_congr
      intro spoke inTable
      apply if_neg
      intro same
      exact other (eq_caller distinct member spelled inTable same ▸ same)
    have own : meshPeer caller = some ⟨ldapServerId, meshHost ldapServerId⟩ :=
      congrArg (Option.map _) assigned
    have lengths := complete.length_eq
    rw [wantedOf, all, List.length_cons, List.length_cons,
      ((List.perm_cons_erase member).filterMap _).length_eq, List.filterMap_cons_some own,
      List.length_cons, nodup.erase_eq_filter] at lengths
    exact absurd lengths (Nat.succ_ne_self _)
  · intro same
    refine ⟨_, rfl, ?_⟩
    have skipped : spokes.filterMap (fun spoke =>
        if spoke.endpoint = callerEndpoint then none else meshPeer spoke) =
          (spokes.filter (· != caller)).filterMap meshPeer := by
      rw [List.filterMap_filter]
      apply List.filterMap_congr
      intro spoke inTable
      by_cases isCaller : spoke = caller
      · simp [isCaller, same]
      · have apart : spoke.endpoint ≠ callerEndpoint := fun text =>
          isCaller (eq_caller distinct member spelled inTable text)
        simp [isCaller, apart]
    rw [skipped]
    exact List.Perm.refl _

/-- The host of a URL without a port. -/
private def hostOf (url : String) : Option String :=
  some (String.ofList ((normalize url).toList.takeWhile (· != '/')))

private def registeredSpoke (id endpoint : String) (ldapServerId : Nat) : SiteSpoke :=
  ⟨id, endpoint, none, "", false, "", "", some ldapServerId⟩

theorem ldapPeers_complete_exact : (∃ peers, ldapPeers hostOf true "" "https://b.example"
      [registeredSpoke "b" "https://b.example" 2, registeredSpoke "c" "https://c.example" 3] =
        .ok 2 peers ∧ peers.Perm (wantedOf [registeredSpoke "b" "https://b.example" 2,
          registeredSpoke "c" "https://c.example" 3] (registeredSpoke "b" "https://b.example" 2))) ↔
    (registeredSpoke "b" "https://b.example" 2).endpoint = "https://b.example" :=
  ldapPeers_complete_iff hostOf "" "https://b.example" _ (registeredSpoke "b" "https://b.example" 2)
    2 (by decide +kernel) List.mem_cons_self rfl (by decide) (by decide)

/-- A spoke that asks with a slash behind its endpoint is its own peer. -/
theorem ldapPeers_self : ¬ ∀ spokes : List SiteSpoke, ∀ caller ∈ spokes,
    (spokes.map fun spoke => normalize spoke.endpoint).Nodup →
      normalize caller.endpoint = normalize "https://b.example/" →
        assignedId caller.ldapServerId = some 2 →
          ∃ peers, ldapPeers hostOf true "" "https://b.example/" spokes = .ok 2 peers ∧
            peers.Perm (wantedOf spokes caller) := by
  intro always
  obtain ⟨peers, isList, complete⟩ := always [registeredSpoke "b" "https://b.example" 2]
    (registeredSpoke "b" "https://b.example" 2) List.mem_cons_self (by decide +kernel)
    (by decide +kernel) (by decide)
  have length : peers.length = 2 := by
    rw [ldapPeers_eq (by decide +kernel) List.mem_cons_self (by decide +kernel) (by decide) rfl]
      at isList
    cases isList
    decide +kernel
  rw [complete.length_eq] at length
  exact absurd length (by decide)

end ThetaDirectory.Spokes
