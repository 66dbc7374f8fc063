import ThetaDirectory.Number
import ThetaDirectory.SlapdConfig.Convergence

/-!
# Drift

`currentReplicationState` and `replicationDrift` of `utils/ldap_replication.js`, which compare the
hosts of the peers, beside `applyReplicationConfig`, which compares them rid by rid.
-/

namespace ThetaDirectory.SlapdConfig

/-- What `slapd.conf` says, as far as it can be read. -/
structure Seed where
  serverId : Option Nat
  peers : Option (List String)

/-- What `slapd` runs with; the inner `none` of an id is no finite number. -/
structure ReplicationState where
  source : String
  serverId : Option (Option ℚ)
  peers : Option (List String)

/-- The hosts of a map. -/
def providers (map : PeerMap) : List String := map.entries.map fun entry => entry.2

def currentReplicationState (settings : Settings) (search : LdapSearch) (config : Config)
    (seed : Seed) : ReplicationState :=
  match readCurrent settings search config with
  | some live =>
      { source := "cn=config"
        serverId := match live.serverIds with
          | [serverId] => some (finiteNumber serverId)
          | _ => none
        peers := some (providers (providersByRid live.syncrepl)) }
  | none =>
      { source := "slapd.conf"
        serverId := seed.serverId.map fun serverId => some (serverId : ℚ)
        peers := seed.peers }

/-- Where nothing could be read, nothing is told. -/
structure Drift where
  configuredServerId : Option (Option ℚ)
  configuredPeers : Option (List String)
  expectedPeers : List String
  serverIdStale : Option Bool
  peersStale : Option Bool
  stale : Option Bool
  missingPeers : List String
  extraPeers : List String

/-- The hosts that the peers name. -/
def listedHosts (peers : List Peer) : List String :=
  (peers.map (·.ldapHost)).filter (· ≠ "")

def replicationDrift (advertisedServerId : Option Nat) (advertisedPeers : List Peer)
    (state : ReplicationState) : Drift :=
  let expected := listedHosts advertisedPeers
  match state.peers with
  | none => ⟨state.serverId, none, expected, none, none, none, [], []⟩
  | some configuredPeers =>
      let missingPeers := expected.filter (!configuredPeers.contains ·)
      let extraPeers := configuredPeers.filter (!expected.contains ·)
      let serverIdStale := match state.serverId, advertisedServerId with
        | some configured, some advertised => some (configured != some (advertised : ℚ))
        | _, _ => none
      let peersStale := !missingPeers.isEmpty || !extraPeers.isEmpty
      { configuredServerId := state.serverId
        configuredPeers := some configuredPeers
        expectedPeers := expected
        serverIdStale
        peersStale := some peersStale
        stale := some (serverIdStale.getD false || peersStale)
        missingPeers
        extraPeers }

/-! ## Two comparisons -/

/-- Some modification replaces the peers. -/
def IssuesSyncrepl (changes : List Change) : Prop :=
  ∃ change ∈ changes, ∃ values, ("olcSyncrepl", values) ∈ change.replaces

/-- The hosts that run are the listed ones. -/
def SameHosts (running : PeerMap) (peers : List Peer) : Prop :=
  ∀ host, host ∈ providers running ↔ host ∈ listedHosts peers

/-- The listed hosts run, but not under the rids of their sites. -/
def Shuffled (running : PeerMap) (peers : List Peer) : Prop :=
  SameHosts running peers ∧ ¬ SamePeers running (wantedPeers peers)

/-- What is wanted runs, but some host is listed that no rid is wanted for. -/
def Unplaced (running : PeerMap) (peers : List Peer) : Prop :=
  SamePeers running (wantedPeers peers) ∧
    ∃ host ∈ listedHosts peers, host ∉ providers (wantedPeers peers)

variable {settings : Settings} {search : LdapSearch} {config : Config} {seed : Seed}
variable {serverId : Nat} {peers : List Peer} {running : PeerMap}

theorem mem_providers {map : PeerMap} {host : String} :
    host ∈ providers map ↔ ∃ rid, map.lookup rid = some host := by
  rw [providers, List.mem_map]
  constructor
  · intro listed
    obtain ⟨entry, member, same⟩ := listed
    exact ⟨entry.1, same ▸ AList.mem_lookup_iff.mpr member⟩
  · intro found
    obtain ⟨rid, isHost⟩ := found
    exact ⟨⟨rid, host⟩, AList.mem_lookup_iff.mp isHost, rfl⟩

theorem wanted_listed {host : String} (wanted : host ∈ providers (wantedPeers peers)) :
    host ∈ listedHosts peers := by
  obtain ⟨rid, found⟩ := mem_providers.mp wanted
  obtain ⟨peer, member, -, -, rfl, filled⟩ := exists_of_wantedPeers found
  exact List.mem_filter.mpr ⟨List.mem_map_of_mem member, decide_eq_true filled⟩

/-- Where the wanted peers run, the hosts differ exactly when one is listed in vain. -/
theorem unplaced_iff : Unplaced running peers ↔
    SamePeers running (wantedPeers peers) ∧ ¬ SameHosts running peers := by
  unfold Unplaced
  apply and_congr_right
  intro same
  have hosts {host : String} : host ∈ providers running ↔ host ∈ providers (wantedPeers peers) := by
    rw [mem_providers, mem_providers]
    exact exists_congr fun rid => by rw [same rid]
  constructor
  · intro listed agree
    obtain ⟨host, member, unwanted⟩ := listed
    exact unwanted (hosts.mp ((agree host).mpr member))
  · intro differ
    by_contra none
    push Not at none
    exact differ fun host => ⟨fun runs => wanted_listed (hosts.mp runs),
      fun listed => hosts.mpr (none host listed)⟩

/-! ## What each reports -/

theorem isEmpty_filter_iff {hosts others : List String} :
    (hosts.filter (!others.contains ·)).isEmpty = true ↔ ∀ host ∈ hosts, host ∈ others := by
  rw [List.isEmpty_iff, List.filter_eq_nil_iff]
  apply forall₂_congr
  intro host _
  simp

theorem peersStale_iff (reaches : Reaches settings search config)
    (advertisedServerId : Option Nat) :
    (replicationDrift advertisedServerId peers
        (currentReplicationState settings search config seed)).peersStale = some true ↔
      ¬ SameHosts (plainPeers search config.syncrepl) peers := by
  have state : (currentReplicationState settings search config seed).peers =
      some (providers (plainPeers search config.syncrepl)) := by
    unfold currentReplicationState
    rw [readCurrent_of_reaches reaches, ← providersByRid_readSyncrepl]
    rfl
  unfold replicationDrift
  rw [state]
  dsimp only
  rw [Option.some.injEq, ← Bool.not_and, Bool.not_eq_true', ← Bool.not_eq_true, not_iff_not,
    Bool.and_eq_true, isEmpty_filter_iff, isEmpty_filter_iff]
  constructor
  · intro agree host
    exact ⟨agree.2 host, agree.1 host⟩
  · intro same
    exact ⟨fun host => (same host).mpr, fun host => (same host).mp⟩

theorem mem_changeOf {dn : String} {replaces : List (String × List String)} {change : Change} :
    change ∈ changeOf dn replaces ↔ replaces ≠ [] ∧ change = ⟨dn, replaces⟩ := by
  unfold changeOf
  cases replaces with
  | nil => simp
  | cons first rest => simp

theorem name_of_replaceServerId {current : Current} {replace : String × List String}
    (member : replace ∈ replaceServerId current serverId) : replace.1 = "olcServerID" := by
  rw [replaceServerId, List.mem_ite_nil_right] at member
  rw [List.mem_singleton.mp member.2]

theorem name_of_replaceMirrorMode {current : Current} {want : PeerMap}
    {replace : String × List String} (member : replace ∈ replaceMirrorMode current want) :
    replace.1 = "olcMirrorMode" := by
  rw [replaceMirrorMode, List.mem_ite_nil_right] at member
  rw [List.mem_singleton.mp member.2]

theorem issuesSyncrepl_iff (reaches : Reaches settings search config) :
    IssuesSyncrepl (applyReplicationConfig settings search config serverId peers) ↔
      ¬ SamePeers (plainPeers search config.syncrepl) (wantedPeers peers) := by
  rw [apply_of_reaches reaches, ← @replaceSyncrepl_eq_nil_iff settings]
  constructor
  · intro issued unchanged
    obtain ⟨change, member, values, replaced⟩ := issued
    unfold modifications at member
    dsimp only at member
    rw [unchanged, List.nil_append] at member
    rcases List.mem_append.mp member with ofId | ofDatabase
    · rw [(mem_changeOf.mp ofId).2] at replaced
      have isId : "olcSyncrepl" = "olcServerID" := name_of_replaceServerId replaced
      exact absurd isId (by decide)
    · rw [(mem_changeOf.mp ofDatabase).2] at replaced
      have ofMode : ("olcSyncrepl", values) ∈
          replaceMirrorMode (currentOf search config) (wantedPeers peers) := by
        dsimp only at replaced
        split at replaced
        · exact replaced
        · exact List.mem_reverse.mp replaced
      have isMode : "olcSyncrepl" = "olcMirrorMode" := name_of_replaceMirrorMode ofMode
      exact absurd isMode (by decide)
  · intro changed
    obtain ⟨replace, isReplace⟩ := List.exists_mem_of_ne_nil _ changed
    have isSyncrepl : replace = ("olcSyncrepl", syncreplValues settings (wantedPeers peers)) := by
      rw [replaceSyncrepl, List.mem_ite_nil_right] at isReplace
      exact List.mem_singleton.mp isReplace.2
    rw [isSyncrepl] at isReplace
    -- The order of the two replaced attributes does not matter.
    have inMods : ∀ mods : List (String × List String),
        ("olcSyncrepl", syncreplValues settings (wantedPeers peers)) ∈ mods →
          ("olcSyncrepl", syncreplValues settings (wantedPeers peers)) ∈
            if wantMirror (wantedPeers peers) = true then mods else mods.reverse := by
      intro mods member
      split
      · exact member
      · exact List.mem_reverse.mpr member
    have placed := inMods _ (List.mem_append_left
      (replaceMirrorMode (currentOf search config) (wantedPeers peers)) isReplace)
    exact ⟨_, List.mem_append_right _ (mem_changeOf.mpr ⟨List.ne_nil_of_mem placed, rfl⟩), _, placed⟩

/-- A site that was started with the hosts of two others, which got the rids 101 and 102. -/
private def seeded : Config where
  dn := valueOf "olcDatabase=\x7b1\x7dmdb,cn=config"
  suffixes := [valueOf "dc=e2e,dc=test"]
  serverIds := [valueOf "2"]
  syncrepl := [valueOf "\x7b0\x7drid=101 provider=ldap://10.1.0.1:389",
    valueOf "\x7b1\x7drid=102 provider=ldap://10.3.0.1:389"]
  mirrorMode := some true

private theorem reaches_seeded : Reaches siteSettings wrapping seeded :=
  ⟨by decide, by decide, by decide, by decide +kernel⟩

private def unread : Seed := ⟨none, none⟩

end ThetaDirectory.SlapdConfig
