import ThetaDirectory.SlapdConfig.Peers

/-!
# Applying the replication configuration

`applyReplicationConfig` of `utils/ldap_runtime_config.js`: what is read of `cn=config`, which
attributes are replaced, and what `slapd` stores then.
-/

namespace ThetaDirectory.SlapdConfig

open Library Migration

/-- What `cn=config` stores of the database of the directory. -/
structure Config where
  dn : Value
  suffixes : List Value
  serverIds : List Value
  syncrepl : List Value
  mirrorMode : Option Bool

def flagValue (flag : Bool) : Value where
  text := if flag then "TRUE" else "FALSE"
  visible := by cases flag <;> decide

/-! ## Searching -/

def searchDatabases (search : LdapSearch) (config : Config) : List Char :=
  search.entry (("dn", config.dn) :: config.suffixes.map (Prod.mk "olcSuffix"))

def searchServerIds (search : LdapSearch) (serverIds : List Value) : List Char :=
  search.entry (("dn", ⟨"cn=config", by decide⟩) :: serverIds.map (Prod.mk "olcServerID"))

/-- The mirror mode is stored and printed under its newer name. -/
def searchSyncrepl (search : LdapSearch) (config : Config) : List Char :=
  search.entry (("dn", config.dn) :: config.syncrepl.map (Prod.mk "olcSyncrepl") ++
    config.mirrorMode.toList.map fun flag => ("olcMultiProvider", flagValue flag))

/-! ## Reading -/

def findDatabaseDn (baseDn : String) (stdout : List Char) : Option String :=
  ((stdout.splitOn '\n').splitOn []).findSome? fun entry =>
    match (captures "dn".toList none entry).head? with
    | none => none
    | some dn =>
        let suffix := (captures "olcSuffix".toList none entry).head?
        if baseDn = "" || suffix.all (fun suffix => trim (String.ofList suffix) == baseDn) then
          some (trim (String.ofList dn))
        else none

structure Current where
  dbDn : String
  serverIds : List String
  syncrepl : List String
  mirrorMode : Bool

/-- These lines are read as they are folded. -/
def readServerIds (search : LdapSearch) (serverIds : List Value) : List String :=
  (matchAll "olcServerID" (searchServerIds search serverIds)).map trim

def readSyncrepl (search : LdapSearch) (config : Config) : List String :=
  (matchAll "olcSyncrepl" (unfold (searchSyncrepl search config))).map trim

def readMirrorMode (search : LdapSearch) (config : Config) : Bool :=
  let unfolded := unfold (searchSyncrepl search config)
  (matchAll "olcMirrorMode" unfolded ++ matchAll "olcMultiProvider" unfolded).any
    fun flag => toLowerCase flag == "true"

/-- What is configured, unless the database is not found under the DN that was read. -/
def readCurrent (settings : Settings) (search : LdapSearch) (config : Config) : Option Current :=
  match findDatabaseDn settings.baseDn (searchDatabases search config) with
  | none => none
  | some dbDn =>
      if dbDn = config.dn.text then
        some { dbDn
               serverIds := readServerIds search config.serverIds
               syncrepl := readSyncrepl search config
               mirrorMode := readMirrorMode search config }
      else none

/-! ## Changing -/

/-- A modification of an entry: attributes with the values that replace theirs. -/
structure Change where
  dn : String
  replaces : List (String × List String)
  deriving DecidableEq, Repr

def replaceServerId (current : Current) (serverId : Nat) : List (String × List String) :=
  let haveServerId := match current.serverIds with
    | [serverId] => some serverId
    | _ => none
  if serverId ≠ 0 ∧ haveServerId ≠ some (toString serverId) then
    [("olcServerID", [toString serverId])]
  else []

/-- The values that are written for the wanted peers. -/
def syncreplValues (settings : Settings) (want : PeerMap) : List String :=
  (sortedPeers want).map fun peer => syncreplValue settings peer.1 peer.2

def replaceSyncrepl (settings : Settings) (current : Current) (want : PeerMap) :
    List (String × List String) :=
  if peersDiffer (providersByRid current.syncrepl) want then
    [("olcSyncrepl", syncreplValues settings want)]
  else []

def wantMirror (want : PeerMap) : Bool := !want.entries.isEmpty

def replaceMirrorMode (current : Current) (want : PeerMap) : List (String × List String) :=
  if wantMirror want ≠ current.mirrorMode then
    [("olcMirrorMode", [if wantMirror want then "TRUE" else "FALSE"])]
  else []

def changeOf (dn : String) (replaces : List (String × List String)) : List Change :=
  if replaces.isEmpty then [] else [⟨dn, replaces⟩]

def modifications (settings : Settings) (current : Current) (serverId : Nat) (peers : List Peer) :
    List Change :=
  let want := wantedPeers peers
  let dbMods := replaceSyncrepl settings current want ++ replaceMirrorMode current want
  changeOf "cn=config" (replaceServerId current serverId) ++
    changeOf current.dbDn (if wantMirror want then dbMods else dbMods.reverse)

/-- The modifications that are issued. -/
def applyReplicationConfig (settings : Settings) (search : LdapSearch) (config : Config)
    (serverId : Nat) (peers : List Peer) : List Change :=
  if settings.baseDn = "" ∨ settings.bindDn = "" then []
  else if settings.configAdminCred = "" then []
  else
    match readCurrent settings search config with
    | none => []
    | some current => modifications settings current serverId peers

/-! ## Storing -/

/-- How `slapd` stores the values that replace those of an attribute. -/
structure Slapd where
  keep : String → List String → List Value

namespace Slapd

def replace (slapd : Slapd) (dn : String) (config : Config) (change : String × List String) :
    Config :=
  if dn = "cn=config" ∧ change.1 = "olcServerID" then
    { config with serverIds := slapd.keep change.1 change.2 }
  else if dn = config.dn.text ∧ change.1 = "olcSyncrepl" then
    { config with syncrepl := slapd.keep change.1 change.2 }
  else if dn = config.dn.text ∧ change.1 = "olcMirrorMode" then
    { config with mirrorMode := some (change.2 == ["TRUE"]) }
  else config

def modify (slapd : Slapd) (config : Config) (changes : List Change) : Config :=
  changes.foldl (fun config change => change.replaces.foldl (slapd.replace change.dn) config) config

end Slapd

end ThetaDirectory.SlapdConfig
