import ThetaDirectory.SlapdConfig.Runtime

/-!
# When the configuration converges

What a search shows of the stored peers and of the mirror mode, however it folds its lines, and
from it when one call of `applyReplicationConfig` brings the database to what is wanted and the
next one leaves it alone.
-/

namespace ThetaDirectory.SlapdConfig

open Library Migration

variable {settings : Settings} {search : LdapSearch} {slapd : Slapd} {config : Config}
variable {serverId : Nat} {peers : List Peer} {want : PeerMap} {values : List String}

/-! ## What is read of a value -/

theorem trim_dropWhile (text : List Char) :
    trim (String.ofList (text.dropWhile isSpace)) = trim (String.ofList text) := by
  unfold trim
  rw [String.toList_ofList, String.toList_ofList, List.dropWhile_idempotent]

/-- What stands behind the first mark of base64 is a mark. -/
theorem mark_of_base64 {front rest : List Char} {char : Char} (fill : Nat) (octets : List UInt8)
    (inside : ':' :: (List.replicate fill ' ' ++ Octets.base64Encode octets) =
      front ++ '=' :: char :: rest) : char = '=' := by
  obtain ⟨digits, count, isText, allDigits, -⟩ := Octets.base64Encode_shape octets
  have free : '=' ∉ ':' :: (List.replicate fill ' ' ++ digits) := by
    rw [List.mem_cons, List.mem_append, not_or, not_or]
    refine ⟨by decide, fun inFill => ?_, fun inDigits => ?_⟩
    · exact absurd (List.eq_of_mem_replicate inFill) (by decide)
    · exact absurd (allDigits '=' inDigits) (by decide)
  have split : (':' :: (List.replicate fill ' ' ++ digits)) ++ List.replicate count '=' =
      front ++ '=' :: char :: rest := by
    rw [← inside, isText, List.cons_append, List.append_assoc]
  rcases List.append_eq_append_iff.mp split with ⟨middle, -, marks⟩ | ⟨middle, isFront, isRest⟩
  · have member : char ∈ List.replicate count '=' := by
      rw [marks]
      exact List.mem_append_right _ (List.mem_cons_of_mem _ List.mem_cons_self)
    exact List.eq_of_mem_replicate member
  · cases middle with
    | nil =>
        have member : char ∈ List.replicate count '=' := by
          rw [List.nil_append] at isRest
          rw [← isRest]
          exact List.mem_cons_of_mem _ List.mem_cons_self
        exact List.eq_of_mem_replicate member
    | cons first middle =>
        rw [List.cons_append] at isRest
        obtain ⟨rfl, -⟩ := List.cons.inj isRest
        exact absurd (isFront ▸ List.mem_append_right _ List.mem_cons_self) free

/-- A text that is part of another. -/
theorem exists_around_trim (text : List Char) :
    ∃ front back, text = front ++ (trim (String.ofList text)).toList ++ back := by
  obtain ⟨front, isText⟩ := @List.dropWhile_suffix _ text isSpace
  obtain ⟨back, isRest⟩ := List.rdropWhile_prefix isSpace (text.dropWhile isSpace)
  refine ⟨front, back, ?_⟩
  rw [trim, String.toList_ofList, String.toList_ofList, List.append_assoc, isRest, isText]

/-- No peer is read out of a value in base64. -/
theorem peerOf_base64 (fill : Nat) (octets : List UInt8) :
    peerOf (trim (String.ofList
      (':' :: (List.replicate fill ' ' ++ Octets.base64Encode octets)))) = none := by
  have noRid : ridOf (trim (String.ofList
      (':' :: (List.replicate fill ' ' ++ Octets.base64Encode octets)))).toList = none := by
    rw [Option.eq_none_iff_forall_ne_some]
    intro rid read
    obtain ⟨front, rest, isTrimmed, accepted⟩ := firstMatch_some read
    obtain ⟨before, after, isText⟩ :=
      exists_around_trim (':' :: (List.replicate fill ' ' ++ Octets.base64Encode octets))
    dsimp only at accepted
    cases rest with
    | nil => cases accepted
    | cons char rest =>
        have isMark : char = '=' := by
          apply @mark_of_base64 (before ++ front ++ "rid".toList) (rest ++ after) char fill octets
          rw [isText, isTrimmed]
          simp
        subst isMark
        cases accepted
  rw [peerOf, noRid]

theorem peerOf_shown (value : Value) :
    peerOf (trim (String.ofList (search.shown "olcSyncrepl" value))) =
      if search.isPlain "olcSyncrepl" value then peerOf (trim value.text) else none := by
  unfold LdapSearch.shown LdapSearch.isPlain
  cases search.encoding "olcSyncrepl" value.text with
  | plain fill =>
      dsimp only
      rw [trim_dropWhile, String.ofList_toList]
      rfl
  | base64 fill => exact peerOf_base64 fill _

/-! ## What is read of an entry -/

/-- The peers of the values that are printed in plain. -/
def plainPeers (search : LdapSearch) (values : List Value) : PeerMap :=
  providersByRid ((values.filter (search.isPlain "olcSyncrepl")).map fun value => trim value.text)

/-- The peers of all stored values. -/
def storedPeers (values : List Value) : PeerMap :=
  providersByRid (values.map fun value => trim value.text)

theorem named_syncrepl : ∀ field ∈ ("dn", config.dn) :: config.syncrepl.map (Prod.mk "olcSyncrepl") ++
    config.mirrorMode.toList.map (fun flag => ("olcMultiProvider", flagValue flag)),
      IsName field.1.toList := by
  have named (name : String) (checked : name.toList ≠ [] ∧
      name.toList.all (fun char => decide (isTypeChar char = true ∨ char = '.')) = true) :
      IsName name.toList := ⟨checked.1, forall_of_all checked.2⟩
  intro field member
  rcases List.mem_append.mp member with front | flag
  · rcases List.mem_cons.mp front with rfl | value
    · exact named "dn" (by decide)
    · obtain ⟨value, -, rfl⟩ := List.mem_map.mp value
      exact named "olcSyncrepl" (by decide)
  · obtain ⟨flag, -, rfl⟩ := List.mem_map.mp flag
    exact named "olcMultiProvider" (by decide)

theorem matchAll_searchSyncrepl {name : String} (isName : IsName name.toList) :
    matchAll name (unfold (searchSyncrepl search config)) =
      ((("dn", config.dn) :: config.syncrepl.map (Prod.mk "olcSyncrepl") ++
        config.mirrorMode.toList.map fun flag => ("olcMultiProvider", flagValue flag)).filter
          (·.1 = name)).map fun field => String.ofList (search.shown name field.2) :=
  matchAll_entry _ named_syncrepl isName

/-- The peers are read of the values printed in plain, however lines are folded. -/
theorem providersByRid_readSyncrepl :
    providersByRid (readSyncrepl search config) = plainPeers search config.syncrepl := by
  have read : readSyncrepl search config = config.syncrepl.map fun value =>
      trim (String.ofList (search.shown "olcSyncrepl" value)) := by
    rw [readSyncrepl, matchAll_searchSyncrepl ⟨by decide, forall_of_all (by decide)⟩]
    simp [List.filter_map, List.map_map, Function.comp_def]
  have peers : peerOf ∘ (fun value => trim (String.ofList (search.shown "olcSyncrepl" value))) =
      fun value => if search.isPlain "olcSyncrepl" value then peerOf (trim value.text) else none := by
    funext value
    rw [Function.comp_apply, peerOf_shown]
  have pairs : (readSyncrepl search config).filterMap peerOf =
      ((config.syncrepl.filter (search.isPlain "olcSyncrepl")).map
        fun value => trim value.text).filterMap peerOf := by
    rw [read, List.filterMap_map, List.filterMap_map, List.filterMap_filter, peers]
    rfl
  unfold plainPeers
  rw [@providersByRid_eq (readSyncrepl search config), pairs, ← providersByRid_eq]

/-- The mirror mode is read where it is on and printed in plain. -/
theorem readMirrorMode_eq : readMirrorMode search config =
    (config.mirrorMode == some true && search.isPlain "olcMultiProvider" (flagValue true)) := by
  have shows (flag : Bool) :
      (toLowerCase (String.ofList (search.shown "olcMultiProvider" (flagValue flag))) == "true") =
        (flag && search.isPlain "olcMultiProvider" (flagValue true)) := by
    have encoded (fill : Nat) (text : List Char) :
        (toLowerCase (String.ofList (':' :: (List.replicate fill ' ' ++ text))) == "true") = false := by
      rw [beq_eq_false_iff_ne, ne_eq, ← String.toList_inj, toLowerCase, String.toList_ofList,
        String.toList_ofList, List.flatMap_cons]
      exact fun same => absurd (List.cons.inj same).1 (by decide)
    unfold LdapSearch.shown LdapSearch.isPlain
    cases flag with
    | true =>
        cases search.encoding "olcMultiProvider" (flagValue true).text with
        | plain fill =>
            change (toLowerCase (String.ofList ("TRUE".toList.dropWhile isSpace)) == "true") = true
            decide
        | base64 fill => exact encoded fill _
    | false =>
        cases search.encoding "olcMultiProvider" (flagValue false).text with
        | plain fill =>
            change (toLowerCase (String.ofList ("FALSE".toList.dropWhile isSpace)) == "true") = false
            decide
        | base64 fill => exact encoded fill _
  have own : IsName "olcMultiProvider".toList := ⟨by decide, forall_of_all (by decide)⟩
  have older : IsName "olcMirrorMode".toList := ⟨by decide, forall_of_all (by decide)⟩
  rw [readMirrorMode, matchAll_searchSyncrepl own, matchAll_searchSyncrepl older]
  cases config.mirrorMode with
  | none => simp [List.filter_map, Function.comp_def]
  | some flag => simp [List.filter_map, Function.comp_def, shows]

/-! ## Converging -/

/-- A ServerID as it is stored. -/
def idValue (serverId : Nat) : Value where
  text := toString serverId
  visible := by
    rw [Nat.toString_eq_repr, Nat.toList_repr, List.all_eq_false]
    obtain ⟨digit, member⟩ := List.exists_mem_of_ne_nil _ (@Nat.toDigits_ne_nil serverId 10)
    refine ⟨digit, member, ?_⟩
    rw [isSpace_digit (Nat.isDigit_of_mem_toDigits (by decide) (by decide) member)]
    exact Bool.false_ne_true

/-- The stored configuration is the wanted one. -/
structure AsWanted (config : Config) (serverId : Nat) (peers : List Peer) : Prop where
  serverIds : config.serverIds = [idValue serverId]
  syncrepl : SamePeers (storedPeers config.syncrepl) (wantedPeers peers)
  mirrorMode : (config.mirrorMode == some true) = wantMirror (wantedPeers peers)

/-- The configuration after a call. -/
def applied (slapd : Slapd) (settings : Settings) (search : LdapSearch) (config : Config)
    (serverId : Nat) (peers : List Peer) : Config :=
  slapd.modify config (applyReplicationConfig settings search config serverId peers)

/-- After a call the configuration is the wanted one, and the next call issues nothing. -/
structure Converges (slapd : Slapd) (settings : Settings) (search : LdapSearch) (config : Config)
    (serverId : Nat) (peers : List Peer) : Prop where
  wanted : AsWanted (applied slapd settings search config serverId peers) serverId peers
  quiet : applyReplicationConfig settings search
    (applied slapd settings search config serverId peers) serverId peers = []

/-- The directory may change `cn=config`, and the search leads it to its database. -/
structure Reaches (settings : Settings) (search : LdapSearch) (config : Config) : Prop where
  baseDn : settings.baseDn ≠ ""
  bindDn : settings.bindDn ≠ ""
  configAdminCred : settings.configAdminCred ≠ ""
  found : findDatabaseDn settings.baseDn (searchDatabases search config) = some config.dn.text

/-- Nothing that is stored or written is printed so that it is misread. -/
structure Settles (slapd : Slapd) (settings : Settings) (search : LdapSearch) (config : Config)
    (serverId : Nat) (peers : List Peer) : Prop where
  readable : readServerIds search [idValue serverId] = [toString serverId]
  unmistaken : readServerIds search config.serverIds = [toString serverId] →
    config.serverIds = [idValue serverId]
  syncrepl : SamePeers (plainPeers search config.syncrepl) (wantedPeers peers) ∧
      SamePeers (storedPeers config.syncrepl) (wantedPeers peers) ∨
    ¬ SamePeers (plainPeers search config.syncrepl) (wantedPeers peers) ∧
      (∀ rid provider, (wantedPeers peers).lookup rid = some provider → Legible provider) ∧
        ∀ value ∈ slapd.keep "olcSyncrepl" (syncreplValues settings (wantedPeers peers)),
          search.isPlain "olcSyncrepl" value = true
  mirrorMode : search.isPlain "olcMultiProvider" (flagValue true) = true ∨
    wantMirror (wantedPeers peers) = false ∧ config.mirrorMode ≠ some true

/-! ### The written peers -/

theorem read_legible (filled : ∀ rid provider, want.lookup rid = some provider → provider ≠ "")
    (legible : ∀ rid provider, want.lookup rid = some provider → Legible provider) :
    ∀ peer ∈ sortedPeers want, (peerOf ∘ fun peer : Nat × String =>
      syncreplValue settings peer.1 peer.2) peer = some peer := by
  intro peer member
  have wanted := mem_sortedPeers.mp member
  exact (peerOf_syncreplValue_iff (filled _ _ wanted)).mpr (legible _ _ wanted)

/-- The values that are kept are all printed in plain and give the wanted peers back exactly when
the providers are legible. -/
theorem kept_same_iff {kept : List Value} (filled : ∀ rid provider,
      want.lookup rid = some provider → provider ≠ "")
    (keeps : kept.map (fun value => peerOf (trim value.text)) =
      (syncreplValues settings want).map peerOf) :
    (SamePeers (storedPeers kept) want ∧ SamePeers (plainPeers search kept) want) ↔
      (∀ rid provider, want.lookup rid = some provider → Legible provider) ∧
        ∀ value ∈ kept, search.isPlain "olcSyncrepl" value = true := by
  rw [syncreplValues, List.map_map] at keeps
  constructor
  · intro same
    have legible : ∀ rid provider, want.lookup rid = some provider → Legible provider := by
      intro rid provider wanted
      obtain ⟨text, isValue, read⟩ := mem_of_lookup_providersByRid ((same.1 rid).trans wanted)
      obtain ⟨value, inKept, rfl⟩ := List.mem_map.mp isValue
      have inWritten := keeps ▸ List.mem_map_of_mem inKept
      obtain ⟨peer, inPeers, readBack⟩ := List.mem_map.mp inWritten
      have isPeer : peerOf (syncreplValue settings peer.1 peer.2) = some (rid, provider) :=
        readBack.trans read
      have sameRid : rid = peer.1 := rid_of_peerOf isPeer
      have sameProvider : some peer.2 = some provider :=
        (mem_sortedPeers.mp inPeers).symm.trans (sameRid ▸ wanted)
      rw [Option.some.inj sameProvider, ← sameRid] at isPeer
      exact (peerOf_syncreplValue_iff (filled rid provider wanted)).mp isPeer
    refine ⟨legible, ?_⟩
    intro value inKept
    rw [List.map_congr_left (@read_legible settings want filled legible)] at keeps
    have inWritten := keeps ▸ List.mem_map_of_mem inKept
    obtain ⟨peer, inPeers, isPeer⟩ := List.mem_map.mp inWritten
    have shown := (same.2 peer.1).trans (mem_sortedPeers.mp inPeers)
    obtain ⟨text, isValue, read⟩ := mem_of_lookup_providersByRid shown
    obtain ⟨other, inPlain, rfl⟩ := List.mem_map.mp isValue
    have distinct : (kept.map fun value => peerOf (trim value.text)).Nodup := by
      rw [keeps]
      exact (nodup_sortedPeers want).of_map.map (Option.some_injective _)
    have sameValue : value = other := List.inj_on_of_nodup_map distinct inKept
      (List.mem_of_mem_filter inPlain) (isPeer.symm.trans read.symm)
    rw [sameValue]
    exact (List.mem_filter.mp inPlain).2
  · intro clear
    obtain ⟨legible, allPlain⟩ := clear
    rw [List.map_congr_left (read_legible filled legible)] at keeps
    have plain : plainPeers search kept = storedPeers kept := by
      rw [plainPeers, List.filter_eq_self.mpr allPlain]
      rfl
    have stored : SamePeers (storedPeers kept) want := by
      intro rid
      have pairs : (kept.map fun value => trim value.text).filterMap peerOf = sortedPeers want := by
        have same := congrArg (List.filterMap id) keeps
        rw [List.filterMap_map, List.filterMap_map] at same
        rw [List.filterMap_map]
        exact same.trans List.filterMap_some
      have distinct : ((sortedPeers want).reverse.map Prod.fst).Nodup := by
        rw [List.map_reverse, List.nodup_reverse]
        exact nodup_sortedPeers want
      rw [storedPeers, lookup_providersByRid, pairs]
      apply Option.ext
      intro provider
      rw [Keyed.lookup_eq_some_iff distinct, List.mem_reverse, mem_sortedPeers]
    exact ⟨stored, plain ▸ stored⟩

/-! ### One attribute at a time -/

/-- What is read of a configuration that is reached. -/
def currentOf (search : LdapSearch) (config : Config) : Current where
  dbDn := config.dn.text
  serverIds := readServerIds search config.serverIds
  syncrepl := readSyncrepl search config
  mirrorMode := readMirrorMode search config

theorem replaceServerId_eq_nil_iff {current : Current} (nonzero : serverId ≠ 0) :
    replaceServerId current serverId = [] ↔ current.serverIds = [toString serverId] := by
  unfold replaceServerId
  cases current.serverIds with
  | nil => simp [nonzero]
  | cons first rest =>
      cases rest with
      | nil => simp [nonzero]
      | cons second rest => simp [nonzero]

theorem replaceSyncrepl_eq_nil_iff : replaceSyncrepl settings (currentOf search config) want = [] ↔
    SamePeers (plainPeers search config.syncrepl) want := by
  unfold replaceSyncrepl currentOf
  dsimp only
  rw [providersByRid_readSyncrepl, ← peersDiffer_eq_false_iff]
  cases peersDiffer (plainPeers search config.syncrepl) want <;> simp

theorem replaceMirrorMode_eq_nil_iff :
    replaceMirrorMode (currentOf search config) want = [] ↔ wantMirror want =
      (config.mirrorMode == some true && search.isPlain "olcMultiProvider" (flagValue true)) := by
  rw [← readMirrorMode_eq]
  unfold replaceMirrorMode
  split
  · rename_i differs
    exact iff_of_false (List.cons_ne_nil _ _) differs
  · rename_i same
    exact iff_of_true rfl (not_not.mp same)

theorem changeOf_eq_nil_iff {dn : String} {replaces : List (String × List String)} :
    changeOf dn replaces = [] ↔ replaces = [] := by
  unfold changeOf
  cases replaces <;> simp

theorem modifications_eq_nil_iff {current : Current} :
    modifications settings current serverId peers = [] ↔
      replaceServerId current serverId = [] ∧
        replaceSyncrepl settings current (wantedPeers peers) = [] ∧
          replaceMirrorMode current (wantedPeers peers) = [] := by
  unfold modifications
  dsimp only
  rw [List.append_eq_nil_iff, changeOf_eq_nil_iff, changeOf_eq_nil_iff]
  split
  · rw [List.append_eq_nil_iff]
  · rw [List.reverse_eq_nil_iff, List.append_eq_nil_iff]

/-- Each attribute is replaced or stays. -/
theorem modify_modifications (slapd : Slapd) (search : LdapSearch) (config : Config)
    (serverId : Nat) (peers : List Peer) :
    slapd.modify config (modifications settings (currentOf search config) serverId peers) =
      { config with
        serverIds :=
          if replaceServerId (currentOf search config) serverId = [] then config.serverIds
          else slapd.keep "olcServerID" [toString serverId]
        syncrepl :=
          if replaceSyncrepl settings (currentOf search config) (wantedPeers peers) = [] then
            config.syncrepl
          else slapd.keep "olcSyncrepl" (syncreplValues settings (wantedPeers peers))
        mirrorMode :=
          if replaceMirrorMode (currentOf search config) (wantedPeers peers) = [] then
            config.mirrorMode
          else some (wantMirror (wantedPeers peers)) } := by
  have ids : replaceServerId (currentOf search config) serverId = [] ∨
      replaceServerId (currentOf search config) serverId =
        [("olcServerID", [toString serverId])] := by
    unfold replaceServerId
    dsimp only
    exact ite_eq_or_eq _ _ _ |>.symm
  have values : replaceSyncrepl settings (currentOf search config) (wantedPeers peers) = [] ∨
      replaceSyncrepl settings (currentOf search config) (wantedPeers peers) =
        [("olcSyncrepl", syncreplValues settings (wantedPeers peers))] := by
    unfold replaceSyncrepl
    exact ite_eq_or_eq _ _ _ |>.symm
  have flag : replaceMirrorMode (currentOf search config) (wantedPeers peers) = [] ∨
      replaceMirrorMode (currentOf search config) (wantedPeers peers) =
        [("olcMirrorMode", [if wantMirror (wantedPeers peers) then "TRUE" else "FALSE"])] := by
    unfold replaceMirrorMode
    exact ite_eq_or_eq _ _ _ |>.symm
  have dn : (currentOf search config).dbDn = config.dn.text := rfl
  unfold modifications
  dsimp only
  rw [dn]
  generalize replaceServerId (currentOf search config) serverId = idChange at ids
  generalize replaceSyncrepl settings (currentOf search config) (wantedPeers peers) =
    syncreplChange at values
  generalize replaceMirrorMode (currentOf search config) (wantedPeers peers) = mirrorChange at flag
  generalize wantMirror (wantedPeers peers) = wanted at flag
  -- The attributes are independent, so each is there or not and the order does not matter.
  rcases ids with rfl | rfl <;> rcases values with rfl | rfl <;> rcases flag with rfl | rfl <;>
    cases wanted <;> simp [changeOf, Slapd.modify, Slapd.replace]

theorem serverIds_settle_iff {ids kept : List Value} (keeps : kept = [idValue serverId])
    {unchanged : Prop} [Decidable unchanged]
    (same : unchanged ↔ readServerIds search ids = [toString serverId]) :
    ((if unchanged then ids else kept) = [idValue serverId] ∧
        readServerIds search (if unchanged then ids else kept) = [toString serverId]) ↔
      readServerIds search [idValue serverId] = [toString serverId] ∧
        (readServerIds search ids = [toString serverId] → ids = [idValue serverId]) := by
  by_cases read : readServerIds search ids = [toString serverId]
  · rw [if_pos (same.mpr read)]
    constructor
    · intro settled
      exact ⟨settled.1 ▸ settled.2, fun _ => settled.1⟩
    · intro settles
      exact ⟨settles.2 read, read⟩
  · rw [if_neg fun kept => read (same.mp kept), keeps]
    constructor
    · intro settled
      exact ⟨settled.2, fun mistaken => absurd mistaken read⟩
    · intro settles
      exact ⟨rfl, settles.1⟩

theorem syncrepl_settle_iff {values kept : List Value} (filled : ∀ rid provider,
      want.lookup rid = some provider → provider ≠ "")
    (keeps : kept.map (fun value => peerOf (trim value.text)) =
      (syncreplValues settings want).map peerOf) {unchanged : Prop} [Decidable unchanged]
    (same : unchanged ↔ SamePeers (plainPeers search values) want) :
    (SamePeers (storedPeers (if unchanged then values else kept)) want ∧
        SamePeers (plainPeers search (if unchanged then values else kept)) want) ↔
      SamePeers (plainPeers search values) want ∧ SamePeers (storedPeers values) want ∨
        ¬ SamePeers (plainPeers search values) want ∧
          (∀ rid provider, want.lookup rid = some provider → Legible provider) ∧
            ∀ value ∈ kept, search.isPlain "olcSyncrepl" value = true := by
  by_cases read : SamePeers (plainPeers search values) want
  · rw [if_pos (same.mpr read)]
    constructor
    · intro settled
      exact Or.inl settled.symm
    · intro settles
      rcases settles with stored | written
      · exact stored.symm
      · exact absurd read written.1
  · rw [if_neg fun kept => read (same.mp kept), kept_same_iff filled keeps]
    constructor
    · intro clear
      exact Or.inr ⟨read, clear⟩
    · intro settles
      rcases settles with stored | written
      · exact absurd stored.1 read
      · exact written.2

theorem mirrorMode_settle_iff {mode : Option Bool} {wanted plain : Bool} {unchanged : Prop}
    [Decidable unchanged] (same : unchanged ↔ wanted = (mode == some true && plain)) :
    (((if unchanged then mode else some wanted) == some true) = wanted ∧
        wanted = ((if unchanged then mode else some wanted) == some true && plain)) ↔
      plain = true ∨ wanted = false ∧ mode ≠ some true := by
  have off : mode ≠ some true ↔ (mode == some true) = false := by simp
  rw [off]
  by_cases read : wanted = (mode == some true && plain)
  · rw [if_pos (same.mpr read)]
    generalize (mode == some true) = on at read
    subst read
    cases on <;> cases plain <;> decide
  · rw [if_neg fun kept => read (same.mp kept)]
    generalize (mode == some true) = on at read
    revert read
    cases on <;> cases plain <;> cases wanted <;> decide

/-! ### Both calls -/

theorem readCurrent_of_reaches (reaches : Reaches settings search config) :
    readCurrent settings search config = some (currentOf search config) := by
  simp only [readCurrent, reaches.found, if_pos]
  rfl

theorem apply_of_reaches (reaches : Reaches settings search config) :
    applyReplicationConfig settings search config serverId peers =
      modifications settings (currentOf search config) serverId peers := by
  unfold applyReplicationConfig
  rw [if_neg (not_or.mpr ⟨reaches.baseDn, reaches.bindDn⟩), if_neg reaches.configAdminCred,
    readCurrent_of_reaches reaches]

theorem apply_of_not_reaches (unreached : ¬ Reaches settings search config) :
    applyReplicationConfig settings search config serverId peers = [] := by
  unfold applyReplicationConfig
  split
  · rfl
  · rename_i named
    rw [not_or] at named
    split
    · rfl
    · rename_i admitted
      have unread : readCurrent settings search config = none := by
        unfold readCurrent
        split
        · rfl
        · rename_i dbDn found
          apply if_neg
          rintro rfl
          exact unreached ⟨named.1, named.2, admitted, found⟩
      rw [unread]

/-- A call converges exactly when the search reaches the database and nothing is misread, or
else when everything is as it is wanted already. -/
theorem applied_converges_iff (slapd : Slapd) (settings : Settings) (search : LdapSearch) (config : Config)
    (serverId : Nat) (peers : List Peer) (nonzero : serverId ≠ 0)
    (keepsId : slapd.keep "olcServerID" [toString serverId] = [idValue serverId])
    (keepsPeers : (slapd.keep "olcSyncrepl" (syncreplValues settings (wantedPeers peers))).map
      (fun value => peerOf (trim value.text)) =
        (syncreplValues settings (wantedPeers peers)).map peerOf) :
    Converges slapd settings search config serverId peers ↔
      Reaches settings search config ∧ Settles slapd settings search config serverId peers ∨
        ¬ Reaches settings search config ∧ AsWanted config serverId peers := by
  by_cases reaches : Reaches settings search config
  · have next : applied slapd settings search config serverId peers = _ :=
      (congrArg (slapd.modify config) (apply_of_reaches reaches)).trans
        (modify_modifications slapd search config serverId peers)
    have again : Reaches settings search (applied slapd settings search config serverId peers) := by
      rw [next]
      exact ⟨reaches.baseDn, reaches.bindDn, reaches.configAdminCred, reaches.found⟩
    have ids := serverIds_settle_iff keepsId
      (@replaceServerId_eq_nil_iff serverId (currentOf search config) nonzero)
    have values := syncrepl_settle_iff (fun rid provider => provider_ne_empty) keepsPeers
      (@replaceSyncrepl_eq_nil_iff settings search config (wantedPeers peers))
    have flag := mirrorMode_settle_iff
      (@replaceMirrorMode_eq_nil_iff search config (wantedPeers peers))
    have settles : Converges slapd settings search config serverId peers ↔
        Settles slapd settings search config serverId peers := by
      have quiet := @modifications_eq_nil_iff settings serverId peers
        (currentOf search (applied slapd settings search config serverId peers))
      rw [replaceServerId_eq_nil_iff nonzero, replaceSyncrepl_eq_nil_iff,
        replaceMirrorMode_eq_nil_iff, ← apply_of_reaches again, next] at quiet
      constructor
      · intro converges
        have wanted := converges.wanted
        rw [next] at wanted
        have still := quiet.mp (next ▸ converges.quiet)
        have settled := values.mp ⟨wanted.syncrepl, still.2.1⟩
        have readable := ids.mp ⟨wanted.serverIds, still.1⟩
        exact ⟨readable.1, readable.2, settled, flag.mp ⟨wanted.mirrorMode, still.2.2⟩⟩
      · intro settles
        obtain ⟨isId, readsId⟩ := ids.mpr ⟨settles.readable, settles.unmistaken⟩
        obtain ⟨stored, shown⟩ := values.mpr settles.syncrepl
        obtain ⟨isFlag, readsFlag⟩ := flag.mpr settles.mirrorMode
        refine ⟨?_, ?_⟩
        · rw [next]
          exact ⟨isId, stored, isFlag⟩
        · rw [next]
          exact quiet.mpr ⟨readsId, shown, readsFlag⟩
    rw [settles]
    simp [reaches]
  · have same : applied slapd settings search config serverId peers = config := by
      rw [applied, apply_of_not_reaches reaches]
      rfl
    constructor
    · intro converges
      exact Or.inr ⟨reaches, same ▸ converges.wanted⟩
    · intro settles
      rcases settles with reached | stands
      · exact absurd reached.1 reaches
      · refine ⟨same.symm ▸ stands.2, ?_⟩
        rw [same]
        exact apply_of_not_reaches reaches

/-! ### A peer that is not seen -/

def isSafeText (text : List Char) : Bool :=
  text.all (fun char => decide (char.toNat ≤ 127 ∧ char ≠ Char.ofNat 0 ∧ char ≠ '\n' ∧ char ≠ '\r')) &&
    text.head?.all fun char => decide (char ≠ ' ' ∧ char ≠ ':' ∧ char ≠ '<')

theorem isSafe_of_isSafeText {text : List Char} (safe : isSafeText text = true) :
    IsSafe text := by
  rw [isSafeText, Bool.and_eq_true] at safe
  refine ⟨fun char member => of_decide_eq_true (List.all_eq_true.mp safe.1 char member), ?_⟩
  intro char isHead
  have first := safe.2
  rw [Option.mem_def.mp isHead] at first
  exact of_decide_eq_true first

/-- The pieces of a line behind its first. -/
def wrap : Nat → List Char → List (LineEnd × List Char)
  | 0, text => [(.lf, text)]
  | fuel + 1, text =>
      if text.isEmpty then [] else (.lf, text.take 75) :: wrap fuel (text.drop 75)

theorem wrap_spec (fuel : Nat) (text : List Char) :
    (wrap fuel text).flatMap Prod.snd = text ∧ ∀ piece ∈ wrap fuel text, piece.1 = .lf := by
  induction fuel generalizing text with
  | zero => exact ⟨List.append_nil text, by simp [wrap]⟩
  | succ fuel ih =>
      unfold wrap
      split
      · rename_i empty
        exact ⟨(List.isEmpty_iff.mp empty).symm, by simp⟩
      · obtain ⟨rest, ends⟩ := ih (text.drop 75)
        refine ⟨?_, List.forall_mem_cons.mpr ⟨rfl, ends⟩⟩
        rw [List.flatMap_cons, rest, List.take_append_drop]

/-- Lines are folded at 76 columns, and what is not safe is printed in base64. -/
def wrapping : LdapSearch where
  encoding := fun _ value => if isSafeText value.toList then .plain 1 else .base64 1
  allowed := by
    intro name value
    split
    · rename_i safe
      exact isSafe_of_isSafeText safe
    · exact trivial
  fold := fun line =>
    { first := line.take 76
      rest := if line.isEmpty then [] else wrap line.length (line.drop 76)
      last := .lf
      started := by
        intro none
        have empty : line = [] := by simpa using none
        rw [empty]
        rfl }
  folds := by
    intro line
    unfold Folded.line
    dsimp only
    split
    · rename_i empty
      rw [List.isEmpty_iff.mp empty]
      rfl
    · rw [(wrap_spec _ _).1, List.take_append_drop]
  ends := by
    intro line
    refine ⟨rfl, ?_⟩
    dsimp only
    split
    · simp
    · exact (wrap_spec _ _).2

def valueOf (text : String) : Value :=
  if visible : text.toList.all isSpace = false then ⟨text, visible⟩ else flagValue false

/-- The values of `olcSyncrepl` are stored behind their positions. -/
private def ordering : Slapd where
  keep := fun name values =>
    if name = "olcSyncrepl" then
      values.zipIdx.map fun value => valueOf ("\x7b" ++ toString value.2 ++ "\x7d" ++ value.1)
    else values.map valueOf

def siteSettings : Settings :=
  ⟨"dc=e2e,dc=test", "cn=admin,dc=e2e,dc=test", "secret", "secret"⟩

private def master : Peer := ⟨1, "ldaps://site-a:636"⟩

/-- A site that replicates with the master, and still with one that is gone: the password that
was stored for that is not ASCII. -/
private def stale : Config where
  dn := valueOf "olcDatabase=\x7b1\x7dmdb,cn=config"
  suffixes := [valueOf "dc=e2e,dc=test"]
  serverIds := [valueOf "2"]
  syncrepl := [valueOf "rid=101 provider=ldaps://site-a:636",
    valueOf "rid=103 provider=ldaps://site-c:636 credentials=ü"]
  mirrorMode := some true

theorem applied_converges_iff_stale : Converges ordering siteSettings wrapping stale 2 [] ↔
    Reaches siteSettings wrapping stale ∧ Settles ordering siteSettings wrapping stale 2 [] ∨
      ¬ Reaches siteSettings wrapping stale ∧ AsWanted stale 2 [] :=
  applied_converges_iff ordering siteSettings wrapping stale 2 [] (by decide) rfl (by decide +kernel)

/-- Nothing is changed, and the peer stays. -/
theorem not_applied_converges : ¬ ∀ config, Reaches siteSettings wrapping config →
    Converges ordering siteSettings wrapping config 2 [master] := by
  intro always
  have reaches : Reaches siteSettings wrapping stale :=
    ⟨by decide, by decide, by decide, by decide +kernel⟩
  have converges := always stale reaches
  have nothing : applyReplicationConfig siteSettings wrapping stale 2 [master] = [] := by
    rw [apply_of_reaches reaches, modifications_eq_nil_iff, replaceServerId_eq_nil_iff (by decide),
      replaceSyncrepl_eq_nil_iff, replaceMirrorMode_eq_nil_iff, ← peersDiffer_eq_false_iff]
    exact ⟨by decide +kernel, by decide +kernel, by decide +kernel⟩
  have stays : applied ordering siteSettings wrapping stale 2 [master] = stale := by
    rw [applied, nothing]
    rfl
  have gone := converges.wanted.syncrepl 103
  rw [stays] at gone
  revert gone
  decide +kernel

end ThetaDirectory.SlapdConfig
