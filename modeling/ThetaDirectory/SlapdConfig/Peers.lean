import Mathlib.Data.List.AList
import ThetaDirectory.Library.Keyed
import ThetaDirectory.Library.Numerals
import ThetaDirectory.SlapdConfig.Output

/-!
# Peers in `olcSyncrepl`

The values that `utils/ldap_runtime_config.js` writes for the peers of a site, and the map from
rid to provider it reads out of the stored ones.
-/

namespace ThetaDirectory.SlapdConfig

open Library Migration

/-- Another site of the cluster. -/
structure Peer where
  ldapServerId : Nat
  ldapHost : String

/-- What the directory is configured with. -/
structure Settings where
  baseDn : String
  bindDn : String
  cred : String
  configAdminCred : String

def ridFor (serverId : Nat) : Nat := 100 + serverId

/-- The fields of a value behind its provider. -/
def syncreplRest (settings : Settings) : String :=
  "type=refreshAndPersist retry=\"60 +\" searchbase=\"" ++ settings.baseDn ++
    "\" bindmethod=simple binddn=\"" ++ settings.bindDn ++ "\" credentials=\"" ++ settings.cred ++
      "\" tls_reqcert=never"

def syncreplValue (settings : Settings) (rid : Nat) (provider : String) : String :=
  "rid=" ++ toString rid ++ " provider=" ++ provider ++ " " ++ syncreplRest settings

/-! ## Reading a value -/

/-- The class `\w`. -/
def isWordChar (char : Char) : Bool := char.isAlphanum || char == '_'

/-- The first match of a label at a word boundary `\b` with something acceptable behind it; the
flag tells whether a word character stands in front. -/
def firstMatch {α : Type} (label : List Char) (accept : List Char → Option α) :
    Bool → List Char → Option α
  | _, [] => none
  | inWord, char :: rest =>
      match (if inWord then none else behind label (char :: rest)).bind accept with
      | some found => some found
      | none => firstMatch label accept (isWordChar char) rest

/-- `/\brid=(\d+)/` -/
def ridOf (value : List Char) : Option Nat :=
  firstMatch "rid=".toList (fun rest =>
    let digits := rest.takeWhile (·.isDigit)
    if digits.isEmpty then none else some (Nat.ofDigitChars 10 digits 0)) false value

/-- `text.replace(/^"|"$/g, '')` -/
def stripQuotes (text : List Char) : List Char :=
  let text := if text.head? = some '"' then text.tail else text
  if text.getLast? = some '"' then text.dropLast else text

/-- `/\bprovider=(\S+)/`, without the quotes around it. -/
def providerOf (value : List Char) : Option String :=
  firstMatch "provider=".toList (fun rest =>
    let provider := rest.takeWhile (!isSpace ·)
    if provider.isEmpty then none else some (String.ofList (stripQuotes provider))) false value

/-- The rid and the provider of a value that names both. -/
@[irreducible] def peerOf (value : String) : Option (Nat × String) :=
  match ridOf value.toList, providerOf value.toList with
  | some rid, some provider => some (rid, provider)
  | _, _ => none

/-- Providers by their rids. -/
abbrev PeerMap := AList fun _ : Nat => String

def providersByRid (values : List String) : PeerMap :=
  values.foldl (fun out value =>
    match peerOf value with
    | some peer => out.insert peer.1 peer.2
    | none => out) ∅

/-! ## The wanted peers -/

/-- The map `want`; a peer without an id or a host is passed over. -/
def wantedPeers (peers : List Peer) : PeerMap :=
  peers.foldl (fun want peer =>
    if peer.ldapServerId = 0 ∨ peer.ldapHost = "" then want
    else want.insert (ridFor peer.ldapServerId) peer.ldapHost) ∅

/-- The wanted peers by their rids. -/
def sortedPeers (want : PeerMap) : List (Nat × String) :=
  (want.entries.map fun entry => (entry.1, entry.2)).mergeSort fun peer other => peer.1 ≤ other.1

/-- Some peer is missing, has another provider, or is there too many. -/
def peersDiffer (current want : PeerMap) : Bool :=
  (want.entries.any fun entry => current.lookup entry.1 != some entry.2) ||
    current.entries.any fun entry => (want.lookup entry.1).isNone

/-- The two maps are one. -/
def SamePeers (peers other : PeerMap) : Prop := ∀ rid, peers.lookup rid = other.lookup rid

/-! ## Matching -/

section Matching

variable {α : Type} {label : List Char} {accept : List Char → Option α}

/-- A match has the label in front of what is accepted. -/
theorem firstMatch_some {found : α} : ∀ {inWord : Bool} {text : List Char},
    firstMatch label accept inWord text = some found →
      ∃ front rest, text = front ++ (label ++ rest) ∧ accept rest = some found := by
  intro inWord text matched
  induction text generalizing inWord with
  | nil => cases matched
  | cons char text ih =>
      unfold firstMatch at matched
      split at matched
      · rename_i here
        cases matched
        obtain ⟨rest, isRest, accepted⟩ := Option.bind_eq_some_iff.mp here
        split at isRest
        · cases isRest
        · unfold behind at isRest
          split at isRest
          · rename_i starts
            cases isRest
            exact ⟨[], _, (List.prefix_append_drop starts), accepted⟩
          · cases isRest
      · obtain ⟨front, rest, isText, accepted⟩ := ih matched
        exact ⟨char :: front, rest, congrArg (char :: ·) isText, accepted⟩

/-- A match where the text starts. -/
theorem firstMatch_start {rest : List Char} {found : α} (nonempty : label ≠ [])
    (accepted : accept rest = some found) :
    firstMatch label accept false (label ++ rest) = some found := by
  obtain ⟨char, more, rfl⟩ := List.exists_cons_of_ne_nil nonempty
  have here : behind (char :: more) (char :: (more ++ rest)) = some rest :=
    behind_append (char :: more) rest
  rw [List.cons_append, firstMatch, if_neg Bool.false_ne_true, here, Option.bind_some, accepted]

/-- No label starts in a text without its first character. -/
theorem firstMatch_skip {start : Char} {more front : List Char} (isLabel : label = start :: more)
    (absent : start ∉ front) (notBlank : start ≠ ' ') (inWord : Bool) (text : List Char) :
    firstMatch label accept inWord (front ++ ' ' :: text) = firstMatch label accept false text := by
  have other {char : Char} (different : start ≠ char) (rest : List Char) :
      behind label (char :: rest) = none := by
    apply if_neg
    intro starts
    rw [isLabel] at starts
    exact different (List.cons_prefix_cons.mp starts).1
  have pass {char : Char} (different : start ≠ char) (inWord : Bool) (rest : List Char) :
      firstMatch label accept inWord (char :: rest) =
        firstMatch label accept (isWordChar char) rest := by
    rw [firstMatch, other different, ite_self]
    rfl
  induction front generalizing inWord with
  | nil => exact pass notBlank inWord text
  | cons char front ih =>
      rw [List.mem_cons, not_or] at absent
      exact (pass absent.1 inWord _).trans (ih absent.2 _)

end Matching

/-! ## Reading what is written -/

/-- A provider that a value gives back: no white space, and no quote at an end. -/
structure Legible (provider : String) : Prop where
  solid : ∀ char ∈ provider.toList, isSpace char = false
  unquoted : provider.toList.head? ≠ some '"' ∧ provider.toList.getLast? ≠ some '"'

theorem stripQuotes_subset (text : List Char) : stripQuotes text ⊆ text := by
  have front : (if text.head? = some '"' then text.tail else text) ⊆ text := by
    split
    · exact List.tail_subset text
    · exact List.Subset.refl text
  unfold stripQuotes
  dsimp only
  generalize (if text.head? = some '"' then text.tail else text) = unopened at front
  split
  · exact List.Subset.trans (List.dropLast_subset _) front
  · exact front

theorem stripQuotes_eq_iff {text : List Char} : stripQuotes text = text ↔
    text.head? ≠ some '"' ∧ text.getLast? ≠ some '"' := by
  unfold stripQuotes
  dsimp only
  by_cases quoted : text.head? = some '"'
  · rw [if_pos quoted]
    refine iff_of_false (fun same => ?_) fun bare => bare.1 quoted
    cases text with
    | nil => cases quoted
    | cons char text =>
        have lengths := congrArg List.length same
        split at lengths
        · rw [List.length_dropLast, List.tail_cons, List.length_cons] at lengths
          omega
        · rw [List.tail_cons, List.length_cons] at lengths
          omega
  · rw [if_neg quoted]
    by_cases closed : text.getLast? = some '"'
    · rw [if_pos closed]
      refine iff_of_false (fun same => ?_) fun bare => bare.2 closed
      cases text with
      | nil => cases closed
      | cons char text =>
          have lengths := congrArg List.length same
          rw [List.length_dropLast, List.length_cons] at lengths
          omega
    · rw [if_neg closed]
      exact iff_of_true rfl ⟨quoted, closed⟩

variable {settings : Settings} {rid : Nat} {provider : String}

theorem toList_syncreplValue : (syncreplValue settings rid provider).toList =
    "rid=".toList ++ ((toString rid).toList ++ ' ' :: ("provider=".toList ++
      (provider.toList ++ ' ' :: (syncreplRest settings).toList))) := by
  simp [syncreplValue, String.toList_append]

theorem ridOf_syncreplValue : ridOf (syncreplValue settings rid provider).toList = some rid := by
  have digits : ∀ char ∈ (toString rid).toList, char.isDigit = true := by
    intro char member
    rw [Nat.toString_eq_repr, Nat.toList_repr] at member
    exact Nat.isDigit_of_mem_toDigits (by decide) (by decide) member
  rw [toList_syncreplValue]
  apply firstMatch_start (by decide)
  rw [Delimited.takeWhile_append_mark digits rfl, Nat.toString_eq_repr, Nat.toList_repr]
  dsimp only
  rw [if_neg (by simp [Nat.toDigits_ne_nil]), Nat.ofDigitChars_toDigits (by decide) (by decide)]

/-- The provider is read back exactly when it is legible. -/
theorem providerOf_syncreplValue_iff (given : provider ≠ "") :
    providerOf (syncreplValue settings rid provider).toList = some provider ↔
      Legible provider := by
  have nonempty : provider.toList ≠ [] := fun empty => given (String.toList_eq_nil_iff.mp empty)
  have behindRid : "provider=".toList = 'p' :: "rovider=".toList := rfl
  have free : 'p' ∉ "rid=".toList ++ (toString rid).toList := by
    intro member
    rcases List.mem_append.mp member with inLabel | inDigits
    · revert inLabel
      decide
    · exact Numerals.notMem_toString rfl rid inDigits
  have solidRead (solid : ∀ char ∈ provider.toList, isSpace char = false) :
      providerOf (syncreplValue settings rid provider).toList =
        some (String.ofList (stripQuotes provider.toList)) := by
    have inside : ∀ char ∈ provider.toList, (!isSpace char) = true := fun char member => by
      rw [solid char member]
      rfl
    rw [toList_syncreplValue, ← List.append_assoc, providerOf,
      firstMatch_skip behindRid free (by decide)]
    apply firstMatch_start (by decide)
    rw [Delimited.takeWhile_append_mark inside rfl]
    dsimp only
    rw [if_neg (by simpa using nonempty)]
  constructor
  · intro read
    have solid : ∀ char ∈ provider.toList, isSpace char = false := by
      obtain ⟨front, rest, -, accepted⟩ := firstMatch_some read
      dsimp only at accepted
      split at accepted
      · cases accepted
      · intro char member
        rw [← Option.some.inj accepted, String.toList_ofList] at member
        simpa using List.mem_takeWhile_imp (stripQuotes_subset _ member)
    rw [solidRead solid] at read
    refine ⟨solid, stripQuotes_eq_iff.mp ?_⟩
    rw [← @String.toList_ofList (stripQuotes provider.toList), Option.some.inj read]
  · intro legible
    rw [solidRead legible.solid, stripQuotes_eq_iff.mpr legible.unquoted, String.ofList_toList]

theorem peerOf_syncreplValue_iff (given : provider ≠ "") :
    peerOf (syncreplValue settings rid provider) = some (rid, provider) ↔ Legible provider := by
  rw [← @providerOf_syncreplValue_iff settings rid provider given, peerOf, ridOf_syncreplValue]
  cases providerOf (syncreplValue settings rid provider).toList with
  | none => simp
  | some read => simp

theorem rid_of_peerOf {read : Nat × String}
    (found : peerOf (syncreplValue settings rid provider) = some read) : read.1 = rid := by
  rw [peerOf, ridOf_syncreplValue] at found
  cases known : providerOf (syncreplValue settings rid provider).toList with
  | none =>
      rw [known] at found
      cases found
  | some other =>
      rw [known] at found
      cases found
      rfl

/-! ## Maps -/

variable {current want : PeerMap} {values : List String}

theorem lookup_foldl_insert (pairs : List (Nat × String)) (map : PeerMap) (rid : Nat) :
    (pairs.foldl (fun out peer => out.insert peer.1 peer.2) map).lookup rid =
      (pairs.reverse.lookup rid).or (map.lookup rid) := by
  induction pairs generalizing map with
  | nil => rfl
  | cons pair pairs ih =>
      rw [List.foldl_cons, ih, List.reverse_cons, List.lookup_append, Option.or_assoc]
      congr 1
      by_cases same : rid = pair.1
      · rw [same, AList.lookup_insert, List.lookup_cons, beq_self_eq_true]
        rfl
      · rw [AList.lookup_insert_ne same, List.lookup_cons, beq_eq_false_iff_ne.mpr same]
        rfl

/-- Only what values name counts. -/
theorem providersByRid_eq (values : List String) : providersByRid values =
    (values.filterMap peerOf).foldl (fun out peer => out.insert peer.1 peer.2) ∅ := by
  unfold providersByRid
  rw [List.foldl_filterMap]
  apply congrArg (List.foldl · ∅ values)
  funext out value
  cases peerOf value with
  | none => rfl
  | some peer => rfl

/-- The last value with a rid counts. -/
theorem lookup_providersByRid (values : List String) (rid : Nat) :
    (providersByRid values).lookup rid = (values.filterMap peerOf).reverse.lookup rid := by
  rw [providersByRid_eq, lookup_foldl_insert]
  exact Option.or_none

theorem mem_of_lookup_providersByRid
    (found : (providersByRid values).lookup rid = some provider) :
    ∃ value ∈ values, peerOf value = some (rid, provider) := by
  rw [lookup_providersByRid] at found
  obtain ⟨front, back, listed, -⟩ := List.lookup_eq_some_iff.mp found
  have member : (rid, provider) ∈ (values.filterMap peerOf).reverse :=
    listed ▸ List.mem_append_right _ List.mem_cons_self
  exact List.mem_filterMap.mp (List.mem_reverse.mp member)

theorem peersDiffer_eq_false_iff : peersDiffer current want = false ↔ SamePeers current want := by
  unfold peersDiffer SamePeers
  rw [Bool.or_eq_false_iff, List.any_eq_false, List.any_eq_false]
  constructor
  · intro agrees rid
    cases wanted : want.lookup rid with
    | some provider =>
        simpa using agrees.1 ⟨rid, provider⟩ (AList.mem_lookup_iff.mp wanted)
    | none =>
        cases known : current.lookup rid with
        | none => rfl
        | some provider =>
            have needed := agrees.2 ⟨rid, provider⟩ (AList.mem_lookup_iff.mp known)
            rw [wanted] at needed
            exact absurd rfl needed
  · intro same
    constructor
    · intro entry member
      rw [same entry.1, AList.mem_lookup_iff.mpr member]
      simp
    · intro entry member
      rw [← same entry.1, AList.mem_lookup_iff.mpr member]
      simp

theorem mem_sortedPeers : (rid, provider) ∈ sortedPeers want ↔ want.lookup rid = some provider := by
  rw [sortedPeers, List.mem_mergeSort, List.mem_map]
  constructor
  · intro found
    obtain ⟨entry, member, same⟩ := found
    cases same
    exact AList.mem_lookup_iff.mpr member
  · intro found
    exact ⟨⟨rid, provider⟩, AList.mem_lookup_iff.mp found, rfl⟩

theorem nodup_sortedPeers (want : PeerMap) : ((sortedPeers want).map Prod.fst).Nodup := by
  have keys : ((want.entries.map fun entry => (entry.1, entry.2)).map Prod.fst).Nodup := by
    rw [List.map_map]
    exact want.nodupKeys
  exact ((List.mergeSort_perm _ _).map Prod.fst).nodup_iff.mpr keys

/-- A wanted provider is the host of a listed peer that has an id. -/
theorem exists_of_wantedPeers {peers : List Peer}
    (found : (wantedPeers peers).lookup rid = some provider) :
    ∃ peer ∈ peers, peer.ldapServerId ≠ 0 ∧ ridFor peer.ldapServerId = rid ∧
      peer.ldapHost = provider ∧ provider ≠ "" := by
  have kept : ∀ (peers : List Peer) (map : PeerMap),
      (peers.foldl (fun want peer =>
        if peer.ldapServerId = 0 ∨ peer.ldapHost = "" then want
        else want.insert (ridFor peer.ldapServerId) peer.ldapHost) map).lookup rid = some provider →
      map.lookup rid = some provider ∨ ∃ peer ∈ peers, peer.ldapServerId ≠ 0 ∧
        ridFor peer.ldapServerId = rid ∧ peer.ldapHost = provider ∧ provider ≠ "" := by
    intro peers
    induction peers with
    | nil => exact fun map found => Or.inl found
    | cons peer peers ih =>
        intro map found
        rcases ih _ found with before | ⟨other, member, isOther⟩
        · dsimp only at before
          split at before
          · exact Or.inl before
          · rename_i usable
            rw [not_or] at usable
            by_cases same : rid = ridFor peer.ldapServerId
            · rw [same, AList.lookup_insert] at before
              cases before
              exact Or.inr ⟨peer, List.mem_cons_self, usable.1, same.symm, rfl, usable.2⟩
            · rw [AList.lookup_insert_ne same] at before
              exact Or.inl before
        · exact Or.inr ⟨other, List.mem_cons_of_mem _ member, isOther⟩
  rcases kept peers ∅ found with none | listed
  · cases none
  · exact listed

/-- No wanted provider is blank. -/
theorem provider_ne_empty {peers : List Peer}
    (found : (wantedPeers peers).lookup rid = some provider) : provider ≠ "" := by
  obtain ⟨peer, -, -, -, -, filled⟩ := exists_of_wantedPeers found
  exact filled

end ThetaDirectory.SlapdConfig
