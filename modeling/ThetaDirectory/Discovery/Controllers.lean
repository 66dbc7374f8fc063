import ThetaDirectory.Discovery.Merges

/-!
# Management controllers and their hosts

Which template tables keep discovery from merging an out-of-band controller into a host.
A template decides the identity class of its subtype, also of a controller's: only where
the table keeps the classes apart do the rows stay apart.
-/

namespace ThetaDirectory.Discovery

open Library Catalog

/-! ## Controllers and hosts -/

/-- The subtype a description carries, in lower case. -/
def Item.subType (item : Item) : String :=
  let value := item.metadata.field "subType"
  toLowerCase (if value.isTruthy then value.text else "")

/-- A description of an out-of-band controller. -/
def isController (item : Item) : Bool := bmcSubtypes.contains item.subType

/-- A host that is no controller. -/
def isPlainHost (row : Resource) : Bool :=
  row.kind == "host" && !bmcSubtypes.contains row.subType

/-- No run merges a controller into a plain host. -/
def NeverIntoHost (cache : TemplateCache) : Prop :=
  ∀ env sourceName payload options (store : Store), store.Keyed →
    ∀ merge ∈ merges env cache sourceName payload options store,
      isController merge.item = true → isPlainHost merge.existing = false

/-- The table gives no controller the class of a host of another subtype, and neither the
class that goes with any. -/
def Separates (cache : TemplateCache) : Prop :=
  ∀ controller ∈ bmcSubtypes, ∀ text, toLowerCase text ∉ bmcSubtypes →
    identityClassFor cache "host" controller ≠ "unmanaged_device" ∧
      identityClassFor cache "host" (toLowerCase text) ≠ "unmanaged_device" ∧
        identityClassFor cache "host" controller ≠ identityClassFor cache "host" (toLowerCase text)

/-! ## Classes -/

variable {cache : TemplateCache} {item : Item} {row : Resource}

/-- The class of a controller does not depend on its kind. -/
theorem identityClassFor_controller {kind controller : String}
    (listed : controller ∈ bmcSubtypes) :
    identityClassFor cache kind controller = identityClassFor cache "host" controller := by
  unfold identityClassFor
  rw [if_pos (List.contains_iff_mem.mpr listed), if_pos (List.contains_iff_mem.mpr listed)]

theorem isCandidate_eq_false_iff : isCandidate cache item row = false ↔
    classOfItem cache item ≠ "unmanaged_device" ∧ classOf cache row ≠ "unmanaged_device" ∧
      classOfItem cache item ≠ classOf cache row := by
  unfold isCandidate
  rw [Bool.or_eq_false_iff, Bool.or_eq_false_iff, beq_eq_false_iff_ne, beq_eq_false_iff_ne,
    beq_eq_false_iff_ne]
  constructor
  · intro apart
    exact ⟨apart.1.2, apart.1.1, apart.2.symm⟩
  · intro apart
    exact ⟨⟨apart.2.1, apart.1⟩, apart.2.2.symm⟩

/-- Where the table separates, a plain host is no candidate for a controller. -/
theorem Separates.isCandidate (separates : Separates cache) (controller : isController item = true)
    (plain : isPlainHost row = true) : Discovery.isCandidate cache item row = false := by
  have listed : item.subType ∈ bmcSubtypes := List.contains_iff_mem.mp controller
  unfold isPlainHost at plain
  rw [Bool.and_eq_true, beq_iff_eq, Bool.not_eq_true', ← Bool.not_eq_true,
    List.contains_iff_mem] at plain
  have itemClass : classOfItem cache item = identityClassFor cache "host" item.subType :=
    identityClassFor_controller listed
  have rowClass : classOf cache row = identityClassFor cache "host" row.subType := by
    rw [classOf, plain.1]
  rw [isCandidate_eq_false_iff, itemClass, rowClass]
  exact separates item.subType listed _ plain.2

/-! ## A table that does not separate -/

private def rackEnv : Env :=
  ⟨1000, fun draw => String.ofList (List.replicate draw 'x'), fun _ => "0"⟩

private def rackSite : Resource := ⟨"site", "site", "Site", "site_here", none, none, ∅⟩

private def sharedMac : String := "00:11:22:33:44:55"

private def withSubType (text : String) : Metadata :=
  ((∅ : Metadata).insert "macAddress" (.str sharedMac)).insert "subType" (.str text)

/-- A server of a subtype. -/
private def server (text : String) : Resource :=
  ⟨"server", "host", "server", "server", none, none, withSubType text⟩

/-- A management controller that shares the server's port. -/
private def management (controller : String) : Item :=
  ⟨none, some "host", some "server-ilo", some "server-ilo", none, withSubType controller⟩

private def rack (text : String) : Store where
  resources := [rackSite, server text]
  edges := [⟨"e1", "site", "server", "hosts", some "nmap"⟩]
  groups := []

private theorem keyed_rack (text : String) : (rack text).Keyed :=
  ⟨by simp [rack, rackSite, server], by simp [rack, rackSite, server]⟩

private theorem field_withSubType (text : String) :
    (withSubType text).field "subType" = .str text := by
  rw [withSubType, Metadata.field_insert, if_pos rfl]

private theorem macAddress_withSubType (text : String) :
    (withSubType text).textAt "macAddress" = some sharedMac := by
  rw [Metadata.textAt, withSubType, Metadata.field_insert, if_neg (by decide),
    Metadata.field_insert, if_pos rfl]
  decide

private theorem interfaces_withSubType (text : String) : interfacesOf (withSubType text) = [] := by
  rw [interfacesOf, withSubType, Metadata.field_insert, if_neg (by decide),
    Metadata.field_insert, if_neg (by decide)]
  rfl

private theorem macsOf_withSubType (text : String) :
    macsOf (withSubType text) = [normalizeMac (some sharedMac)] := by
  rw [macsOf, macAddress_withSubType, interfaces_withSubType]
  decide +kernel

private theorem sharesMac_server (text : String) :
    sharesMac [normalizeMac (some sharedMac)] (server text) = true := by
  have own : (server text).metadata.textAt "macAddress" = some sharedMac := macAddress_withSubType text
  rw [sharesMac, own, Option.any_some, List.contains_iff_mem.mpr List.mem_cons_self, Bool.true_or]

private theorem subType_of_text (text : String) :
    (if (Json.str text).isTruthy then (Json.str text).text else "") = text := by
  simp only [Json.isTruthy, Json.text, bne_iff_ne, ite_not]
  split
  · rename_i blank
    exact blank.symm
  · rfl

private theorem server_subType (text : String) : (server text).subType = toLowerCase text := by
  have field : (server text).metadata.field "subType" = .str text := field_withSubType text
  unfold Resource.subType
  dsimp only
  rw [field, subType_of_text]

private theorem management_subType (controller : String) :
    (management controller).subType = toLowerCase controller := by
  have field : (management controller).metadata.field "subType" = .str controller :=
    field_withSubType controller
  unfold Item.subType
  dsimp only
  rw [field, subType_of_text]

/-- The controller is merged into the server when this is a candidate for it. -/
private theorem merge_of_isCandidate {controller text : String}
    (candidate : isCandidate cache (management controller) (server text) = true) :
    Merge.mk (management controller) (server text) ∈
      merges rackEnv cache "nmap" ⟨[management controller], []⟩ {} (rack text) := by
  have target : resolveTarget rackEnv {} (rack text) = (.site (some rackSite), rack text) := rfl
  have macs : macsOf (management controller).metadata = [normalizeMac (some sharedMac)] :=
    macsOf_withSubType controller
  have siteShares : sharesMac [normalizeMac (some sharedMac)] rackSite = false := by
    decide +kernel
  have byMac : matchByMac [normalizeMac (some sharedMac)] ((rack text).resources.filter
      (isCandidate cache (management controller))) = some (server text) := by
    rw [matchByMac, List.isEmpty_cons, if_neg Bool.false_ne_true, List.find?_filter, rack,
      List.find?_cons_of_neg (by simp [siteShares]),
      List.find?_cons_of_pos (by simp [candidate, sharesMac_server])]
  have matched : matchOf ⟨rackEnv, cache, "nmap", some "site"⟩
      ⟨rack text, siteMap (rack text), [], 2⟩ (management controller) = some (server text) := by
    show Option.or none ((matchByMac (macsOf (management controller).metadata)
      ((rack text).resources.filter (isCandidate cache (management controller)))).or _) = _
    rw [macs, byMac]
    rfl
  unfold merges
  rw [target]
  show _ ∈ mergesOf ⟨rackEnv, cache, "nmap", some "site"⟩ [management controller]
    ⟨rack text, siteMap (rack text), [], 2⟩
  simp only [mergesOf, placeItem, matched, Option.toList_some, List.map_cons, List.map_nil]
  exact List.mem_cons_self

/-- A table keeps controllers out of hosts exactly when it separates them. -/
theorem neverIntoHost_iff (cache : TemplateCache) : NeverIntoHost cache ↔ Separates cache := by
  constructor
  · intro never controller listed text unlisted
    have lower : toLowerCase controller = controller :=
      (by decide : ∀ name ∈ bmcSubtypes, toLowerCase name = name) controller listed
    have itemClass : classOfItem cache (management controller) =
        identityClassFor cache "host" controller := by
      show identityClassFor cache "host" (management controller).subType = _
      rw [management_subType, lower]
    have rowClass : classOf cache (server text) =
        identityClassFor cache "host" (toLowerCase text) := by
      rw [classOf, server_subType]
      rfl
    have isController : isController (management controller) = true := by
      rw [Discovery.isController, management_subType, lower]
      exact List.contains_iff_mem.mpr listed
    have isPlain : isPlainHost (server text) = true := by
      rw [isPlainHost, server_subType]
      simpa [server] using unlisted
    have apart : isCandidate cache (management controller) (server text) = false := by
      rw [← Bool.not_eq_true]
      intro candidate
      have kept := never rackEnv "nmap" _ _ _ (keyed_rack text) _
        (merge_of_isCandidate candidate) isController
      rw [isPlain] at kept
      cases kept
    rwa [isCandidate_eq_false_iff, itemClass, rowClass] at apart
  · intro separates env sourceName payload options store _ merge merged controller
    unfold merges at merged
    split at merged
    · exact absurd merged List.not_mem_nil
    · have candidate := (mem_mergesOf merged).2
      rw [← Bool.not_eq_true]
      intro plain
      rw [separates.isCandidate controller plain] at candidate
      cases candidate

/-- A recreated template of a controller's subtype, which carries no identity class, gives the
controller the class of its kind. -/
private def recreated : TemplateCache := refreshTemplateCache [⟨"ilo", "host", none, false, false⟩]

/-- With the template of the iLO deleted and created again, its report is merged into the
server. -/
theorem not_neverIntoHost : ¬ ∀ templates, NeverIntoHost (refreshTemplateCache templates) := by
  intro always
  have candidate : isCandidate recreated (management "ilo") (server "linux") = true := by
    decide +kernel
  have kept := always _ rackEnv "nmap" _ _ _ (keyed_rack "linux") _
    (merge_of_isCandidate candidate) (by decide +kernel)
  revert kept
  decide +kernel

end ThetaDirectory.Discovery
