import ThetaDirectory.Discovery.Matching

/-!
# Which machine a description is

The tiers of `findExistingMatch` by what a row has to share with the description at each, and
that the matcher takes a row of the first tier that has one.
-/

namespace ThetaDirectory.Discovery

open Library Catalog

/-! ## Identities -/

/-- A MAC of twelve hexadecimal digits stands in the metadata, with any punctuation. -/
def HasMac (metadata : Metadata) (mac : String) : Prop :=
  mac.length = 12 ∧
    ((∃ text, metadata.textAt "macAddress" = some text ∧ normalizeMac (some text) = mac) ∨
      ∃ interface ∈ interfacesOf metadata, normalizeMac (interface.textAt "mac") = mac)

/-- An address stands in the metadata: its own, one of a list, or that of an interface. -/
def HasIp (metadata : Metadata) (ip : Json) : Prop :=
  ip.isTruthy = true ∧
    (metadata.field "ip" = ip ∨ (∃ address ∈ addressesOf metadata, Json.str address = ip) ∨
      ∃ interface ∈ interfacesOf metadata, interface.get "ip" = ip)

/-- A MAC field of the row or of one of its interfaces is filled. -/
def OwnsMac (row : Resource) : Prop :=
  (row.metadata.field "macAddress").isTruthy = true ∨
    ∃ interface ∈ interfacesOf row.metadata, (interface.get "mac").isTruthy = true

/-- The row is at the incoming site, if there is one. -/
def AtIncomingSite (scope : Scope) (row : Resource) : Prop :=
  ∀ site, truthy scope.incomingSiteId = some site → scope.siteOf row.id = some site

/-- The name a description goes by, normalised; the slug stands in for a missing name. -/
def identityName (incoming : Item) : String :=
  normalizeIdentityHost (((truthy incoming.name).or incoming.slug).getD "")

/-- The row has the slug of the description, its name, or its normalised name. -/
def SharesName (incoming : Item) (row : Resource) : Prop :=
  truthy incoming.slug = some row.slug ∨
    (row.name ≠ "" ∧ ∃ name, truthy incoming.name = some name ∧
      toLowerCase row.name = toLowerCase name) ∨
    (identityName incoming ≠ "" ∧ (normalizeIdentityHost row.name = identityName incoming ∨
      normalizeIdentityHost row.slug = identityName incoming))

/-! ## Tiers -/

inductive Tier where
  | id
  | mac
  | ip
  | name
  deriving DecidableEq, Repr

namespace Tier

/-- The tiers, the strongest first. -/
def all : List Tier := [.id, .mac, .ip, .name]

def rank : Tier → Nat
  | .id => 0
  | .mac => 1
  | .ip => 2
  | .name => 3

end Tier

/-- What a row needs at a tier. -/
def Qualifies (incoming : Item) (scope : Scope) (row : Resource) : Tier → Prop
  | .id => truthy incoming.id = some row.id
  | .mac => ∃ mac, HasMac incoming.metadata mac ∧ HasMac row.metadata mac
  | .ip => ¬ OwnsMac row ∧ AtIncomingSite scope row ∧
      ∃ ip other, HasIp incoming.metadata ip ∧ HasIp row.metadata other ∧ other.same ip = true
  | .name => (∀ mac, ¬ HasMac incoming.metadata mac) ∧ (∀ ip, ¬ HasIp incoming.metadata ip) ∧
      ¬ OwnsMac row ∧ AtIncomingSite scope row ∧ SharesName incoming row

/-- The test of the matcher at a tier. -/
def tests (incoming : Item) (scope : Scope) (row : Resource) : Tier → Bool
  | .id => truthy incoming.id == some row.id
  | .mac => sharesMac (macsOf incoming.metadata) row
  | .ip => !hasStrongIdentity row && scope.admits row.id && sharesIp (ipsOf incoming.metadata) row
  | .name => (macsOf incoming.metadata).isEmpty && (ipsOf incoming.metadata).isEmpty &&
      (!hasStrongIdentity row && scope.admits row.id && sharesName incoming.name incoming.slug row)

variable {incoming : Item} {pool : List Resource} {scope : Scope} {row : Resource}

/-- The matcher takes the first row of the first tier that has one. -/
theorem findExistingMatch_eq : findExistingMatch incoming pool scope =
    Tier.all.findSome? fun tier => pool.find? fun row => tests incoming scope row tier := by
  have nothing : (pool.find? fun _ => false) = none := by simp
  have byId : ((truthy incoming.id).bind fun id => pool.find? fun row => row.id == id) =
      pool.find? fun row => tests incoming scope row .id := by
    simp only [tests]
    cases truthy incoming.id with
    | none => exact nothing.symm
    | some id =>
        have turned : (fun row : Resource => row.id == id) = fun row => some id == some row.id := by
          funext row
          rw [Option.some_beq_some]
          exact Bool.beq_comm
        rw [← turned]
        rfl
  have byMac : matchByMac (macsOf incoming.metadata) pool =
      pool.find? fun row => tests incoming scope row .mac := by
    unfold matchByMac tests
    split
    · rename_i none
      rw [List.isEmpty_iff.mp none]
      simp only [sharesMac_nil, nothing]
    · rfl
  have byIp : matchByIp (ipsOf incoming.metadata) pool scope =
      pool.find? fun row => tests incoming scope row .ip := by
    unfold matchByIp tests
    split
    · rename_i none
      rw [List.isEmpty_iff.mp none]
      simp only [sharesIp_nil, Bool.and_false, nothing]
    · rfl
  have byName : (if (macsOf incoming.metadata).isEmpty && (ipsOf incoming.metadata).isEmpty then
      matchByNameOrSlug incoming.name incoming.slug pool scope else none) =
        pool.find? fun row => tests incoming scope row .name := by
    unfold matchByNameOrSlug tests
    cases (macsOf incoming.metadata).isEmpty && (ipsOf incoming.metadata).isEmpty with
    | false => exact nothing.symm
    | true =>
        rw [if_pos rfl]
        split
        · rename_i blank
          simp only [Bool.and_eq_true, Option.isNone_iff_eq_none] at blank
          simp only [sharesName_blank _ blank.1 blank.2, Bool.and_false, nothing]
        · rfl
  rw [findExistingMatch, byId, byMac, byIp, byName]
  simp only [Tier.all, List.findSome?_cons, List.findSome?_nil]
  cases pool.find? fun row => tests incoming scope row .id with
  | some _ => rfl
  | none =>
      cases pool.find? fun row => tests incoming scope row .mac with
      | some _ => rfl
      | none =>
          cases pool.find? fun row => tests incoming scope row .ip with
          | some _ => rfl
          | none =>
              cases pool.find? fun row => tests incoming scope row .name <;> rfl

/-! ## What the tests say -/

theorem mem_macsOf {metadata : Metadata} {mac : String} :
    mac ∈ macsOf metadata ↔ HasMac metadata mac := by
  unfold macsOf HasMac
  simp only [List.mem_eraseDups, List.mem_filter, List.mem_append, Option.mem_toList,
    Option.map_eq_some_iff, List.mem_map, decide_eq_true_eq]
  exact and_comm

theorem macsOf_isEmpty {metadata : Metadata} :
    (macsOf metadata).isEmpty = true ↔ ∀ mac, ¬ HasMac metadata mac := by
  simp only [List.isEmpty_iff, List.eq_nil_iff_forall_not_mem, mem_macsOf]

theorem sharesMac_iff {metadata : Metadata} : sharesMac (macsOf metadata) row = true ↔
    ∃ mac, HasMac metadata mac ∧ HasMac row.metadata mac := by
  unfold sharesMac
  simp only [Bool.or_eq_true, Option.any_eq_true, List.any_eq_true, List.contains_iff_mem,
    mem_macsOf]
  constructor
  · intro shares
    rcases shares with own | interface
    · obtain ⟨text, given, has⟩ := own
      exact ⟨_, has, has.1, Or.inl ⟨text, given, rfl⟩⟩
    · obtain ⟨interface, listed, has⟩ := interface
      exact ⟨_, has, has.1, Or.inr ⟨interface, listed, rfl⟩⟩
  · intro shares
    obtain ⟨mac, has, -, own | interface⟩ := shares
    · obtain ⟨text, given, rfl⟩ := own
      exact Or.inl ⟨text, given, has⟩
    · obtain ⟨interface, listed, rfl⟩ := interface
      exact Or.inr ⟨interface, listed, has⟩

/-- The addresses of a description, before each is kept once. -/
theorem mem_reported {metadata : Metadata} {ip : Json} :
    ip ∈ (((interfacesOf metadata).map fun interface => interface.get "ip") ++
      [metadata.field "ip"] ++ (addressesOf metadata).map Json.str).filter Json.isTruthy ↔
        HasIp metadata ip := by
  simp only [HasIp, List.mem_filter, List.mem_append, List.mem_map, List.mem_singleton]
  constructor
  · intro reported
    obtain ⟨(interface | own) | listed, filled⟩ := reported
    · exact ⟨filled, Or.inr (Or.inr interface)⟩
    · exact ⟨filled, Or.inl own.symm⟩
    · exact ⟨filled, Or.inr (Or.inl listed)⟩
  · intro has
    obtain ⟨filled, own | listed | interface⟩ := has
    · exact ⟨Or.inl (Or.inr own.symm), filled⟩
    · exact ⟨Or.inr listed, filled⟩
    · exact ⟨Or.inl (Or.inl interface), filled⟩

theorem ipsOf_isEmpty {metadata : Metadata} :
    (ipsOf metadata).isEmpty = true ↔ ∀ ip, ¬ HasIp metadata ip := by
  rw [List.isEmpty_iff, ipsOf, Json.distinct_eq_nil, List.eq_nil_iff_forall_not_mem]
  exact forall_congr' fun ip => not_congr mem_reported

theorem any_ipsOf {metadata : Metadata} {wanted : Json} :
    (ipsOf metadata).any wanted.same = true ↔ ∃ ip, HasIp metadata ip ∧ wanted.same ip = true := by
  rw [ipsOf, Json.any_distinct, List.any_eq_true]
  exact exists_congr fun ip => and_congr_left fun _ => mem_reported

/-- Only a filled value is the same as an address of a description. -/
theorem HasIp.filled {metadata : Metadata} {ip wanted : Json} (has : HasIp metadata ip)
    (same : wanted.same ip = true) : wanted.isTruthy = true := by
  have filled := has.1
  cases wanted <;> cases ip <;> simp_all [Json.same, Json.isTruthy]

theorem sharesIp_iff {metadata : Metadata} : sharesIp (ipsOf metadata) row = true ↔
    ∃ ip other, HasIp metadata ip ∧ HasIp row.metadata other ∧ other.same ip = true := by
  unfold sharesIp
  dsimp only
  rw [Bool.or_eq_true, Bool.or_eq_true, Bool.and_eq_true, any_ipsOf]
  constructor
  · intro shares
    rcases shares with (own | listed) | interface
    · obtain ⟨filled, ip, has, same⟩ := own
      exact ⟨ip, _, has, ⟨filled, Or.inl rfl⟩, same⟩
    · obtain ⟨address, inList, included⟩ := List.any_eq_true.mp listed
      obtain ⟨ip, has, same⟩ := any_ipsOf.mp included
      exact ⟨ip, _, has, ⟨has.filled same, Or.inr (Or.inl ⟨address, inList, rfl⟩)⟩, same⟩
    · obtain ⟨interface, inList, included⟩ := List.any_eq_true.mp interface
      obtain ⟨ip, has, same⟩ := any_ipsOf.mp included
      exact ⟨ip, _, has, ⟨has.filled same, Or.inr (Or.inr ⟨interface, inList, rfl⟩)⟩, same⟩
  · intro shares
    obtain ⟨ip, other, has, ⟨filled, own | listed | interface⟩, same⟩ := shares
    · rw [own]
      exact Or.inl (Or.inl ⟨filled, ip, has, same⟩)
    · obtain ⟨address, inList, rfl⟩ := listed
      exact Or.inl (Or.inr (List.any_eq_true.mpr ⟨address, inList, any_ipsOf.mpr ⟨ip, has, same⟩⟩))
    · obtain ⟨interface, inList, rfl⟩ := interface
      exact Or.inr (List.any_eq_true.mpr ⟨interface, inList, any_ipsOf.mpr ⟨ip, has, same⟩⟩)

theorem hasStrongIdentity_iff : hasStrongIdentity row = true ↔ OwnsMac row := by
  unfold hasStrongIdentity OwnsMac
  rw [Bool.or_eq_true, List.any_eq_true]

theorem admits_iff : scope.admits row.id = true ↔ AtIncomingSite scope row := by
  unfold Scope.admits AtIncomingSite
  cases truthy scope.incomingSiteId with
  | none => exact iff_of_true rfl fun _ given => nomatch given
  | some site =>
      rw [beq_iff_eq]
      exact ⟨fun atSite _ given => Option.some.inj given ▸ atSite, fun atSite => atSite site rfl⟩

theorem sharesName_iff : sharesName incoming.name incoming.slug row = true ↔
    SharesName incoming row := by
  have nonempty (text : String) (named : identityName incoming ≠ "") :
      (text ≠ "" ∧ normalizeIdentityHost text = identityName incoming) ↔
        normalizeIdentityHost text = identityName incoming := by
    apply and_iff_right_of_imp
    intro same empty
    rw [empty] at same
    exact named same.symm
  have named (text : String) : (identityName incoming ≠ "" ∧ text ≠ "") ∧
      normalizeIdentityHost text = identityName incoming ↔
        identityName incoming ≠ "" ∧ normalizeIdentityHost text = identityName incoming := by
    rw [and_assoc]
    exact and_congr_right fun filled => nonempty text filled
  unfold sharesName SharesName
  simp only [Bool.or_eq_true, Bool.and_eq_true, Option.any_eq_true, beq_iff_eq, bne_iff_ne]
  rw [← identityName, named, named, exists_eq_right', or_assoc, or_assoc, ← and_or_left]
  apply or_congr_right
  apply or_congr_left
  constructor
  · intro shares
    obtain ⟨name, given, filled, same⟩ := shares
    exact ⟨filled, name, given, same⟩
  · intro shares
    obtain ⟨filled, name, given, same⟩ := shares
    exact ⟨name, given, filled, same⟩

/-- Each test of the matcher asks for what its tier needs. -/
theorem tests_iff {tier : Tier} :
    tests incoming scope row tier = true ↔ Qualifies incoming scope row tier := by
  cases tier with
  | id => exact beq_iff_eq
  | mac => exact sharesMac_iff
  | ip =>
      simp only [tests, Qualifies, Bool.and_eq_true, Bool.not_eq_true', ← Bool.not_eq_true,
        hasStrongIdentity_iff, admits_iff, sharesIp_iff, and_assoc]
  | name =>
      simp only [tests, Qualifies, Bool.and_eq_true, Bool.not_eq_true', ← Bool.not_eq_true,
        hasStrongIdentity_iff, admits_iff, sharesName_iff, macsOf_isEmpty, ipsOf_isEmpty, and_assoc]

/-! ## The match -/

theorem Tier.mem_all (tier : Tier) : tier ∈ Tier.all := by
  cases tier <;> decide

/-- A stronger tier comes before. -/
theorem Tier.before {tier other : Tier} {front back : List Tier}
    (split : Tier.all = front ++ tier :: back) (stronger : other.rank < tier.rank) :
    other ∈ front := by
  have sorted : Tier.all.Pairwise fun first second => first.rank < second.rank := by decide
  have listed := Tier.mem_all other
  rw [split] at sorted listed
  rcases List.mem_append.mp listed with before | behind
  · exact before
  · have later := (List.pairwise_cons.mp (List.pairwise_append.mp sorted).2.1).1
    rcases List.mem_cons.mp behind with rfl | after
    · exact absurd stronger (Nat.lt_irrefl _)
    · exact absurd (later other after) (Nat.lt_asymm stronger)

end ThetaDirectory.Discovery
