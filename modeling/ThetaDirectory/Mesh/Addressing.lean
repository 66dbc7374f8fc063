import ThetaDirectory.Library.Ipv4

/-!
# Mesh addressing

The address plan of `utils/mesh_addressing.js`: what each site has inside its 10.<site>.0.0/16,
and where the addresses of its client pool lie.
-/

namespace ThetaDirectory.Mesh

open Library Library.Ipv4

def MAX_SITE_ID : Nat := 254

def MIN_SITE_ID : Nat := 1

/-- The shadow slots, as the third octet of a site's /16. -/
def SHADOW_SLOTS : List Nat := [168, 172]

def assertSiteId (siteId : Nat) : Except String Nat :=
  if MIN_SITE_ID ≤ siteId ∧ siteId ≤ MAX_SITE_ID then .ok siteId
  else .error ("site id must be an integer in [" ++ toString MIN_SITE_ID ++ ", " ++
    toString MAX_SITE_ID ++ "], got " ++ toString siteId)

def siteServiceIp (siteId offset : Nat) : Except String String := do
  let siteId ← assertSiteId siteId
  return "10." ++ toString siteId ++ ".0." ++ toString offset

/-- The range of the site services, which the module's plan names and no function makes. -/
def siteServicesCidr (siteId : Nat) : Except String String := do
  let siteId ← assertSiteId siteId
  return "10." ++ toString siteId ++ ".0.0/24"

def clientPoolCidr (siteId : Nat) : Except String String := do
  let siteId ← assertSiteId siteId
  return "10." ++ toString siteId ++ ".128.0/17"

/-- The octets 0 and 255 are avoided in each /24 of the pool. -/
def usablePerOctet : Nat := 254

def MAX_CLIENT_INDEX : Nat := 128 * usablePerOctet

def clientIp (siteId n : Nat) : Except String String := do
  let siteId ← assertSiteId siteId
  if n < 1 ∨ MAX_CLIENT_INDEX < n then
    throw ("client index must be an integer in [1, " ++ toString MAX_CLIENT_INDEX ++ "], got " ++
      toString n)
  let third := 128 + (n - 1) / usablePerOctet
  let fourth := (n - 1) % usablePerOctet + 1
  return "10." ++ toString siteId ++ "." ++ toString third ++ "." ++ toString fourth

def shadowCidr (siteId slot : Nat) : Except String String := do
  let siteId ← assertSiteId siteId
  if slot ∉ SHADOW_SLOTS then
    throw ("shadow slot must be one of " ++ ", ".intercalate (SHADOW_SLOTS.map toString) ++
      ", got " ++ toString slot)
  return "10." ++ toString siteId ++ "." ++ toString slot ++ ".0/24"

/-! ## What the functions return -/

variable {siteId other slot n offset : Nat} {ip cidr : String}

theorem assertSiteId_bind {α : Type} {make : Nat → Except String α} {result : α} :
    (assertSiteId siteId >>= make) = .ok result ↔
      (1 ≤ siteId ∧ siteId ≤ 254) ∧ make siteId = .ok result := by
  unfold assertSiteId MIN_SITE_ID MAX_SITE_ID
  split
  · rename_i inside
    exact (and_iff_right inside).symm
  · rename_i outside
    constructor
    · exact fun same => by cases same
    · exact fun same => absurd same.1 outside

/-- An address of a site. -/
def siteIp (site third fourth : Fin 256) : Ipv4 := ⟨10, site, third, fourth⟩

theorem text_siteIp (site third fourth : Fin 256) : (siteIp site third fourth).text =
    "10." ++ toString site.val ++ "." ++ toString third.val ++ "." ++ toString fourth.val := by
  have first : toString (10 : Fin 256).val ++ "." = "10." := by decide
  simp only [Ipv4.text, siteIp, first]

/-- The text of a range of a site is that of a network. -/
theorem text_network (site third : Fin 256) (length : Nat) :
    (⟨siteIp site third 0, length⟩ : Network).text =
      "10." ++ toString site.val ++ "." ++ toString third.val ++ ".0/" ++ toString length := by
  have last : "." ++ (toString (0 : Fin 256).val ++ "/") = ".0/" := by decide
  rw [Network.text, text_siteIp]
  simp only [String.append_assoc, ← last]

theorem siteServicesCidr_eq_ok (made : siteServicesCidr siteId = .ok cidr) :
    ∃ site : Fin 256, site.val = siteId ∧ cidr = (⟨siteIp site 0 0, 24⟩ : Network).text := by
  obtain ⟨valid, returned⟩ := assertSiteId_bind.mp made
  have fits : siteId < 256 := Nat.lt_succ_of_le (Nat.le_succ_of_le valid.2)
  refine ⟨⟨siteId, fits⟩, rfl, ?_⟩
  have last : "." ++ (toString (0 : Fin 256).val ++ (".0/" ++ toString 24)) = ".0.0/24" := by decide
  rw [text_network, ← Except.ok.inj returned]
  simp only [String.append_assoc, last]

theorem clientPoolCidr_eq_ok (made : clientPoolCidr siteId = .ok cidr) :
    ∃ site : Fin 256, site.val = siteId ∧ cidr = (⟨siteIp site 128 0, 17⟩ : Network).text := by
  obtain ⟨valid, returned⟩ := assertSiteId_bind.mp made
  have fits : siteId < 256 := Nat.lt_succ_of_le (Nat.le_succ_of_le valid.2)
  refine ⟨⟨siteId, fits⟩, rfl, ?_⟩
  have last : "." ++ (toString (128 : Fin 256).val ++ (".0/" ++ toString 17)) = ".128.0/17" := by
    decide
  rw [text_network, ← Except.ok.inj returned]
  simp only [String.append_assoc, last]

theorem shadowCidr_eq_ok (made : shadowCidr siteId slot = .ok cidr) :
    slot ∈ SHADOW_SLOTS ∧ ∃ site third : Fin 256, site.val = siteId ∧ third.val = slot ∧
      cidr = (⟨siteIp site third 0, 24⟩ : Network).text := by
  obtain ⟨valid, returned⟩ := assertSiteId_bind.mp made
  have fits : siteId < 256 := Nat.lt_succ_of_le (Nat.le_succ_of_le valid.2)
  split at returned
  · cases returned
  · rename_i known
    have listed : slot ∈ SHADOW_SLOTS := not_not.mp known
    have small : slot < 256 := by
      simp only [SHADOW_SLOTS, List.mem_cons, List.not_mem_nil, or_false] at listed
      omega
    refine ⟨listed, ⟨siteId, fits⟩, ⟨slot, small⟩, rfl, rfl, ?_⟩
    have last : ".0/" ++ toString 24 = ".0/24" := by decide
    rw [text_network, ← Except.ok.inj returned]
    simp only [String.append_assoc, last]

theorem clientIp_eq_ok : clientIp siteId n = .ok ip ↔
    (1 ≤ siteId ∧ siteId ≤ 254) ∧ (1 ≤ n ∧ n ≤ MAX_CLIENT_INDEX) ∧
      ∃ site third fourth : Fin 256, site.val = siteId ∧ third.val = 128 + (n - 1) / 254 ∧
        fourth.val = (n - 1) % 254 + 1 ∧ ip = (siteIp site third fourth).text := by
  rw [clientIp, assertSiteId_bind]
  apply and_congr_right
  intro valid
  split
  · rename_i outside
    constructor
    · exact fun same => by cases same
    · rintro ⟨inside, -⟩
      omega
  · rename_i inside
    have fits : siteId < 256 ∧ 128 + (n - 1) / 254 < 256 ∧ (n - 1) % 254 + 1 < 256 := by
      simp only [MAX_CLIENT_INDEX, usablePerOctet] at inside
      omega
    constructor
    · intro returned
      refine ⟨by omega, ⟨siteId, fits.1⟩, ⟨_, fits.2.1⟩, ⟨_, fits.2.2⟩, rfl, rfl, rfl, ?_⟩
      rw [text_siteIp, ← Except.ok.inj returned]
      rfl
    · rintro ⟨-, site, third, fourth, rfl, sameThird, sameFourth, rfl⟩
      rw [text_siteIp, sameThird, sameFourth]
      rfl

/-! ## Where client addresses lie -/

theorem clientIp_isOk (valid : 1 ≤ siteId ∧ siteId ≤ 254) (inside : 1 ≤ n ∧ n ≤ MAX_CLIENT_INDEX) :
    ∃ ip, clientIp siteId n = .ok ip := by
  have fits : siteId < 256 ∧ 128 + (n - 1) / 254 < 256 ∧ (n - 1) % 254 + 1 < 256 := by
    simp only [MAX_CLIENT_INDEX, usablePerOctet] at inside
    omega
  exact ⟨_, clientIp_eq_ok.mpr ⟨valid, inside, ⟨siteId, fits.1⟩, ⟨_, fits.2.1⟩, ⟨_, fits.2.2⟩, rfl,
    rfl, rfl, rfl⟩⟩

/-- A client address belongs to one site and one index. -/
theorem clientIp_inj {otherN : Nat} (made : clientIp siteId n = .ok ip)
    (madeOther : clientIp other otherN = .ok ip) : siteId = other ∧ n = otherN := by
  obtain ⟨-, ⟨least, -⟩, site, third, fourth, rfl, thirdIs, fourthIs, rfl⟩ := clientIp_eq_ok.mp made
  obtain ⟨-, ⟨leastOther, -⟩, site', third', fourth', rfl, thirdIs', fourthIs', same⟩ :=
    clientIp_eq_ok.mp madeOther
  have equal := Ipv4.text_inj.mp same
  simp only [siteIp, Ipv4.mk.injEq] at equal
  obtain ⟨-, rfl, rfl, rfl⟩ := equal
  exact ⟨rfl, by omega⟩

theorem lies_clientPool (made : clientIp siteId n = .ok ip)
    (pool : clientPoolCidr siteId = .ok cidr) : Lies cidr ip := by
  obtain ⟨-, inside, site, third, fourth, rfl, thirdIs, -, rfl⟩ := clientIp_eq_ok.mp made
  obtain ⟨poolSite, same, rfl⟩ := clientPoolCidr_eq_ok pool
  cases Fin.ext same
  simp only [MAX_CLIENT_INDEX, usablePerOctet] at inside
  rw [lies_text, contains_17 rfl]
  refine ⟨rfl, rfl, ?_⟩
  change third.val / 128 = 128 / 128
  omega

theorem not_lies_siteServices (made : clientIp siteId n = .ok ip)
    (services : siteServicesCidr other = .ok cidr) : ¬ Lies cidr ip := by
  obtain ⟨-, -, site, third, fourth, -, thirdIs, -, rfl⟩ := clientIp_eq_ok.mp made
  obtain ⟨serviceSite, -, rfl⟩ := siteServicesCidr_eq_ok services
  rw [lies_text, contains_24 rfl]
  rintro ⟨-, -, same⟩
  have zero : third.val = 0 := congrArg Fin.val same
  omega

/-- The client pool of a site runs over its own shadow ranges. -/
theorem lies_shadow_iff (made : clientIp siteId n = .ok ip)
    (shadow : shadowCidr other slot = .ok cidr) :
    Lies cidr ip ↔ siteId = other ∧ 128 + (n - 1) / 254 = slot := by
  obtain ⟨-, -, site, third, fourth, rfl, thirdIs, -, rfl⟩ := clientIp_eq_ok.mp made
  obtain ⟨-, shadowSite, slotOctet, rfl, rfl, rfl⟩ := shadowCidr_eq_ok shadow
  rw [lies_text, contains_24 rfl, ← thirdIs, Fin.val_inj, Fin.val_inj]
  exact and_iff_right rfl

/-- The services of a site lie in their range. -/
theorem lies_siteServiceIp (small : offset < 256) (made : siteServiceIp siteId offset = .ok ip)
    (services : siteServicesCidr siteId = .ok cidr) : Lies cidr ip := by
  obtain ⟨-, returned⟩ := assertSiteId_bind.mp made
  obtain ⟨site, rfl, rfl⟩ := siteServicesCidr_eq_ok services
  have written : ip = (siteIp site 0 ⟨offset, small⟩).text := by
    have middle : "." ++ (toString (0 : Fin 256).val ++ ".") = ".0." := by decide
    rw [text_siteIp, ← Except.ok.inj returned]
    simp only [String.append_assoc, ← middle]
  rw [written, lies_text, contains_24 rfl]
  exact ⟨rfl, rfl, rfl⟩

end ThetaDirectory.Mesh
