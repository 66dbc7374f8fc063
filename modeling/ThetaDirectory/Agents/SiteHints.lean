import ThetaDirectory.Discovery.Sites

/-!
# The site an agent is filed at

`utils/agent_site.js`: the site a location names, the site with the public address of the
agent, and the directory's own site, tried in this order.  Names are compared after
normalisation; the address is looked for inside the recorded ones, where the code promises
an exact match.
-/

namespace ThetaDirectory.Agents

open Catalog
open Discovery (isCurrentSite)

/-! ## Site keys -/

section Keys

-- `toLowerCase`, over all letters
variable (lower : String → String)

def normalizeSiteKey (text : String) : String :=
  String.ofList ((lower (trim text)).toList.map fun char => if char = '-' then '_' else char)

/-- The key without the prefix `site_`. -/
def bareSiteKey (key : String) : String :=
  if "site_".toList <+: key.toList then String.ofList (key.toList.drop 5) else key

/-- Locations that stand for no site. -/
def isPlaceholder (text : String) : Bool := text ∈ ["default", "unknown", "none"]

/-- The test `resolveSiteHint` puts to each site. -/
def answersHint (wanted : String) (site : Resource) : Bool :=
  let wNorm := normalizeSiteKey lower wanted
  let wBare := bareSiteKey wNorm
  site.id == wanted || normalizeSiteKey lower site.id == wNorm ||
    site.slug == wanted || normalizeSiteKey lower site.slug == wNorm ||
    normalizeSiteKey lower site.slug == "site_" ++ wBare ||
    normalizeSiteKey lower site.name == wNorm || normalizeSiteKey lower site.name == wBare ||
    site.name == wanted

def resolveSiteHint (sites : List Resource) (hint : Option String) : Option Resource :=
  let wanted := trim (hint.getD "")
  if wanted = "" ∨ isPlaceholder (lower wanted) then none
  else sites.find? (answersHint lower wanted)

def currentSite (sites : List Resource) : Option Resource := sites.find? isCurrentSite

/-! ## Addresses -/

/-- An address that is no text cannot be trimmed. -/
inductive NotText where
  | trim
  deriving DecidableEq, Repr

/-- The address a site is recorded with, or the empty text. -/
def recordedAddress (site : Resource) : Except NotText String :=
  match [site.metadata.field "public_ip", site.metadata.field "ip",
      site.metadata.field "address"].find? (·.isTruthy) with
  | none => .ok ""
  | some (.str text) => .ok (trim text)
  | some _ => .error .trim

/-- The test the recorded address is put to. -/
def answersAddress (publicIp siteIp : String) : Bool :=
  siteIp != "" && (siteIp == publicIp || publicIp.toList <:+: siteIp.toList)

/-- The first site whose address answers. -/
def siteByAddress (publicIp : String) : List Resource → Except NotText (Option Resource)
  | [] => .ok none
  | site :: sites => do
      let siteIp ← recordedAddress site
      if answersAddress publicIp siteIp then return some site
      else siteByAddress publicIp sites

/-! ## The site of an agent -/

/-- The site the reported location leads to. -/
def siteByLocation (sites : List Resource) (location : Option String) : Option Resource :=
  let loc := lower (trim (location.getD ""))
  if loc = "" ∨ isPlaceholder loc then none else resolveSiteHint lower sites location

def resolveAgentSite (sites : List Resource) (location publicIp : Option String) :
    Except NotText (Option Resource) :=
  match siteByLocation lower sites location with
  | some site => .ok (some site)
  | none =>
      match truthy publicIp with
      | none => .ok (currentSite sites)
      | some address => do
          let byIp ← siteByAddress address sites
          return byIp.or (currentSite sites)

/-! ## What the agent names -/

/-- Two keys that differ at most in the prefix. -/
def SameKey (key other : String) : Prop :=
  key = other ∨ key = "site_" ++ other ∨ "site_" ++ key = other

/-- The location is the id, slug or name of the site after normalisation. -/
def Names (location : String) (site : Resource) : Prop :=
  trim location ≠ "" ∧ ∃ field ∈ [site.id, site.slug, site.name],
    SameKey (normalizeSiteKey lower field) (normalizeSiteKey lower location)

/-- The site is named by the location, has the public address, or is the current one. -/
def Filed (sites : List Resource) (location publicIp : Option String) (site : Resource) : Prop :=
  (∃ text, location = some text ∧ Names lower text site) ∨
    (∃ address, truthy publicIp = some address ∧ recordedAddress site = .ok address) ∨
    currentSite sites = some site

/-- The first site whose address answers, after sites with addresses that do not. -/
inductive FirstAnswer (publicIp : String) : List Resource → Resource → Prop where
  | here {site : Resource} {sites : List Resource} {siteIp : String}
      (recorded : recordedAddress site = .ok siteIp)
      (answers : answersAddress publicIp siteIp = true) :
      FirstAnswer publicIp (site :: sites) site
  | behind {first site : Resource} {sites : List Resource} {siteIp : String}
      (recorded : recordedAddress first = .ok siteIp)
      (silent : answersAddress publicIp siteIp = false)
      (later : FirstAnswer publicIp sites site) : FirstAnswer publicIp (first :: sites) site

/-- The location leads to a site. -/
def LeadsToSite (sites : List Resource) (location : Option String) : Prop :=
  ∃ text, location = some text ∧ lower (trim text) ≠ "" ∧ trim text ≠ "" ∧
    isPlaceholder (lower (trim text)) = false ∧ ∃ site ∈ sites, answersHint lower (trim text) site

/-- Where the location leads nowhere, the first address that answers is the given one, or
the site with it is named or current anyway. -/
def Clear (sites : List Resource) (location publicIp : Option String) : Prop :=
  ¬ LeadsToSite lower sites location → ∀ address, truthy publicIp = some address →
    ∀ site, FirstAnswer address sites site →
      recordedAddress site = .ok address ∨ (∃ text, location = some text ∧ Names lower text site) ∨
        currentSite sites = some site

end Keys

/-! ## What the comparisons promise -/

section Comparisons

variable {lower : String → String} {sites : List Resource} {location publicIp : Option String}
variable {site : Resource}

theorem normalizeSiteKey_trim (text : String) :
    normalizeSiteKey lower (trim text) = normalizeSiteKey lower text := by
  rw [normalizeSiteKey, trim_trim, normalizeSiteKey]

/-- A key is the bare key with or without the prefix. -/
theorem bareSiteKey_or (key : String) : key = "site_" ++ bareSiteKey key ∨ key = bareSiteKey key := by
  rw [bareSiteKey]
  split
  · rename_i isPrefix
    obtain ⟨rest, split⟩ := isPrefix
    left
    have dropped : ("site_".toList ++ rest).drop 5 = rest := rfl
    rw [← split, dropped, ← String.toList_inj, String.toList_append, @String.toList_ofList rest]
    exact split.symm
  · exact Or.inr rfl

theorem sameKey_site_bare (key : String) : SameKey ("site_" ++ bareSiteKey key) key := by
  rcases bareSiteKey_or key with prefixed | bare
  · exact Or.inl prefixed.symm
  · exact Or.inr (Or.inl (congrArg ("site_" ++ ·) bare.symm))

theorem sameKey_bare (key : String) : SameKey (bareSiteKey key) key := by
  rcases bareSiteKey_or key with prefixed | bare
  · exact Or.inr (Or.inr prefixed.symm)
  · exact Or.inl bare.symm

/-- A site that answers a hint is named by it. -/
theorem names_of_answersHint {text : String} (given : trim text ≠ "")
    (answers : answersHint lower (trim text) site = true) : Names lower text site := by
  refine ⟨given, ?_⟩
  rw [← normalizeSiteKey_trim text]
  simp only [answersHint, Bool.or_eq_true, beq_iff_eq] at answers
  have byId : site.id ∈ [site.id, site.slug, site.name] := List.mem_cons_self
  have bySlug : site.slug ∈ [site.id, site.slug, site.name] := by simp
  have byName : site.name ∈ [site.id, site.slug, site.name] := by simp
  rcases answers with (((((((same | same) | same) | same) | same) | same) | same) | same)
  · exact ⟨_, byId, Or.inl (congrArg _ same)⟩
  · exact ⟨_, byId, Or.inl same⟩
  · exact ⟨_, bySlug, Or.inl (congrArg _ same)⟩
  · exact ⟨_, bySlug, Or.inl same⟩
  · refine ⟨_, bySlug, ?_⟩
    rw [same]
    exact sameKey_site_bare _
  · exact ⟨_, byName, Or.inl same⟩
  · refine ⟨_, byName, ?_⟩
    rw [same]
    exact sameKey_bare _
  · exact ⟨_, byName, Or.inl (congrArg _ same)⟩

/-- The location leads to a site exactly when one answers it. -/
theorem siteByLocation_eq_none :
    siteByLocation lower sites location = none ↔ ¬ LeadsToSite lower sites location := by
  unfold siteByLocation resolveSiteHint LeadsToSite
  cases location with
  | none =>
      have blank : trim "" = "" := by decide +kernel
      simp [blank]
  | some text =>
      simp only [Option.getD_some, Option.some.injEq, exists_eq_left']
      by_cases placeholder : lower (trim text) = "" ∨ isPlaceholder (lower (trim text)) = true
      · rw [if_pos placeholder]
        refine iff_of_true rfl ?_
        rintro ⟨given, -, meant, -⟩
        rcases placeholder with blank | names
        · exact given blank
        · cases meant.symm.trans names
      · obtain ⟨given, meant⟩ := not_or.mp placeholder
        rw [if_neg placeholder]
        by_cases blank : trim text = ""
        · rw [if_pos (Or.inl blank)]
          exact iff_of_true rfl fun leads => leads.2.1 blank
        · rw [if_neg (not_or.mpr ⟨blank, meant⟩), List.find?_eq_none]
          constructor
          · rintro silent ⟨-, -, -, site, known, answers⟩
            exact silent site known answers
          · intro lost site known answers
            exact lost ⟨given, blank, Bool.eq_false_iff.mpr meant, site, known, answers⟩

theorem names_of_siteByLocation (found : siteByLocation lower sites location = some site) :
    ∃ text, location = some text ∧ Names lower text site := by
  unfold siteByLocation resolveSiteHint at found
  dsimp only at found
  split at found
  · cases found
  · split at found
    · cases found
    · rename_i given
      have answers := List.find?_some found
      cases location with
      | none => exact absurd (Or.inl (by decide +kernel)) given
      | some text => exact ⟨text, rfl, names_of_answersHint (not_or.mp given).1 answers⟩

/-- The search by address ends at the first address that answers. -/
theorem siteByAddress_eq_some {address : String} :
    siteByAddress address sites = .ok (some site) ↔ FirstAnswer address sites site := by
  constructor
  · intro found
    induction sites with
    | nil => cases found
    | cons first sites ih =>
        rw [siteByAddress] at found
        cases recorded : recordedAddress first with
        | error failure =>
            rw [recorded] at found
            cases found
        | ok siteIp =>
            rw [recorded] at found
            change (if answersAddress address siteIp then _ else _) = _ at found
            split at found
            · rename_i answers
              cases found
              exact .here recorded answers
            · rename_i silent
              exact .behind recorded (Bool.eq_false_iff.mpr silent) (ih found)
  · intro first
    induction first with
    | here recorded answers =>
        rw [siteByAddress, recorded]
        exact if_pos answers
    | behind recorded silent later ih =>
        rw [siteByAddress, recorded]
        exact (if_neg (Bool.eq_false_iff.mp silent)).trans ih

/-- An agent is filed at a site it names exactly when the address search is clear. -/
theorem filed_iff_clear :
    (∀ site, resolveAgentSite lower sites location publicIp = .ok (some site) →
      Filed lower sites location publicIp site) ↔ Clear lower sites location publicIp := by
  unfold resolveAgentSite
  split
  · rename_i named led
    constructor
    · intro _ lost
      exact absurd led (siteByLocation_eq_none.mpr lost ▸ nofun)
    · intro _ site same
      cases same
      exact Or.inl (names_of_siteByLocation led)
  · rename_i lost
    have nowhere := siteByLocation_eq_none.mp lost
    split
    · rename_i unaddressed
      constructor
      · intro _ _ address given
        cases unaddressed.symm.trans given
      · intro _ site same
        exact Or.inr (Or.inr (Except.ok.inj same))
    · rename_i address given
      constructor
      · intro filed _ other same site first
        cases given.symm.trans same
        rw [siteByAddress_eq_some.mpr first] at filed
        rcases filed site rfl with named | ⟨other, same, exact⟩ | current
        · exact Or.inr (Or.inl named)
        · cases given.symm.trans same
          exact Or.inl exact
        · exact Or.inr (Or.inr current)
      · intro clear site found
        cases outcome : siteByAddress address sites with
        | error failure =>
            rw [outcome] at found
            cases found
        | ok byIp =>
            rw [outcome] at found
            cases byIp with
            | none => exact Or.inr (Or.inr (Except.ok.inj found))
            | some answering =>
                cases found
                have first := siteByAddress_eq_some.mp outcome
                rcases clear nowhere address given site first with same | named | current
                · exact Or.inr (Or.inl ⟨address, given, same⟩)
                · exact Or.inl named
                · exact Or.inr (Or.inr current)

end Comparisons

/-! ## A neighbour's address -/

/-- A site whose address only begins with the agent's. -/
def farSite : Resource :=
  ⟨"f", "site", "Far", "site_far", none, none, (∅ : Metadata).insert "public_ip" (.str "10.0.0.10")⟩

def homeSite : Resource :=
  ⟨"h", "site", "Home", "site_home", none, none,
    (∅ : Metadata).insert "isCurrentSite" (.bool true)⟩

/-- The agent is filed at the far site, which it does not name. -/
theorem not_filed_farSite :
    resolveAgentSite toLowerCase [farSite, homeSite] none (some "10.0.0.1") = .ok (some farSite) ∧
      ¬ Filed toLowerCase [farSite, homeSite] none (some "10.0.0.1") farSite := by
  refine ⟨rfl, ?_⟩
  rintro (⟨text, named, -⟩ | ⟨address, given, recorded⟩ | current)
  · cases named
  · have given' : address = "10.0.0.1" := Option.some.inj (given.symm.trans rfl)
    subst given'
    have exact : recordedAddress farSite = .ok "10.0.0.10" := rfl
    rw [exact] at recorded
    exact absurd (Except.ok.inj recorded) (by decide)
  · have home : (currentSite [farSite, homeSite]).map (·.id) = some "h" := by decide +kernel
    rw [current] at home
    exact absurd home (by decide)

end ThetaDirectory.Agents
