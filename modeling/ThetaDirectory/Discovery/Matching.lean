import ThetaDirectory.Catalog.Resource

/-!
# Matching a discovered resource to a catalogue row

`services/resource_matcher.js`: UUID, then MAC, then IP, then name and slug.  The
weaker tiers keep to the incoming site and never take a row with a MAC of its own.  Where
a MAC is not a string, or `interfaces` is no list of objects, the source throws and there is
no match; the model reads such a field as empty.
-/

namespace ThetaDirectory.Discovery

open Library Catalog

/-- A resource as a discovery source reports it. -/
structure Item where
  id : Option String
  kind : Option String
  name : Option String
  slug : Option String
  description : Option String
  metadata : Metadata

def isHexDigit (char : Char) : Bool := char.isDigit || ('a' ≤ char && char ≤ 'f')

def normalizeMac (value : Option String) : String :=
  String.ofList ((toLowerCase (value.getD "")).toList.filter isHexDigit)

/-- The first label of a host name. -/
def normalizeIdentityHost (value : String) : String :=
  trim ((splitAt '.' (toLowerCase value)).headD "")

def interfacesOf (metadata : Metadata) : List Json := (metadata.field "interfaces").items

def addressesOf (metadata : Metadata) : List String :=
  let address := metadata.field "address"
  if address.isTruthy then (splitAt ',' address.text).map trim else []

def macsOf (metadata : Metadata) : List String :=
  let own := ((metadata.textAt "macAddress").map fun mac => normalizeMac (some mac)).toList
  let others := (interfacesOf metadata).map fun interface => normalizeMac (interface.textAt "mac")
  ((own ++ others).filter fun mac => mac.length = 12).eraseDups

/-- The addresses as they are reported, strings or not. -/
def ipsOf (metadata : Metadata) : List Json :=
  let others := (interfacesOf metadata).map fun interface => interface.get "ip"
  let listed := (addressesOf metadata).map Json.str
  Json.distinct ((others ++ [metadata.field "ip"] ++ listed).filter Json.isTruthy)

/-- A row with a MAC of its own. -/
def hasStrongIdentity (row : Resource) : Bool :=
  (row.metadata.field "macAddress").isTruthy ||
    (interfacesOf row.metadata).any fun interface => (interface.get "mac").isTruthy

/-- The site the weaker tiers keep to. -/
structure Scope where
  siteOf : String → Option String
  incomingSiteId : Option String

def Scope.admits (scope : Scope) (id : String) : Bool :=
  match truthy scope.incomingSiteId with
  | some site => scope.siteOf id == some site
  | none => true

/-! ## What a row shares with the incoming description -/

def sharesMac (macs : List String) (row : Resource) : Bool :=
  ((row.metadata.textAt "macAddress").any fun mac => macs.contains (normalizeMac (some mac))) ||
    (interfacesOf row.metadata).any fun interface =>
      macs.contains (normalizeMac (interface.textAt "mac"))

def sharesIp (ips : List Json) (row : Resource) : Bool :=
  let includes (wanted : Json) : Bool := ips.any wanted.same
  ((row.metadata.field "ip").isTruthy && includes (row.metadata.field "ip")) ||
    (addressesOf row.metadata).any (fun address => includes (.str address)) ||
      (interfacesOf row.metadata).any fun interface => includes (interface.get "ip")

def sharesName (name slug : Option String) (row : Resource) : Bool :=
  let inputName := normalizeIdentityHost (((truthy name).or slug).getD "")
  ((truthy slug).any fun slug => row.slug == slug) ||
    ((truthy name).any fun name => row.name != "" && toLowerCase row.name == toLowerCase name) ||
      (inputName != "" && row.name != "" && normalizeIdentityHost row.name == inputName) ||
        (inputName != "" && row.slug != "" && normalizeIdentityHost row.slug == inputName)

/-! ## The tiers -/

def matchByMac (macs : List String) (pool : List Resource) : Option Resource :=
  if macs.isEmpty then none else pool.find? (sharesMac macs)

def matchByIp (ips : List Json) (pool : List Resource) (scope : Scope) : Option Resource :=
  if ips.isEmpty then none
  else pool.find? fun row => !hasStrongIdentity row && scope.admits row.id && sharesIp ips row

def matchByNameOrSlug (name slug : Option String) (pool : List Resource) (scope : Scope) :
    Option Resource :=
  if (truthy name).isNone && (truthy slug).isNone then none
  else pool.find? fun row =>
    !hasStrongIdentity row && scope.admits row.id && sharesName name slug row

def findExistingMatch (incoming : Item) (pool : List Resource) (scope : Scope) : Option Resource :=
  let byId := (truthy incoming.id).bind fun id => pool.find? fun row => row.id == id
  let macs := macsOf incoming.metadata
  let ips := ipsOf incoming.metadata
  let byName :=
    if macs.isEmpty && ips.isEmpty then matchByNameOrSlug incoming.name incoming.slug pool scope
    else none
  byId.or ((matchByMac macs pool).or ((matchByIp ips pool scope).or byName))

theorem sharesMac_nil (row : Resource) : sharesMac [] row = false := by
  simp [sharesMac]

theorem sharesIp_nil (row : Resource) : sharesIp [] row = false := by
  simp [sharesIp]

/-- Nothing shares a name with an item that has neither name nor slug. -/
theorem sharesName_blank {name slug : Option String} (row : Resource)
    (noName : truthy name = none) (noSlug : truthy slug = none) :
    sharesName name slug row = false := by
  have blank : normalizeIdentityHost (slug.getD "") = "" := by
    cases slug with
    | none => decide
    | some text =>
        have empty : text = "" := by
          by_contra filled
          rw [truthy, Option.filter_some, if_pos (by simpa using filled)] at noSlug
          cases noSlug
        subst empty
        decide
  simp [sharesName, noName, noSlug, blank]

/-- Some tier could take the row for the incoming description, whatever the site. -/
def Shares (incoming : Item) (row : Resource) : Prop :=
  incoming.id = some row.id ∨ sharesMac (macsOf incoming.metadata) row = true ∨
    hasStrongIdentity row = false ∧ (sharesIp (ipsOf incoming.metadata) row = true ∨
      sharesName incoming.name incoming.slug row = true)

/-- A match comes from the pool and shares something with the description. -/
theorem findExistingMatch_spec {incoming : Item} {pool : List Resource} {scope : Scope}
    {row : Resource} (found : findExistingMatch incoming pool scope = some row) :
    row ∈ pool ∧ Shares incoming row := by
  simp only [findExistingMatch, Option.or_eq_some_iff] at found
  rcases found with byId | ⟨-, byMac | ⟨-, byIp | ⟨-, byName⟩⟩⟩
  · obtain ⟨id, given, taken⟩ := Option.bind_eq_some_iff.mp byId
    have same : row.id = id := by simpa using List.find?_some taken
    have idEq : incoming.id = some id := (Option.filter_eq_some_iff.mp given).1
    exact ⟨List.mem_of_find?_eq_some taken, Or.inl (idEq.trans (congrArg some same.symm))⟩
  · unfold matchByMac at byMac
    split at byMac
    · contradiction
    · exact ⟨List.mem_of_find?_eq_some byMac, Or.inr (Or.inl (List.find?_some byMac))⟩
  · unfold matchByIp at byIp
    split at byIp
    · contradiction
    · have shares := List.find?_some byIp
      simp only [Bool.and_eq_true, Bool.not_eq_true'] at shares
      exact ⟨List.mem_of_find?_eq_some byIp, Or.inr (Or.inr ⟨shares.1.1, Or.inl shares.2⟩)⟩
  · split at byName
    · unfold matchByNameOrSlug at byName
      split at byName
      · contradiction
      · have shares := List.find?_some byName
        simp only [Bool.and_eq_true, Bool.not_eq_true'] at shares
        exact ⟨List.mem_of_find?_eq_some byName, Or.inr (Or.inr ⟨shares.1.1, Or.inr shares.2⟩)⟩
    · contradiction

end ThetaDirectory.Discovery
