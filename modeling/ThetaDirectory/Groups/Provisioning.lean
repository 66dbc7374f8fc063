import ThetaDirectory.Groups.Naming
import ThetaDirectory.Groups.Nesting

/-!
# Provisioning the groups of a resource

`services/resource_groups.js`: the helpers that create a group, link it to a
resource and nest it, and the two procedures that materialise the groups of a
site and of a host or app.  `run` executes a sequence of such calls.
-/

namespace ThetaDirectory.Groups

/-- A row that binds a group to a resource. -/
structure ResourceGroup where
  resourceId : String
  groupCn : String
  accessLevel : String
  deriving DecidableEq, Repr

/-- The group tree and the rows binding groups to resources. -/
structure GroupStore where
  groups : List LdapGroup
  resourceGroups : List ResourceGroup
  deriving DecidableEq, Repr

/-- Bind a group to a resource unless a row already does. -/
def ResourceGroup.ensure (rows : List ResourceGroup) (resourceId groupCn accessLevel : String) :
    List ResourceGroup :=
  if rows.any fun row => row.resourceId == resourceId && row.groupCn == groupCn then rows
  else rows ++ [⟨resourceId, groupCn, accessLevel⟩]

/-- Make the child group a member of the parent group.  Every failure leaves the
tree as it is. -/
def nestGroup (base : GroupBase) (groups : List LdapGroup) (childCn parentCn : String) :
    List LdapGroup :=
  let nested : Except LdapError (List LdapGroup) := do
    let parent ← Group.get groups parentCn
    let child ← Group.get groups childCn
    if wouldCycle base.maxNestingDepth groups parentCn child.dn then return groups
    Group.addMember groups parent child.dn
  match nested with
  | .ok groups => groups
  | .error _ => groups

/-- Create a group if it does not exist.  The flag reports whether it was
created. -/
def ensureGroup (base : GroupBase) (groups : List LdapGroup) (name ownerDn : String) :
    List LdapGroup × Bool :=
  match Group.add base groups name ownerDn with
  | .ok groups => (groups, true)
  | .error _ => (groups, false)

namespace GroupStore

def ensureGroup (base : GroupBase) (ownerDn : String) (store : GroupStore) (name : String) :
    GroupStore :=
  { store with groups := (Groups.ensureGroup base store.groups name ownerDn).1 }

def nestGroup (base : GroupBase) (store : GroupStore) (childCn parentCn : String) :
    GroupStore :=
  { store with groups := Groups.nestGroup base store.groups childCn parentCn }

def ensureResourceGroup (store : GroupStore) (resourceId groupCn accessLevel : String) :
    GroupStore :=
  { store with
    resourceGroups :=
      ResourceGroup.ensure store.resourceGroups resourceId groupCn accessLevel }

/-- Link a site group to the site resource, where there is one. -/
def link (siteResourceId : Option String) (store : GroupStore) (cn : String)
    (isAdmin : Bool) : GroupStore :=
  match siteResourceId with
  | none => store
  | some resourceId =>
      store.ensureResourceGroup resourceId cn (if isAdmin then "owner" else "member")

end GroupStore

/-- The site-level groups and the aggregates, nested top down. -/
def ensureSiteGroups (base : GroupBase) (siteSlug ownerDn : String)
    (siteResourceId : Option String) (store : GroupStore) : Except String GroupStore :=
  if siteSlug = "" then .ok store
  else do
    let sAdmin := siteSuperAdminCns siteSlug
    let store := (store.ensureGroup base ownerDn sAdmin).link siteResourceId sAdmin true
    let store ← kinds.foldlM (fun store kind => do
      let store := store.ensureGroup base ownerDn (← aggregateGroupCns siteSlug kind "admin")
      return store.ensureGroup base ownerDn (← aggregateGroupCns siteSlug kind "access")) store
    let everyone := siteEveryoneCns siteSlug
    let store := (store.ensureGroup base ownerDn everyone).link siteResourceId everyone false
    let store := store.link siteResourceId godAdmin true
    let store := store.nestGroup base godAdmin sAdmin
    kinds.foldlM (fun store kind => do
      let aggAdmin ← aggregateGroupCns siteSlug kind "admin"
      let aggAccess ← aggregateGroupCns siteSlug kind "access"
      let store := store.nestGroup base sAdmin aggAdmin
      return store.nestGroup base aggAdmin aggAccess) store

/-- What provisioning reads of a resource. -/
structure ProvisionedResource where
  id : String
  slug : Option String
  deriving DecidableEq, Repr

/-- The groups of one resource, nested into the site aggregates.  The name
builders throw on a wrong kind before anything is written. -/
def provisionResourceGroups (base : GroupBase) (resource : ProvisionedResource)
    (kind siteSlug ownerDn : String) (store : GroupStore) : Except String GroupStore := do
  let nameSlug := resourceNameSlug resource.slug
  let accessCn ← resourceGroupCns siteSlug kind nameSlug "access"
  let adminCn ← resourceGroupCns siteSlug kind nameSlug "admin"
  let store := store.ensureGroup base ownerDn accessCn
  let store := store.ensureGroup base ownerDn adminCn
  let store := store.ensureResourceGroup resource.id accessCn "member"
  let store := store.ensureResourceGroup resource.id adminCn "owner"
  let store := store.nestGroup base adminCn accessCn
  let store := store.nestGroup base adminCn (← aggregateGroupCns siteSlug kind "admin")
  let store := store.nestGroup base accessCn (← aggregateGroupCns siteSlug kind "access")
  return store.nestGroup base godAdmin adminCn

/-- One provisioning call. -/
inductive Provision (base : GroupBase) where
  | site (slug : String) (owner : base.UserDn) (resourceId : Option String)
  | resource (resource : ProvisionedResource) (kind : Kind) (site : String)
      (owner : base.UserDn)

namespace Provision

variable {base : GroupBase}

/-- The site a call provisions for. -/
def siteSlug : Provision base → String
  | site slug _ _ | resource _ _ slug _ => slug

/-- The person whose DN seeds the groups a call creates. -/
def owner : Provision base → base.UserDn
  | site _ owner _ | resource _ _ _ owner => owner

/-- Execute one call. -/
def execute (store : GroupStore) : Provision base → Except String GroupStore
  | site slug owner resourceId => ensureSiteGroups base slug owner.dn resourceId store
  | resource entry kind slug owner =>
      provisionResourceGroups base entry kind.text slug owner.dn store

end Provision

/-- A tree that holds only `god_admin`, seeded with one person. -/
def seededStore (base : GroupBase) (seed : base.UserDn) : GroupStore :=
  ⟨[⟨base.groupDn godAdmin, godAdmin, [seed.dn]⟩], []⟩

/-- Execute a sequence of calls. -/
def provisionAll {base : GroupBase} (calls : List (Provision base)) (store : GroupStore) :
    Except String GroupStore :=
  calls.foldlM Provision.execute store

/-- Make a person a direct member of the groups named. -/
def enrol (groups : List LdapGroup) (dn : String) (direct : List String) : List LdapGroup :=
  groups.map fun group =>
    if direct.contains group.cn then { group with member := group.member ++ [dn] } else group

/-- The names of the groups a person belongs to at any nesting depth. -/
def transitiveGroups (base : GroupBase) (groups : List LdapGroup) (dn : String) : List String :=
  (closureUp base.maxNestingDepth dn groups).map (·.cn)

end ThetaDirectory.Groups
