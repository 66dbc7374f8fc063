import ThetaDirectory.Access.Grants
import ThetaDirectory.Access.Projection
import ThetaDirectory.Groups.Provisioning

/-!
# The administrator's view of a user's access

The route `GET /user-access/:uid` of `routes/api_directory_admin.js` lists the resources
that are bound to a group the user is a direct member of.  What the user is shown goes by
transitive membership, down the catalogue, by agent and by host; the two agree when every
row the user reaches has such a binding of its own.
-/

namespace ThetaDirectory.Access

open Catalog Groups Library

/-! ## The route -/

/-- The names of the groups that list a person. -/
def directGroups (groups : List LdapGroup) (dn : String) : List String :=
  (groups.filter fun group => group.member.any fun member => lc member == lc dn).map (·.cn)

structure AccessEntry where
  id : String
  name : String
  slug : String
  kind : String
  groupCn : String
  accessLevel : String
  deriving DecidableEq, Repr

structure UserAccess where
  uid : String
  groups : List String
  resources : List AccessEntry
  deriving DecidableEq, Repr

/-- The answer of the route for a stored user. -/
def userAccess (groups : List LdapGroup) (uid dn : String) (links : List ResourceGroup)
    (resources : List Resource) : UserAccess :=
  let memberOf := directGroups groups dn
  { uid, groups := memberOf
    resources := (links.filter fun link => memberOf.contains link.groupCn).filterMap fun link =>
      (byId resources link.resourceId).map fun resource =>
        ⟨resource.id, resource.name, resource.slug, resource.kind, link.groupCn,
          link.accessLevel⟩ }

/-- What the user's own projection is asked with. -/
def ownQuery (base : GroupBase) (groups : List LdapGroup) (dn : String)
    (links : List ResourceGroup) (agents : List Agent) : AccessQuery :=
  let memberOf := transitiveGroups base groups dn
  let collected := grantsFor links memberOf
  { groupIds := [], grants := some collected.1, nonInheriting := some collected.2, memberOf, agents }

/-! ## What the two read -/

variable {base : GroupBase} {groups : List LdapGroup} {dn : String} {cache : TemplateCache}
  {all : List Resource} {edges : List ResourceEdge} {links : List ResourceGroup}
  {agents : List Agent} {resource : Resource}

/-- A row binds the resource to one of the groups. -/
def Linked (links : List ResourceGroup) (groupCns : List String) (resource : Resource) : Prop :=
  ∃ link ∈ links, link.groupCn ∈ groupCns ∧ link.resourceId = resource.id

/-- A row of a group that goes down the catalogue binds something above the resource, at a
level that has a rank. -/
def LinkedAbove (links : List ResourceGroup) (groupCns : List String) (edges : List ResourceEdge)
    (resource : Resource) : Prop :=
  ∃ link ∈ links, link.groupCn ∈ groupCns ∧ isMetaGroup (some link.groupCn) = false ∧
    IsAncestor edges link.resourceId resource.id ∧ 0 < rankOf (some (grantLevel link))

def isPublic (resource : Resource) : Bool := (resource.metadata.field "isPublic").isTruthy

theorem mem_inherited_ownQuery :
    resource.id ∈ inherited edges (ownQuery base groups dn links agents) ↔
      Linked links (transitiveGroups base groups dn) resource ∨
        LinkedAbove links (transitiveGroups base groups dn) edges resource := by
  simp only [inherited, ownQuery, AccessQuery.direct, Option.getD_some, mem_effectiveGrants,
    mem_grantsFor, mem_grantsFor_nonInheriting, Linked, LinkedAbove]
  have ranked : ∀ above, 0 < rankAt (grantsFor links (transitiveGroups base groups dn)).1 above ↔
      ∃ link ∈ links, link.groupCn ∈ transitiveGroups base groups dn ∧
        isMetaGroup (some link.groupCn) = false ∧ link.resourceId = above ∧
          0 < rankOf (some (grantLevel link)) := fun above => le_rankAt_grantsFor Nat.one_pos
  simp only [ranked]
  constructor
  · rintro (⟨link, member, held, -, same⟩ | ⟨link, member, held, -, same⟩ |
      ⟨above, path, link, member, held, notMeta, rfl, rank⟩)
    · exact Or.inl ⟨link, member, held, same⟩
    · exact Or.inl ⟨link, member, held, same⟩
    · exact Or.inr ⟨link, member, held, notMeta, path, rank⟩
  · rintro (⟨link, member, held, same⟩ | ⟨link, member, held, notMeta, path, rank⟩)
    · cases isMeta : isMetaGroup (some link.groupCn) with
      | false => exact Or.inl ⟨link, member, held, isMeta, same⟩
      | true => exact Or.inr (Or.inl ⟨link, member, held, isMeta, same⟩)
    · exact Or.inr (Or.inr ⟨link.resourceId, path, link, member, held, notMeta, rfl, rank⟩)

/-- A direct member is a transitive one. -/
theorem directGroups_subset (named : dn ≠ "")
    (oneEach : ∀ left ∈ groups, ∀ right ∈ groups, lc left.dn = lc right.dn → left.cn = right.cn)
    (notGroup : ∀ group ∈ groups, lc group.dn ≠ lc dn) :
    directGroups groups dn ⊆ transitiveGroups base groups dn := by
  intro cn member
  obtain ⟨group, inGroups, rfl⟩ := List.mem_map.mp member
  obtain ⟨inTree, lists⟩ := List.mem_filter.mp inGroups
  obtain ⟨value, inMember, same⟩ := List.any_eq_true.mp lists
  have filled : value ≠ "" := by
    intro blank
    rw [beq_iff_eq, blank] at same
    exact named (toLowerCase_eq_empty.mp same.symm)
  refine cn_mem_closureUp_of_walk oneEach inTree (notGroup group inTree) base.depth_pos
    (.single ⟨group, List.mem_filter.mpr ⟨inTree, ?_⟩, rfl⟩)
  exact List.any_eq_true.mpr ⟨value, inMember, by simpa [filled] using same⟩

theorem mem_userAccess {uid id : String} :
    id ∈ (userAccess groups uid dn links all).resources.map (·.id) ↔
      ∃ resource ∈ all, resource.id = id ∧ Linked links (directGroups groups dn) resource := by
  simp only [userAccess, List.mem_map, List.mem_filterMap, List.mem_filter, List.contains_iff_mem,
    Option.map_eq_some_iff]
  constructor
  · rintro ⟨entry, ⟨link, ⟨member, held⟩, resource, found, rfl⟩, rfl⟩
    have stored := List.mem_of_find?_eq_some found
    have same := List.find?_some found
    exact ⟨resource, List.mem_reverse.mp stored, rfl, link, member, held,
      (beq_iff_eq.mp same).symm⟩
  · rintro ⟨resource, stored, rfl, link, member, held, same⟩
    have isFound : (byId all link.resourceId).isSome = true := by
      rw [byId, List.find?_isSome]
      exact ⟨resource, List.mem_reverse.mpr stored, by simp [same]⟩
    obtain ⟨found, foundEq⟩ := Option.isSome_iff_exists.mp isFound
    have sameId : found.id = link.resourceId := by simpa using List.find?_some foundEq
    exact ⟨_, ⟨link, ⟨member, held⟩, found, foundEq, rfl⟩, sameId.trans same⟩

/-- The second pass adds nothing where what follows a held row is held. -/
theorem foldl_followHost_subset {rows : List Resource} {held reachable : List String}
    (closed : ∀ row ∈ rows, ∀ hostId ∈ held, Follows cache edges row hostId → row.id ∈ held)
    (subset : reachable ⊆ held) : rows.foldl (followHost cache edges) reachable ⊆ held := by
  induction rows generalizing reachable with
  | nil => exact subset
  | cons head rows ih =>
      refine ih (fun row member => closed row (List.mem_cons_of_mem _ member)) ?_
      intro id member
      rcases (followHost_iff reachable head id).mp member with old | ⟨rfl, hostId, inReach, follows⟩
      · exact subset old
      · exact closed head List.mem_cons_self hostId (subset inReach) follows

/-! ## When they agree -/

/-- The route lists the rows that are not public among those the user is shown. -/
def AuditAgrees (base : GroupBase) (groups : List LdapGroup) (uid dn : String)
    (links : List ResourceGroup) (cache : TemplateCache) (all : List Resource)
    (edges : List ResourceEdge) (agents : List Agent) : Prop :=
  ∃ shown, accessibleResources cache all edges (ownQuery base groups dn links agents) =
    .ok shown ∧ ∀ id, id ∈ (userAccess groups uid dn links all).resources.map (·.id) ↔
      ∃ resource ∈ shown, resource.id = id ∧ isPublic resource = false

/-- Every row the user's direct groups are bound to is catalogue content and not public,
and every other catalogue row the user reaches, by a transitive group on it or above it, as
a host with an agent or through such a host, is public. -/
structure BoundDirectly (base : GroupBase) (groups : List LdapGroup) (dn : String)
    (links : List ResourceGroup) (cache : TemplateCache) (all : List Resource)
    (edges : List ResourceEdge) (agents : List Agent) : Prop where
  listed : ∀ resource ∈ all, Linked links (directGroups groups dn) resource →
    inCatalog resource = true ∧ isPublic resource = false
  reached : ∀ resource ∈ all, inCatalog resource = true → isPublic resource = false →
    (Linked links (transitiveGroups base groups dn) resource ∨
      LinkedAbove links (transitiveGroups base groups dn) edges resource ∨
      AgentHost cache all edges (ownQuery base groups dn links agents) resource) →
        Linked links (directGroups groups dn) resource
  followed : ∀ resource ∈ all, ∀ host ∈ all,
    Admitted cache all edges (ownQuery base groups dn links agents) host →
      Follows cache edges resource host.id →
        isPublic resource = true ∨ Linked links (directGroups groups dn) resource

theorem admitted_ownQuery_iff :
    Admitted cache all edges (ownQuery base groups dn links agents) resource ↔
      inCatalog resource = true ∧ (isPublic resource = true ∨
        Linked links (transitiveGroups base groups dn) resource ∨
          LinkedAbove links (transitiveGroups base groups dn) edges resource ∨
            AgentHost cache all edges (ownQuery base groups dn links agents) resource) := by
  rw [Admitted, mem_inherited_ownQuery, or_assoc]
  rfl

theorem auditAgrees_iff (base : GroupBase) (groups : List LdapGroup) (uid dn : String)
    (links : List ResourceGroup) (cache : TemplateCache) (all : List Resource)
    (edges : List ResourceEdge) (agents : List Agent) (named : dn ≠ "")
    (oneEach : ∀ left ∈ groups, ∀ right ∈ groups, lc left.dn = lc right.dn → left.cn = right.cn)
    (notGroup : ∀ group ∈ groups, lc group.dn ≠ lc dn) (distinct : (all.map (·.id)).Nodup) :
    AuditAgrees base groups uid dn links cache all edges agents ↔
      BoundDirectly base groups dn links cache all edges agents := by
  obtain ⟨reachable, ran, held⟩ := accessibleResources_passes cache all edges
    (ownQuery base groups dn links agents)
  have direct := @directGroups_subset base groups dn named oneEach notGroup
  have only : ∀ resource ∈ all, ∀ row ∈ all, row.id = resource.id → row = resource :=
    fun resource stored row rowStored same =>
      List.inj_on_of_nodup_map distinct rowStored stored same
  have admittedLinked : ∀ {resource}, inCatalog resource = true →
      isPublic resource = true ∨ Linked links (directGroups groups dn) resource →
        Admitted cache all edges (ownQuery base groups dn links agents) resource := by
    intro resource catalogued given
    refine admitted_ownQuery_iff.mpr ⟨catalogued, given.imp_right fun linked => Or.inl ?_⟩
    obtain ⟨link, member, inGroups, same⟩ := linked
    exact ⟨link, member, direct inGroups, same⟩
  have agrees : AuditAgrees base groups uid dn links cache all edges agents ↔
      ∀ resource ∈ all, Linked links (directGroups groups dn) resource ↔
        resource.id ∈ all.foldl (followHost cache edges) reachable ∧
          isPublic resource = false := by
    unfold AuditAgrees
    simp only [ran, Except.ok.injEq, exists_eq_left', mem_userAccess, List.mem_filter,
      List.contains_iff_mem]
    constructor
    · intro every resource stored
      constructor
      · intro linked
        obtain ⟨row, ⟨rowStored, shown⟩, same, notPublic⟩ :=
          (every resource.id).mp ⟨resource, stored, rfl, linked⟩
        obtain rfl := only resource stored row rowStored same
        exact ⟨shown, notPublic⟩
      · rintro ⟨shown, notPublic⟩
        obtain ⟨row, rowStored, same, linked⟩ :=
          (every resource.id).mpr ⟨resource, ⟨stored, shown⟩, rfl, notPublic⟩
        obtain rfl := only resource stored row rowStored same
        exact linked
    · intro every id
      constructor
      · rintro ⟨resource, stored, rfl, linked⟩
        obtain ⟨shown, notPublic⟩ := (every resource stored).mp linked
        exact ⟨resource, ⟨stored, shown⟩, rfl, notPublic⟩
      · rintro ⟨resource, ⟨stored, shown⟩, rfl, notPublic⟩
        exact ⟨resource, stored, rfl, (every resource stored).mpr ⟨shown, notPublic⟩⟩
  rw [agrees]
  constructor
  · intro every
    refine ⟨?_, ?_, ?_⟩
    · intro resource stored linked
      obtain ⟨shown, notPublic⟩ := (every resource stored).mp linked
      refine ⟨?_, notPublic⟩
      obtain ⟨row, rowStored, same, reached⟩ := reached_of_mem_foldl_followHost
        (fun row stored => stored) (fun id inReach => by
          obtain ⟨row, stored, rfl, admitted⟩ := (held id).mp inReach
          exact ⟨row, stored, rfl, .admitted stored admitted⟩) shown
      obtain rfl := only resource stored row rowStored same
      cases reached with
      | admitted _ admitted => exact admitted.1
      | follows _ _ follows => exact follows.1
    · intro resource stored catalogued notPublic given
      refine (every resource stored).mpr ⟨?_, notPublic⟩
      exact subset_foldl_followHost all reachable ((held resource.id).mpr
        ⟨resource, stored, rfl, admitted_ownQuery_iff.mpr ⟨catalogued, Or.inr given⟩⟩)
    · intro resource stored host hostStored admitted follows
      cases notPublic : isPublic resource with
      | true => exact Or.inl rfl
      | false =>
          refine Or.inr ((every resource stored).mpr ⟨?_, notPublic⟩)
          exact mem_foldl_followHost_of_follows stored
            ((held host.id).mpr ⟨host, hostStored, rfl, admitted⟩) follows
  · intro bound resource stored
    have nothingMore : all.foldl (followHost cache edges) reachable ⊆ reachable := by
      refine foldl_followHost_subset ?_ (List.Subset.refl _)
      intro row rowStored hostId inReach follows
      obtain ⟨host, hostStored, rfl, admitted⟩ := (held hostId).mp inReach
      exact (held row.id).mpr ⟨row, rowStored, rfl,
        admittedLinked follows.1 (bound.followed row rowStored host hostStored admitted follows)⟩
    constructor
    · intro linked
      obtain ⟨catalogued, notPublic⟩ := bound.listed resource stored linked
      exact ⟨subset_foldl_followHost all reachable ((held resource.id).mpr
        ⟨resource, stored, rfl, admittedLinked catalogued (Or.inr linked)⟩), notPublic⟩
    · rintro ⟨shown, notPublic⟩
      obtain ⟨row, rowStored, same, admitted⟩ := (held resource.id).mp (nothingMore shown)
      obtain rfl := only resource stored row rowStored same.symm
      obtain ⟨catalogued, given⟩ := admitted_ownQuery_iff.mp admitted
      rw [notPublic] at given
      exact bound.reached row stored catalogued notPublic
        (given.resolve_left Bool.false_ne_true)

/-! ### A host bound to a group that holds a team -/

private def auditBase : GroupBase where
  groupBase := "ou=groups"
  escapeDN := id
  maxNestingDepth := 10
  escapeDN_inj := fun same => same
  depth_pos := default_depth_pos

private def staffTree : List LdapGroup :=
  [⟨"cn=staff,ou=groups", "staff", ["cn=team,ou=groups"]⟩,
    ⟨"cn=team,ou=groups", "team", ["uid=eve"]⟩]

private def webRows : List Resource :=
  [⟨"s", "site", "a", "site_a", none, none, ∅⟩, ⟨"w", "host", "web", "host_web", none, none, ∅⟩]

private def webEdges : List ResourceEdge := [⟨some "s", some "w", "hosts", none⟩]

/-- A member of the team sees the same in both where the team itself is bound. -/
theorem auditAgrees_team : AuditAgrees auditBase staffTree "eve" "uid=eve"
    [⟨"w", "team", "access"⟩] none webRows webEdges [] := by
  refine (auditAgrees_iff auditBase staffTree "eve" "uid=eve" [⟨"w", "team", "access"⟩] none
    webRows webEdges [] (by decide) (by decide +kernel) (by decide +kernel)
    (by decide +kernel)).mpr ⟨?_, ?_, ?_⟩
  · unfold Linked
    decide +kernel
  · intro resource stored _ _ given
    rcases given with ⟨link, member, -, same⟩ | ⟨link, member, -, -, path, -⟩ |
      ⟨-, -, ⟨_, _, _, _, _, agent, none, -⟩, -⟩
    · rw [List.mem_singleton.mp member] at same
      exact ⟨_, List.mem_cons_self, by decide +kernel, same⟩
    · rw [List.mem_singleton.mp member] at path
      obtain ⟨next, below, -⟩ := Relation.TransGen.head'_iff.mp path
      exact absurd below (show next ∉ childrenOf webEdges "w" by
        rw [show childrenOf webEdges "w" = [] by decide]
        exact List.not_mem_nil)
    · exact absurd none List.not_mem_nil
  · intro resource stored host _ _ follows
    have never : ∀ resource ∈ webRows, (templateFor none resource).inheritsHost = false := by
      decide +kernel
    exact absurd follows.2.1 (by rw [never resource stored]; decide)

/-- Bound to the group that holds the team, the host is shown to the member and not listed
to the administrator. -/
theorem not_auditAgrees : ¬ ∀ (base : GroupBase) (groups : List LdapGroup) (uid dn : String)
    (links : List ResourceGroup) (cache : TemplateCache) (all : List Resource)
    (edges : List ResourceEdge) (agents : List Agent), dn ≠ "" →
      (∀ left ∈ groups, ∀ right ∈ groups, lc left.dn = lc right.dn → left.cn = right.cn) →
      (∀ group ∈ groups, lc group.dn ≠ lc dn) → (all.map (·.id)).Nodup →
        AuditAgrees base groups uid dn links cache all edges agents := by
  intro always
  obtain ⟨shown, ran, every⟩ := always auditBase staffTree "eve" "uid=eve"
    [⟨"w", "staff", "access"⟩] none webRows webEdges [] (by decide) (by decide +kernel)
    (by decide +kernel) (by decide +kernel)
  have rows : ((accessibleResources none webRows webEdges (ownQuery auditBase staffTree "uid=eve"
      [⟨"w", "staff", "access"⟩] [])).toOption.map fun rows =>
        rows.map fun row => (row.id, isPublic row)) = some [("w", false)] := by
    decide +kernel
  rw [ran] at rows
  have shownRows : (shown.map fun row => (row.id, isPublic row)) = [("w", false)] :=
    Option.some.inj rows
  have member : ("w", false) ∈ shown.map fun row => (row.id, isPublic row) := by
    rw [shownRows]
    exact List.mem_singleton_self _
  obtain ⟨row, inShown, same⟩ := List.mem_map.mp member
  have listed := (every "w").mpr ⟨row, inShown, (Prod.mk.inj same).1, (Prod.mk.inj same).2⟩
  revert listed
  decide +kernel

end ThetaDirectory.Access
