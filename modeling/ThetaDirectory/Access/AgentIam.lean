import ThetaDirectory.Access.Grants
import ThetaDirectory.Discovery.Adoption
import ThetaDirectory.Groups.Naming

/-!
# Who may log in to a host

`buildNodeIAM` of `utils/agent_iam.js` sends an agent the groups whose members may log in
to its host.  It reads the rows of each group on its own and keeps one level for each
resource, the last, where the permission model keeps the strongest and reads a missing
level as `access`.
-/

namespace ThetaDirectory.Access

open Catalog Groups Library

/-! ## The payload -/

/-- The minimum rank that means a login. -/
def loginRank : Nat := rankOf (some "access")

structure AccessControl where
  allowedLoginGroups : List String
  sudoRules : List String
  sshKeys : List String
  revokeUsers : List String

structure NodeIAM where
  nodeId : String
  revision : Int
  accessControl : AccessControl

/-- The groups that reach the host by their name. -/
def structuralGroups (siteSlug nameSlug : String) : Except String (List String) := do
  return [godAdmin, siteSuperAdminCns siteSlug,
    ← aggregateGroupCns siteSlug "host" "admin", ← aggregateGroupCns siteSlug "host" "access",
    ← resourceGroupCns siteSlug "host" nameSlug "admin",
    ← resourceGroupCns siteSlug "host" nameSlug "access"]

/-- The levels by group and resource; of several rows the last. -/
def levelsByGroup (rows : List ResourceGroup) : JsMap Grants :=
  rows.foldl (fun byGroup row =>
    if row.groupCn = "" ∨ row.resourceId = "" then byGroup
    else byGroup.insert row.groupCn
      (((byGroup.lookup row.groupCn).getD ∅).insert row.resourceId (some row.accessLevel))) ∅

/-- A group whose rows alone give a login on the host. -/
def givesLogin (edges : List ResourceEdge) (hostId : String) (groupCn : String)
    (direct : Grants) : Bool :=
  !isMetaGroup (some groupCn) &&
    match truthy (levelAt (effectiveGrants direct edges ∅) hostId) with
    | some level => loginRank ≤ rankOf (some level)
    | none => false

/-- The groups whose members may log in: the structural ones and those with rows. -/
def allowedLoginGroups (store : Discovery.Store) (host : Resource) (cns : List String) :
    List String :=
  let granted := (levelsByGroup store.groups).entries.filterMap fun entry =>
    if givesLogin (edgesOf store) host.id entry.1 entry.2 then some entry.1 else none
  sortTexts ((cns ++ granted).eraseDups.filter (· ≠ ""))

/-- The payload for a host; none for another resource or one at no site. -/
def buildNodeIAM (now : Int) (store : Discovery.Store) (host : Resource) :
    Except String (Option NodeIAM) :=
  if host.kind ≠ "host" then .ok none
  else
    match truthy (Discovery.siteSlugOf store host.id) with
    | none => .ok none
    | some siteSlug => do
        let nameSlug := resourceNameSlug ((truthy (some host.slug)).or (some host.name))
        let cns ← structuralGroups siteSlug nameSlug
        return some {
          nodeId := (truthy (some host.slug)).getD host.id
          revision := now / 1000
          accessControl := ⟨allowedLoginGroups store host cns, [], [], []⟩ }

/-! ## The levels of one group -/

/-- The row gives its group its level on the resource, as the last one to name both. -/
def IsLast (rows : List ResourceGroup) (row : ResourceGroup) : Prop :=
  row.groupCn ≠ "" ∧ row.resourceId ≠ "" ∧ ∃ before after, rows = before ++ row :: after ∧
    ∀ later ∈ after, ¬ (later.groupCn = row.groupCn ∧ later.resourceId = row.resourceId)

/-- One more row at the end takes its own place and leaves the others. -/
theorem isLast_append_singleton {rows : List ResourceGroup} {last row : ResourceGroup} :
    IsLast (rows ++ [last]) row ↔
      (row = last ∧ row.groupCn ≠ "" ∧ row.resourceId ≠ "") ∨
        (IsLast rows row ∧ ¬ (last.groupCn = row.groupCn ∧ last.resourceId = row.resourceId)) := by
  constructor
  · rintro ⟨named, placed, before, after, split, noLater⟩
    rcases List.eq_nil_or_concat after with rfl | ⟨rest, final, rfl⟩
    · obtain ⟨-, same⟩ := List.append_inj' split rfl
      cases same
      exact Or.inl ⟨rfl, named, placed⟩
    · rw [List.concat_eq_append, ← List.cons_append, ← List.append_assoc] at split
      obtain ⟨rfl, same⟩ := List.append_inj' split rfl
      cases same
      refine Or.inr ⟨⟨named, placed, before, rest, rfl, fun later member => ?_⟩, ?_⟩
      · exact noLater later (by simp [member])
      · exact noLater last (by simp)
  · rintro (⟨rfl, named, placed⟩ | ⟨⟨named, placed, before, after, rfl, noLater⟩, notLast⟩)
    · exact ⟨named, placed, rows, [], rfl, by simp⟩
    · refine ⟨named, placed, before, after ++ [last], by simp, fun later member => ?_⟩
      rcases List.mem_append.mp member with old | new
      · exact noLater later old
      · rw [List.mem_singleton.mp new]
        exact notLast

/-- The rank a group has on a resource is that of its last row. -/
theorem le_rankAt_levelsByGroup {rows : List ResourceGroup} {groupCn id : String} {rank : Nat}
    (positive : 0 < rank) : rank ≤ rankAt (((levelsByGroup rows).lookup groupCn).getD ∅) id ↔
      ∃ row, IsLast rows row ∧ row.groupCn = groupCn ∧ row.resourceId = id ∧
        rank ≤ rankOf (some row.accessLevel) := by
  induction rows using List.reverseRecOn with
  | nil =>
      have none : ∀ row, ¬ IsLast [] row := by
        rintro row ⟨-, -, before, after, split, -⟩
        simp at split
      simp only [levelsByGroup, List.foldl_nil, AList.lookup_empty, Option.getD_none, rankAt_empty,
        none, false_and, exists_false, iff_false]
      omega
  | append_singleton rows last ih =>
      rw [levelsByGroup, List.foldl_append, List.foldl_cons, List.foldl_nil, ← levelsByGroup]
      simp only [isLast_append_singleton]
      by_cases blank : last.groupCn = "" ∨ last.resourceId = ""
      · rw [if_pos blank, ih]
        constructor
        · rintro ⟨row, isLast, rfl, rfl, enough⟩
          refine ⟨row, Or.inr ⟨isLast, fun same => ?_⟩, rfl, rfl, enough⟩
          rcases blank with noGroup | noResource
          · exact isLast.1 (same.1 ▸ noGroup)
          · exact isLast.2.1 (same.2 ▸ noResource)
        · rintro ⟨row, ⟨rfl, named, placed⟩ | ⟨isLast, -⟩, sameGroup, sameId, enough⟩
          · exact absurd blank (not_or.mpr ⟨named, placed⟩)
          · exact ⟨row, isLast, sameGroup, sameId, enough⟩
      · rw [if_neg blank]
        obtain ⟨named, placed⟩ := not_or.mp blank
        rw [JsMap.lookup_insert]
        by_cases sameGroup : groupCn = last.groupCn
        · subst sameGroup
          rw [if_pos rfl, Option.getD_some, rankAt_insert]
          by_cases sameId : id = last.resourceId
          · subst sameId
            rw [if_pos rfl]
            constructor
            · exact fun enough => ⟨last, Or.inl ⟨rfl, named, placed⟩, rfl, rfl, enough⟩
            · rintro ⟨row, ⟨rfl, -⟩ | ⟨-, other⟩, groupEq, idEq, enough⟩
              · exact enough
              · exact absurd ⟨groupEq.symm, idEq.symm⟩ other
          · rw [if_neg sameId, ih]
            constructor
            · rintro ⟨row, isLast, groupEq, idEq, enough⟩
              exact ⟨row, Or.inr ⟨isLast, fun same => sameId (idEq.symm.trans same.2.symm)⟩,
                groupEq, idEq, enough⟩
            · rintro ⟨row, ⟨rfl, -⟩ | ⟨isLast, -⟩, groupEq, idEq, enough⟩
              · exact absurd idEq.symm sameId
              · exact ⟨row, isLast, groupEq, idEq, enough⟩
        · rw [if_neg sameGroup, ih]
          constructor
          · rintro ⟨row, isLast, groupEq, idEq, enough⟩
            exact ⟨row, Or.inr ⟨isLast, fun same => sameGroup (groupEq.symm.trans same.1.symm)⟩,
              groupEq, idEq, enough⟩
          · rintro ⟨row, ⟨rfl, -⟩ | ⟨isLast, -⟩, groupEq, idEq, enough⟩
            · exact absurd groupEq.symm sameGroup
            · exact ⟨row, isLast, groupEq, idEq, enough⟩

theorem givesLogin_iff {edges : List ResourceEdge} {hostId groupCn : String} {direct : Grants} :
    givesLogin edges hostId groupCn direct = true ↔ isMetaGroup (some groupCn) = false ∧
      loginRank ≤ rankAt (effectiveGrants direct edges ∅) hostId := by
  unfold givesLogin rankAt
  rw [Bool.and_eq_true, Bool.not_eq_true']
  refine and_congr_right fun _ => ?_
  cases levelAt (effectiveGrants direct edges ∅) hostId with
  | none => decide
  | some level =>
      by_cases blank : level = ""
      · subst blank
        decide
      · have filled : truthy (some level) = some level := by simp [truthy, blank]
        rw [filled]
        exact decide_eq_true_iff

/-! ## Who is let in -/

variable {store : Discovery.Store} {host : Resource} {site : String} {groupCns : List String}

/-- A row of one of the groups, at or above the host, that gives a login when a missing
level is read as `access`. -/
def GivenByRow (store : Discovery.Store) (host : Resource) (groupCns : List String) : Prop :=
  ∃ row ∈ store.groups, row.groupCn ∈ groupCns ∧ isMetaGroup (some row.groupCn) = false ∧
    Relation.ReflTransGen (IsChild (edgesOf store)) row.resourceId host.id ∧
      loginRank ≤ rankOf (some (grantLevel row))

/-- One whose own level gives a login, and that is the last of its group for its
resource. -/
def GivenByLastRow (store : Discovery.Store) (host : Resource) (groupCns : List String) : Prop :=
  ∃ row, IsLast store.groups row ∧ row.groupCn ∈ groupCns ∧
    isMetaGroup (some row.groupCn) = false ∧
      Relation.ReflTransGen (IsChild (edgesOf store)) row.resourceId host.id ∧
        loginRank ≤ rankOf (some row.accessLevel)

theorem givenByRow_of_last (given : GivenByLastRow store host groupCns) :
    GivenByRow store host groupCns := by
  obtain ⟨row, ⟨-, -, before, after, split, -⟩, held, notMeta, path, enough⟩ := given
  refine ⟨row, by simp [split], held, notMeta, path, ?_⟩
  have filled : row.accessLevel ≠ "" := by
    intro blank
    rw [blank] at enough
    exact absurd enough (by decide)
  rwa [grantLevel, if_neg filled]

/-- The level the projection's own collection comes to. -/
theorem givenByRow_iff : GivenByRow store host groupCns ↔ loginRank ≤
    rankAt (effectiveGrants (grantsFor store.groups groupCns).1 (edgesOf store) ∅) host.id := by
  have positive : 0 < loginRank := by decide
  rw [le_rankAt_effectiveGrants, rankAt_empty]
  simp only [Nat.le_zero, positive.ne', or_false, le_rankAt_grantsFor positive]
  constructor
  · rintro ⟨row, member, held, notMeta, path, enough⟩
    exact ⟨row.resourceId, path, row, member, held, notMeta, rfl, enough⟩
  · rintro ⟨above, path, row, member, held, notMeta, rfl, enough⟩
    exact ⟨row, member, held, notMeta, path, enough⟩

/-- The groups the payload lists for their rows. -/
theorem givesLogin_levelsByGroup {rows : List ResourceGroup} {edges : List ResourceEdge}
    {hostId groupCn : String} :
    (∃ direct, (levelsByGroup rows).lookup groupCn = some direct ∧
        givesLogin edges hostId groupCn direct = true) ↔
      isMetaGroup (some groupCn) = false ∧ ∃ row, IsLast rows row ∧ row.groupCn = groupCn ∧
        Relation.ReflTransGen (IsChild edges) row.resourceId hostId ∧
          loginRank ≤ rankOf (some row.accessLevel) := by
  have positive : 0 < loginRank := by decide
  have byDefault : (∃ direct, (levelsByGroup rows).lookup groupCn = some direct ∧
        givesLogin edges hostId groupCn direct = true) ↔
      givesLogin edges hostId groupCn (((levelsByGroup rows).lookup groupCn).getD ∅) = true := by
    cases (levelsByGroup rows).lookup groupCn with
    | some direct => simp
    | none =>
        have nothing : givesLogin edges hostId groupCn ∅ ≠ true := by
          rw [Ne, givesLogin_iff, le_rankAt_effectiveGrants]
          simp [rankAt_empty, positive.ne']
        simp [nothing]
  rw [byDefault, givesLogin_iff, le_rankAt_effectiveGrants, rankAt_empty]
  simp only [Nat.le_zero, positive.ne', or_false, le_rankAt_levelsByGroup positive]
  refine and_congr_right fun _ => ⟨?_, ?_⟩
  · rintro ⟨above, path, row, isLast, groupEq, rfl, enough⟩
    exact ⟨row, isLast, groupEq, path, enough⟩
  · rintro ⟨row, isLast, groupEq, path, enough⟩
    exact ⟨row.resourceId, path, row, isLast, groupEq, rfl, enough⟩

/-- The host as its login groups are named. -/
def loginRef (site : String) (host : Resource) : ResourceRef :=
  ⟨some site, "host", (truthy (some host.slug)).or (some host.name)⟩

/-- The structural groups are those the permission check looks for. -/
theorem structuralGroups_spec (site nameSlug : String) :
    ∃ cns, structuralGroups site nameSlug = .ok cns ∧ ∀ cn, cn ∈ cns ↔ cn = godAdmin ∨
      ∃ name ∈ grantingNames site .host (slugify nameSlug) "access", name.cn = cn := by
  have aggregates := fun level => aggregateGroupCns_eq site level .host
  have resources := fun level => resourceGroupCns_eq site nameSlug level .host
  simp only [Kind.text] at aggregates resources
  refine ⟨[godAdmin, (GroupName.superAdmin site).cn,
    (GroupName.aggregate site .host "admin").cn, (GroupName.aggregate site .host "access").cn,
    (GroupName.specific site .host (slugify nameSlug) "admin").cn,
    (GroupName.specific site .host (slugify nameSlug) "access").cn], ?_, fun cn => ?_⟩
  · simp only [structuralGroups, siteSuperAdminCns_eq, aggregates, resources, bind, Except.bind,
      pure, Except.pure]
  · simp only [grantingNames, List.mem_cons, List.not_mem_nil, or_false, exists_eq_or_imp,
      exists_eq_left, if_true]
    grind

theorem mem_allowedLoginGroups {cns : List String} {cn : String} :
    cn ∈ allowedLoginGroups store host cns ↔ cn ≠ "" ∧ (cn ∈ cns ∨
      isMetaGroup (some cn) = false ∧ ∃ row, IsLast store.groups row ∧ row.groupCn = cn ∧
        Relation.ReflTransGen (IsChild (edgesOf store)) row.resourceId host.id ∧
          loginRank ≤ rankOf (some row.accessLevel)) := by
  rw [← givesLogin_levelsByGroup]
  simp only [allowedLoginGroups, sortTexts, List.mem_mergeSort, List.mem_filter,
    List.mem_eraseDups, List.mem_append, decide_eq_true_eq, List.mem_filterMap,
    Option.ite_none_right_eq_some, Option.some.injEq]
  rw [and_comm]
  refine and_congr_right fun _ => or_congr_right ⟨?_, ?_⟩
  · rintro ⟨⟨key, direct⟩, member, gives, rfl⟩
    exact ⟨direct, AList.mem_lookup_iff.mpr member, gives⟩
  · rintro ⟨direct, found, gives⟩
    exact ⟨⟨cn, direct⟩, AList.mem_lookup_iff.mp found, gives, rfl⟩

/-- The payload of a host at a site, and whom it lets in. -/
theorem buildNodeIAM_spec (now : Int) (isHost : host.kind = "host")
    (atSite : truthy (Discovery.siteSlugOf store host.id) = some site) :
    ∃ payload, buildNodeIAM now store host = .ok (some payload) ∧ ∀ groupCns : List String,
      (∃ cn ∈ groupCns, cn ∈ payload.accessControl.allowedLoginGroups) ↔
        hasPermission groupCns (loginRef site host) "access" = .ok true ∨
          GivenByLastRow store host groupCns := by
  obtain ⟨cns, structural, memCns⟩ := structuralGroups_spec site
    (resourceNameSlug ((truthy (some host.slug)).or (some host.name)))
  refine ⟨⟨(truthy (some host.slug)).getD host.id, now / 1000,
    ⟨allowedLoginGroups store host cns, [], [], []⟩⟩, ?_, fun groupCns => ?_⟩
  · simp only [buildNodeIAM, isHost, ne_eq, not_true_eq_false, if_false, atSite, structural, bind,
      Except.bind, pure, Except.pure]
  · have known : (loginRef site host).HasKind .host := rfl
    have filled : ∀ cn ∈ cns, cn ≠ "" := by
      rintro cn member rfl
      rcases (memCns "").mp member with god | ⟨name, -, nameEq⟩
      · exact absurd god (by decide)
      · have text := congrArg String.toList nameEq
        cases name <;> simp [GroupName.cn] at text
    have structuralIff : (∃ cn ∈ groupCns, cn ∈ cns) ↔
        hasPermission groupCns (loginRef site host) "access" = .ok true := by
      rw [hasPermission_iff known]
      simp only [memCns]
      constructor
      · rintro ⟨cn, held, rfl | ⟨name, grants, rfl⟩⟩
        · exact Or.inl held
        · exact Or.inr ⟨name, grants, held⟩
      · rintro (god | ⟨name, grants, held⟩)
        · exact ⟨godAdmin, god, Or.inl rfl⟩
        · exact ⟨name.cn, held, Or.inr ⟨name, grants, rfl⟩⟩
    rw [← structuralIff]
    simp only [mem_allowedLoginGroups]
    constructor
    · rintro ⟨cn, held, -, isStructural | ⟨notMeta, row, isLast, rfl, path, enough⟩⟩
      · exact Or.inl ⟨cn, held, isStructural⟩
      · exact Or.inr ⟨row, isLast, held, notMeta, path, enough⟩
    · rintro (⟨cn, held, isStructural⟩ | ⟨row, isLast, held, notMeta, path, enough⟩)
      · exact ⟨cn, held, filled cn isStructural, Or.inl isStructural⟩
      · exact ⟨row.groupCn, held, isLast.1,
          Or.inr ⟨notMeta, row, isLast, rfl, path, enough⟩⟩

/-- The login list agrees with the permission model about a user. -/
def AgreesFor (store : Discovery.Store) (host : Resource) (site : String)
    (groupCns allowed : List String) : Prop :=
  (∃ cn ∈ groupCns, cn ∈ allowed) ↔
    hasPermission groupCns ⟨some site, "host", some host.slug⟩ "access" = .ok true ∨
      loginRank ≤ rankAt (effectiveGrants (grantsFor store.groups groupCns).1 (edgesOf store) ∅)
        host.id

/-- When some row gives the user a login, they agree exactly when the structural groups or
a last row do; otherwise when the host has the same structural groups under its slug. -/
theorem agreesFor_iff (now : Int) (store : Discovery.Store) (host : Resource) (site : String)
    (isHost : host.kind = "host")
    (atSite : truthy (Discovery.siteSlugOf store host.id) = some site) :
    ∃ payload, buildNodeIAM now store host = .ok (some payload) ∧ ∀ groupCns : List String,
      AgreesFor store host site groupCns payload.accessControl.allowedLoginGroups ↔
        (GivenByRow store host groupCns →
          hasPermission groupCns (loginRef site host) "access" = .ok true ∨
            GivenByLastRow store host groupCns) ∧
        (¬ GivenByRow store host groupCns →
          (hasPermission groupCns (loginRef site host) "access" = .ok true ↔
            hasPermission groupCns ⟨some site, "host", some host.slug⟩ "access" = .ok true)) := by
  obtain ⟨payload, built, allowed⟩ := @buildNodeIAM_spec store host site now isHost atSite
  refine ⟨payload, built, fun groupCns => ?_⟩
  rw [AgreesFor, allowed, ← givenByRow_iff]
  have fromLast := @givenByRow_of_last store host groupCns
  by_cases given : GivenByRow store host groupCns
  · simp only [given, or_true, iff_true, true_imp_iff, not_true_eq_false, false_imp_iff, and_true]
  · have noLast : ¬ GivenByLastRow store host groupCns := mt fromLast given
    simp only [given, noLast, or_false, false_imp_iff, true_and, not_false_eq_true, true_imp_iff]

/-! ### A team bound to the site of a host -/

private def webHost : Resource := ⟨"w", "host", "web", "host_web", none, none, ∅⟩

private def teamStore (rows : List ResourceGroup) : Discovery.Store where
  resources := [⟨"s", "site", "a", "site_a", none, none, ∅⟩, webHost]
  edges := [⟨"e", "s", "w", "hosts", none⟩]
  groups := rows

private theorem webHost_atSite (rows : List ResourceGroup) :
    truthy (Discovery.siteSlugOf (teamStore rows) webHost.id) = some "site_a" := by
  have found : Discovery.siteSlugOf (teamStore rows) webHost.id = some "site_a" := rfl
  rw [found]
  decide

private theorem site_above_web (rows : List ResourceGroup) :
    Relation.ReflTransGen (IsChild (edgesOf (teamStore rows))) "s" webHost.id :=
  .single (isChild_iff.mpr (List.mem_filterMap.mpr ⟨_, List.mem_cons_self, rfl⟩))

/-- A team with one row on the site. -/
theorem agreesFor_team : ∃ payload,
    buildNodeIAM 1000 (teamStore [⟨"s", "team", "access"⟩]) webHost = .ok (some payload) ∧
      AgreesFor (teamStore [⟨"s", "team", "access"⟩]) webHost "site_a" ["team"]
        payload.accessControl.allowedLoginGroups := by
  obtain ⟨payload, built, agrees⟩ := agreesFor_iff 1000 (teamStore [⟨"s", "team", "access"⟩])
    webHost "site_a" rfl (webHost_atSite _)
  refine ⟨payload, built, (agrees ["team"]).mpr ⟨fun _ => Or.inr ?_, fun notGiven => ?_⟩⟩
  · exact ⟨⟨"s", "team", "access"⟩, ⟨by decide, by decide, [], [], rfl, by simp⟩, by decide,
      by decide, site_above_web _, by decide⟩
  · exact absurd ⟨⟨"s", "team", "access"⟩, by decide, by decide, by decide, site_above_web _,
      by decide⟩ notGiven

/-- A second row for the same team and site takes the login away that the first gives. -/
theorem not_agreesFor : ¬ ∀ (now : Int) (store : Discovery.Store) (host : Resource)
    (site : String) (groupCns : List String) (payload : NodeIAM), host.kind = "host" →
      truthy (Discovery.siteSlugOf store host.id) = some site →
      buildNodeIAM now store host = .ok (some payload) →
        AgreesFor store host site groupCns payload.accessControl.allowedLoginGroups := by
  intro always
  let rows : List ResourceGroup := [⟨"s", "team", "admin"⟩] ++ [⟨"s", "team", "viewer"⟩]
  obtain ⟨payload, built, allowed⟩ := @buildNodeIAM_spec (teamStore rows) webHost "site_a" 1000
    rfl (webHost_atSite rows)
  have agrees := always 1000 (teamStore rows) webHost "site_a" ["team"] payload rfl
    (webHost_atSite rows) built
  rw [AgreesFor, allowed, ← givenByRow_iff] at agrees
  have given : GivenByRow (teamStore rows) webHost ["team"] :=
    ⟨⟨"s", "team", "admin"⟩, by decide, by decide, by decide, site_above_web rows, by decide⟩
  have notNamed : hasPermission ["team"] (loginRef "site_a" webHost) "access" ≠ .ok true := by
    decide +kernel
  obtain ⟨row, isLast, -, -, -, enough⟩ := (agrees.mpr (Or.inr given)).resolve_left notNamed
  rcases isLast_append_singleton.mp isLast with ⟨rfl, -⟩ | ⟨⟨-, -, before, after, split, -⟩, other⟩
  · exact absurd enough (by decide)
  · have first : row = ⟨"s", "team", "admin"⟩ := by
      have member : row ∈ before ++ row :: after := by simp
      rw [← split] at member
      exact List.mem_singleton.mp member
    rw [first] at other
    exact other ⟨rfl, rfl⟩

end ThetaDirectory.Access
