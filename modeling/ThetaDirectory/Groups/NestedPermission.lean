import ThetaDirectory.Groups.Wiring

/-!
# Permissions through nesting

A person's permissions can be read from the groups that list the person or from
the transitive groups `closureUp` computes over the provisioned tree.  The two
agree except for the nesting of a resource's groups into the aggregates, which
carries the members of one resource to its siblings.
-/

namespace ThetaDirectory.Groups

open Library Library.Delimited

/-- Holding the node grants the level on the resource. -/
def Node.Grants (site : String) (kind : Kind) (slug : Slug) (wanted : Level) : Node → Prop
  | .god => True
  | .everyone _ => False
  | .superAdmin own => own = site
  | .aggregate own kind' held => own = site ∧ kind' = kind ∧ held.Implies wanted
  | .specific own kind' slug' held =>
      own = site ∧ kind' = kind ∧ slug' = slug ∧ held.Implies wanted

/-- `hasPermission` looks for the CNs of the granting nodes. -/
theorem hasPermission_iff_node {resource : ResourceRef} {site : String} {kind : Kind}
    {entrySlug : Option String} (located : resource.site = some site)
    (known : resource.HasKind kind) (named : resource.slug = entrySlug)
    (memberOf : List String) (wanted : Level) :
    hasPermission memberOf resource wanted.text = .ok true ↔
      ∃ node : Node, node.Grants site kind (.ofResource entrySlug) wanted ∧
        node.cn ∈ memberOf := by
  rw [hasPermission_iff known, located, named, Option.getD_some]
  have specificCn : ∀ level : Level,
      (GroupName.specific site kind (slugify (resourceNameSlug entrySlug)) level.text).cn =
        (Node.specific site kind (.ofResource entrySlug) level).cn := fun _ => rfl
  constructor
  · rintro (god | ⟨name, grants, member⟩)
    · exact ⟨.god, trivial, god⟩
    · simp only [grantingNames, List.mem_cons] at grants
      rcases grants with rfl | rfl | rfl | extra
      · exact ⟨.superAdmin site, rfl, member⟩
      · exact ⟨.aggregate site kind wanted, ⟨rfl, rfl, by cases wanted <;> trivial⟩, member⟩
      · exact ⟨.specific site kind (.ofResource entrySlug) wanted,
          ⟨rfl, rfl, rfl, by cases wanted <;> trivial⟩, member⟩
      · cases wanted with
        | admin => simp [Level.text] at extra
        | access =>
            simp only [Level.text, if_true, List.mem_cons, List.not_mem_nil, or_false] at extra
            rcases extra with rfl | rfl
            · exact ⟨.aggregate site kind .admin, ⟨rfl, rfl, trivial⟩, member⟩
            · exact ⟨.specific site kind (.ofResource entrySlug) .admin,
                ⟨rfl, rfl, rfl, trivial⟩, member⟩
  · rintro ⟨node, grants, member⟩
    cases node with
    | god => exact Or.inl member
    | everyone own => exact absurd grants id
    | superAdmin own =>
        obtain rfl := grants
        exact Or.inr ⟨.superAdmin own, by simp [grantingNames], member⟩
    | aggregate own kind' held =>
        obtain ⟨rfl, rfl, implies⟩ := grants
        refine Or.inr ⟨.aggregate own kind' held.text, ?_, member⟩
        cases held <;> cases wanted <;> simp_all [grantingNames, Level.text, Level.Implies]
    | specific own kind' slug held =>
        obtain ⟨rfl, rfl, rfl, implies⟩ := grants
        refine Or.inr ⟨.specific own kind' (slugify (resourceNameSlug entrySlug)) held.text,
          ?_, member⟩
        cases held <;> cases wanted <;> simp_all [grantingNames, Level.text, Level.Implies]

/-! ## Membership in the tree of a run -/

section Enrolled

variable {base : GroupBase} {sites : List String} {lattice : Lattice base}
  (valid : lattice.Valid sites) (apart : SitesApart sites) {user : base.UserDn}
  (direct : List String)

/-- The tree with the person enrolled. -/
abbrev enrolled (lattice : Lattice base) (user : base.UserDn) (direct : List String) :
    List LdapGroup :=
  enrol lattice.toGroups user.dn direct

/-- Enrolling changes neither DNs nor CNs. -/
theorem mem_enrolled {group : LdapGroup} (member : group ∈ enrolled lattice user direct) :
    ∃ entry ∈ lattice.nodes, group.cn = entry.1.cn ∧ lc group.dn = entry.1.key base ∧
      ∀ key, group.lists key = ((lattice.toGroup entry).lists key ||
        (direct.contains entry.1.cn && lc user.dn == key)) := by
  obtain ⟨plain, inTree, rfl⟩ := List.mem_map.mp member
  obtain ⟨entry, entryIn, rfl⟩ := List.mem_map.mp inTree
  refine ⟨entry, entryIn, ?_⟩
  have cnEq : (lattice.toGroup entry).cn = entry.1.cn := rfl
  rw [cnEq]
  cases listed : direct.contains entry.1.cn with
  | false => exact ⟨rfl, rfl, fun key => by simp⟩
  | true =>
      refine ⟨rfl, rfl, fun key => ?_⟩
      simp [LdapGroup.lists, user.nonempty]

variable (user) in
theorem exists_enrolled {entry : Node × base.UserDn} (member : entry ∈ lattice.nodes) :
    ∃ group ∈ enrolled lattice user direct, group.cn = entry.1.cn ∧
      lc group.dn = entry.1.key base ∧
      ∀ key, group.lists key = ((lattice.toGroup entry).lists key ||
        (direct.contains entry.1.cn && lc user.dn == key)) := by
  have inTree : lattice.toGroup entry ∈ lattice.toGroups := List.mem_map_of_mem member
  refine ⟨_, List.mem_map_of_mem inTree, ?_⟩
  have cnEq : (lattice.toGroup entry).cn = entry.1.cn := rfl
  rw [cnEq]
  cases listed : direct.contains entry.1.cn with
  | false => exact ⟨rfl, rfl, fun key => by simp⟩
  | true =>
      refine ⟨rfl, rfl, fun key => ?_⟩
      simp [LdapGroup.lists, user.nonempty]

/-- The entry of a node lists the children of its edges. -/
theorem toGroup_lists_key (valid : lattice.Valid sites) (apart : SitesApart sites)
    {entry : Node × base.UserDn} {child : Node} (isOver : child.Over sites) :
    (lattice.toGroup entry).lists (child.key base) = true ↔ (child, entry.1) ∈ lattice.edges := by
  have ownerNe : ¬ lc entry.2.dn = child.key base := entry.2.notGroup child.cn
  simp only [LdapGroup.lists, Lattice.toGroup, List.any_cons, List.any_map, Bool.or_eq_true,
    Bool.and_eq_true, beq_iff_eq, ownerNe, and_false, false_or, List.any_eq_true,
    List.mem_filter, decide_eq_true_eq, Function.comp_apply]
  constructor
  · rintro ⟨edge, ⟨inEdges, sameParent⟩, -, sameKey⟩
    have sameChild : edge.1 = child :=
      (Lattice.key_inj apart (valid.isOver _ (valid.ends edge inEdges).1) isOver).mp sameKey
    rwa [← sameChild, ← sameParent]
  · intro inEdges
    exact ⟨(child, entry.1), ⟨inEdges, rfl⟩, base.groupDn_ne_empty child.cn, rfl⟩

/-- The person is a member of no group but the ones enrolled in. -/
theorem toGroup_lists_user {entry : Node × base.UserDn}
    (stranger : lc entry.2.dn ≠ lc user.dn) :
    (lattice.toGroup entry).lists (lc user.dn) = false := by
  rw [Bool.eq_false_iff]
  intro listed
  simp only [LdapGroup.lists, Lattice.toGroup, List.any_cons, List.any_map, Bool.or_eq_true,
    Bool.and_eq_true, beq_iff_eq, stranger, and_false, false_or, List.any_eq_true,
    Function.comp_apply] at listed
  obtain ⟨edge, -, -, same⟩ := listed
  exact user.notGroup _ same.symm

include valid apart in
/-- From a node the links of the tree follow its edges. -/
theorem memberLink_key {child : Node} (isOver : child.Over sites) {key : String} :
    MemberLink (enrolled lattice user direct) (child.key base) key ↔
      ∃ parent, (child, parent) ∈ lattice.edges ∧ key = parent.key base := by
  have userNe : (lc user.dn == child.key base) = false :=
    beq_eq_false_iff_ne.mpr (user.notGroup child.cn)
  constructor
  · rintro ⟨group, isParent, rfl⟩
    obtain ⟨inTree, listed⟩ := List.mem_filter.mp isParent
    obtain ⟨entry, entryIn, -, keyEq, lists⟩ := mem_enrolled direct inTree
    rw [lists, userNe, Bool.and_false, Bool.or_false,
      toGroup_lists_key valid apart isOver] at listed
    exact ⟨entry.1, listed, keyEq⟩
  · rintro ⟨parent, edge, rfl⟩
    obtain ⟨owner, entryIn⟩ := Lattice.mem_held.mp (valid.ends _ edge).2
    obtain ⟨group, inTree, -, keyEq, lists⟩ := exists_enrolled user direct entryIn
    refine ⟨group, List.mem_filter.mpr ⟨inTree, ?_⟩, keyEq⟩
    rw [lists, (toGroup_lists_key valid apart isOver).mpr edge, Bool.true_or]

/-- From the person the links of the tree lead to the groups enrolled in. -/
theorem memberLink_user (stranger : ∀ entry ∈ lattice.nodes, lc entry.2.dn ≠ lc user.dn)
    {key : String} :
    MemberLink (enrolled lattice user direct) (lc user.dn) key ↔
      ∃ node ∈ lattice.held, node.cn ∈ direct ∧ key = node.key base := by
  constructor
  · rintro ⟨group, isParent, rfl⟩
    obtain ⟨inTree, listed⟩ := List.mem_filter.mp isParent
    obtain ⟨entry, entryIn, -, keyEq, lists⟩ := mem_enrolled direct inTree
    rw [lists, toGroup_lists_user (stranger entry entryIn)] at listed
    simp only [Bool.false_or, BEq.rfl, Bool.and_true, List.contains_iff_mem] at listed
    exact ⟨entry.1, List.mem_map_of_mem entryIn, listed, keyEq⟩
  · rintro ⟨node, held, listed, rfl⟩
    obtain ⟨owner, entryIn⟩ := Lattice.mem_held.mp held
    obtain ⟨group, inTree, -, keyEq, lists⟩ := exists_enrolled user direct entryIn
    refine ⟨group, List.mem_filter.mpr ⟨inTree, ?_⟩, keyEq⟩
    rw [lists]
    simp [listed]

include valid apart in
/-- A node within reach of the person is among the transitive groups. -/
theorem cn_mem_transitiveGroups {node : Node} (held : node ∈ lattice.held) {length : Nat}
    (short : length ≤ base.maxNestingDepth)
    (walk : Frontier.Walk (MemberLink (enrolled lattice user direct)) length (lc user.dn)
      (node.key base)) :
    node.cn ∈ transitiveGroups base (enrolled lattice user direct) user.dn := by
  obtain ⟨owner, entryIn⟩ := Lattice.mem_held.mp held
  obtain ⟨group, inTree, cnEq, keyEq, -⟩ := exists_enrolled user direct entryIn
  have oneEach : ∀ left ∈ enrolled lattice user direct, ∀ right ∈ enrolled lattice user direct,
      lc left.dn = lc right.dn → left.cn = right.cn := by
    intro left leftIn right rightIn same
    obtain ⟨leftEntry, leftIn, leftCn, leftKey, -⟩ := mem_enrolled direct leftIn
    obtain ⟨rightEntry, rightIn, rightCn, rightKey, -⟩ := mem_enrolled direct rightIn
    rw [leftKey, rightKey, Lattice.key_inj apart (valid.over_of_mem leftIn)
      (valid.over_of_mem rightIn)] at same
    rw [leftCn, rightCn, same]
  rw [← cnEq]
  refine cn_mem_closureUp_of_walk oneEach inTree ?_ short (keyEq ▸ walk)
  rw [keyEq]
  exact (user.notGroup node.cn).symm

/-- Every transitive group is a node within reach of the person. -/
theorem walk_of_mem_transitiveGroups {cn : String}
    (member : cn ∈ transitiveGroups base (enrolled lattice user direct) user.dn) :
    ∃ node ∈ lattice.held, node.cn = cn ∧ ∃ length ≤ base.maxNestingDepth,
      Frontier.Walk (MemberLink (enrolled lattice user direct)) length (lc user.dn)
        (node.key base) := by
  obtain ⟨group, inClosure, rfl⟩ := List.mem_map.mp member
  obtain ⟨inTree, length, short, walk⟩ := walk_of_mem_closureUp inClosure
  obtain ⟨entry, entryIn, cnEq, keyEq, -⟩ := mem_enrolled direct inTree
  exact ⟨entry.1, List.mem_map_of_mem entryIn, cnEq.symm, length, short, keyEq ▸ walk⟩

end Enrolled

/-! ## What nesting adds -/

section Adds

variable {base : GroupBase} (calls : List (Provision base)) (site : String) (kind : Kind)
  (slug : Slug) (wanted : Level)

/-- The group of another resource of the same kind and site, nested into an
aggregate that grants the level. -/
def Node.Leaks : Node → Prop
  | .specific own kind' sibling held =>
      own = site ∧ kind' = kind ∧ sibling ≠ slug ∧ held.Implies wanted ∧
        NestedSlug calls site kind sibling
  | _ => False

/-- The person is a direct member of a leaking group. -/
def SiblingHeld (direct : List String) : Prop :=
  ∃ node : Node, node.Leaks calls site kind slug wanted ∧ node.cn ∈ direct

variable {calls site kind slug wanted}

theorem Level.implies_of_admin (wanted : Level) : Level.admin.Implies wanted := by
  cases wanted <;> trivial

/-- A nesting into a granting group starts at a granting or a leaking group, and
a nesting into a leaking group starts at a leaking one or at `god_admin`. -/
theorem Wired.quiet {child parent : Node} (wired : Wired calls child parent)
    (notGrants : ¬ child.Grants site kind slug wanted)
    (notLeaks : ¬ child.Leaks calls site kind slug wanted) :
    ¬ parent.Grants site kind slug wanted ∧ ¬ parent.Leaks calls site kind slug wanted := by
  cases wired with
  | godSite ensured | godResource provisioned => exact absurd trivial notGrants
  | siteAggregate ensured => exact ⟨fun grants => notGrants grants.1, id⟩
  | aggregateLevels ensured =>
      refine ⟨fun grants => notGrants ?_, id⟩
      exact ⟨grants.1, grants.2.1, Level.implies_of_admin wanted⟩
  | resourceLevels provisioned =>
      constructor
      · rintro ⟨siteEq, kindEq, slugEq, -⟩
        exact notGrants ⟨siteEq, kindEq, slugEq, Level.implies_of_admin wanted⟩
      · rintro ⟨siteEq, kindEq, slugNe, -, nested⟩
        exact notLeaks ⟨siteEq, kindEq, slugNe, Level.implies_of_admin wanted, nested⟩
  | @resourceAggregate own kind' sibling held nested =>
      refine ⟨?_, id⟩
      rintro ⟨rfl, rfl, implies⟩
      by_cases same : sibling = slug
      · exact notGrants ⟨rfl, rfl, same, implies⟩
      · exact notLeaks ⟨rfl, rfl, same, implies, nested⟩

end Adds

section Theorem

variable {base : GroupBase} {calls : List (Provision base)} {seed user : base.UserDn}
  {sites : List String} {lattice : Lattice base} {site : String} {kind : Kind} {slug : Slug}
  {wanted : Level} {direct : List String}

/-- The transitive groups contain the groups enrolled in. -/
theorem direct_subset_transitiveGroups (valid : lattice.Valid sites) (apart : SitesApart sites)
    (stranger : ∀ entry ∈ lattice.nodes, lc entry.2.dn ≠ lc user.dn)
    (generated : ∀ cn ∈ direct, ∃ node ∈ lattice.held, node.cn = cn) :
    direct ⊆ transitiveGroups base (enrolled lattice user direct) user.dn := by
  intro cn member
  obtain ⟨node, held, rfl⟩ := generated cn member
  exact cn_mem_transitiveGroups valid apart direct held base.depth_pos
    (.single ((memberLink_user direct stranger).mpr ⟨node, held, member, rfl⟩))

/-- Without a leaking group, no granting group is within reach of a person who is
not a direct member of one. -/
theorem not_grants_of_walk (valid : lattice.Valid sites) (apart : SitesApart sites)
    (built : lattice.Built calls seed)
    (stranger : ∀ entry ∈ lattice.nodes, lc entry.2.dn ≠ lc user.dn)
    (ungranted : ∀ node : Node, node.Grants site kind slug wanted → node.cn ∉ direct)
    (unleaked : ¬ SiblingHeld calls site kind slug wanted direct) {node : Node}
    (held : node ∈ lattice.held) {length : Nat}
    (walk : Frontier.Walk (MemberLink (enrolled lattice user direct)) length (lc user.dn)
      (node.key base)) : ¬ node.Grants site kind slug wanted := by
  have reached : node.key base = lc user.dn ∨ ∃ other ∈ lattice.held,
      node.key base = other.key base ∧ ¬ other.Grants site kind slug wanted ∧
        ¬ other.Leaks calls site kind slug wanted := by
    refine Frontier.Walk.preserves (P := fun key => key = lc user.dn ∨
      ∃ other ∈ lattice.held, key = other.key base ∧ ¬ other.Grants site kind slug wanted ∧
        ¬ other.Leaks calls site kind slug wanted) ?_ walk (Or.inl rfl)
    rintro start finish link (rfl | ⟨child, childIn, rfl, notGrants, notLeaks⟩)
    · obtain ⟨first, firstIn, listed, rfl⟩ := (memberLink_user direct stranger).mp link
      exact Or.inr ⟨first, firstIn, rfl, fun grants => ungranted first grants listed,
        fun leaks => unleaked ⟨first, leaks, listed⟩⟩
    · obtain ⟨parent, edge, rfl⟩ :=
        (memberLink_key valid apart direct (valid.isOver child childIn)).mp link
      obtain ⟨quiet, silent⟩ := ((built.edges child parent).mp edge).quiet notGrants notLeaks
      exact Or.inr ⟨parent, (valid.ends _ edge).2, rfl, quiet, silent⟩
  rcases reached with atUser | ⟨other, otherIn, sameKey, notGrants, -⟩
  · exact absurd atUser.symm (user.notGroup node.cn)
  · rwa [(Lattice.key_inj apart (valid.isOver node held) (valid.isOver other otherIn)).mp sameKey]

/-- A leaking group is two links away from a granting one. -/
theorem exists_grants_of_siblingHeld (valid : lattice.Valid sites) (apart : SitesApart sites)
    (built : lattice.Built calls seed)
    (stranger : ∀ entry ∈ lattice.nodes, lc entry.2.dn ≠ lc user.dn)
    (leaked : SiblingHeld calls site kind slug wanted direct) :
    ∃ node ∈ lattice.held, node.Grants site kind slug wanted ∧
      Frontier.Walk (MemberLink (enrolled lattice user direct)) 2 (lc user.dn)
        (node.key base) := by
  obtain ⟨leak, leaks, listed⟩ := leaked
  cases leak with
  | god | everyone own | superAdmin own | aggregate own kind' held => exact absurd leaks id
  | specific own kind' sibling held =>
      obtain ⟨rfl, rfl, -, implies, nested⟩ := leaks
      have edge := (built.edges (.specific own kind' sibling held)
        (.aggregate own kind' held)).mpr (.resourceAggregate nested)
      obtain ⟨childIn, parentIn⟩ := valid.ends _ edge
      refine ⟨.aggregate own kind' held, parentIn, ⟨rfl, rfl, implies⟩, ?_⟩
      exact .move ((memberLink_user direct stranger).mpr ⟨_, childIn, listed, rfl⟩)
        (.single ((memberLink_key valid apart direct (valid.isOver _ childIn)).mpr
          ⟨_, edge, rfl⟩))

/-- Over the tree of a run, the permission read from the transitive groups is the
one read from the groups a person is directly a member of, unless one of those
belongs to a sibling whose groups were nested into the aggregates. -/
theorem hasPermission_transitiveGroups_iff (apart : SitesApart (calls.map Provision.siteSlug))
    {store : GroupStore} (ran : provisionAll calls (seededStore base seed) = .ok store)
    (notSeed : lc seed.dn ≠ lc user.dn)
    (notOwner : ∀ call ∈ calls, lc call.owner.dn ≠ lc user.dn)
    (generated : direct ⊆ store.groups.map (·.cn))
    {entry : ProvisionedResource} {owner : base.UserDn}
    (provisioned : Provision.resource entry kind site owner ∈ calls)
    {resource : ResourceRef} (located : resource.site = some site)
    (known : resource.HasKind kind) (named : resource.slug = entry.slug) :
    (hasPermission (transitiveGroups base (enrol store.groups user.dn direct) user.dn)
          resource wanted.text = .ok true ↔
        hasPermission direct resource wanted.text = .ok true) ↔
      hasPermission direct resource wanted.text = .ok true ∨ base.maxNestingDepth < 2 ∨
        ¬ SiblingHeld calls site kind (.ofResource entry.slug) wanted direct := by
  obtain ⟨built, lattice, ran', tree, valid, run⟩ := provisionAll_toGroups seed apart
    fun call member => List.mem_map_of_mem member
  obtain rfl : built = store := by simpa [ran'] using ran
  rw [tree] at generated ⊢
  have stranger : ∀ entry ∈ lattice.nodes, lc entry.2.dn ≠ lc user.dn := by
    intro entry member
    rcases run.creator entry member with seeded | ⟨call, inCalls, created⟩
    · rw [seeded]
      exact notSeed
    · rw [created]
      exact notOwner call inCalls
  have nodesOf : ∀ cn ∈ direct, ∃ node ∈ lattice.held, node.cn = cn := by
    intro cn member
    obtain ⟨group, inTree, rfl⟩ := List.mem_map.mp (generated member)
    obtain ⟨entry, entryIn, rfl⟩ := List.mem_map.mp inTree
    exact ⟨entry.1, List.mem_map_of_mem entryIn, rfl⟩
  have siteKnown : site ∈ calls.map Provision.siteSlug :=
    List.mem_map.mpr ⟨_, provisioned, rfl⟩
  have subset := direct_subset_transitiveGroups valid apart stranger nodesOf
  simp only [hasPermission_iff_node located known named]
  by_cases granted : ∃ node : Node,
      node.Grants site kind (.ofResource entry.slug) wanted ∧ node.cn ∈ direct
  · obtain ⟨node, grants, member⟩ := granted
    have transitive : ∃ node : Node, node.Grants site kind (.ofResource entry.slug) wanted ∧
        node.cn ∈ transitiveGroups base (enrol lattice.toGroups user.dn direct) user.dn :=
      ⟨node, grants, subset member⟩
    have listed : ∃ node : Node, node.Grants site kind (.ofResource entry.slug) wanted ∧
        node.cn ∈ direct := ⟨node, grants, member⟩
    simp only [transitive, listed, true_or]
  · simp only [granted, iff_false, false_or]
    have ungranted : ∀ node : Node, node.Grants site kind (.ofResource entry.slug) wanted →
        node.cn ∉ direct := fun node grants member => granted ⟨node, grants, member⟩
    constructor
    · intro agrees
      by_contra bad
      simp only [not_or, not_lt, not_not] at bad
      obtain ⟨node, held, grants, walk⟩ :=
        exists_grants_of_siblingHeld valid apart run stranger bad.2
      exact agrees ⟨node, grants, cn_mem_transitiveGroups valid apart direct held bad.1 walk⟩
    · rintro harmless ⟨node, grants, member⟩
      obtain ⟨found, held, sameCn, length, short, walk⟩ := walk_of_mem_transitiveGroups direct member
      have nodeOver : node.Over (calls.map Provision.siteSlug) := by
        cases node with
        | god => trivial
        | everyone own => exact absurd grants id
        | superAdmin own => exact grants ▸ siteKnown
        | aggregate own kind' held => exact grants.1 ▸ siteKnown
        | specific own kind' slug' held => exact grants.1 ▸ siteKnown
      obtain rfl : found = node :=
        (apart.lc_cn_inj (valid.isOver found held) nodeOver).mp (congrArg lc sameCn)
      rcases harmless with shallow | unleaked
      · have single : length = 1 := by
          cases length with
          | zero =>
              generalize atUser : lc user.dn = start at walk
              generalize atNode : found.key base = finish at walk
              cases walk
              exact absurd (atUser.trans atNode.symm) (user.notGroup found.cn)
          | succ shorter => omega
        subst single
        generalize atNode : found.key base = finish at walk
        cases walk with
        | move first later =>
            cases later
            obtain ⟨other, otherIn, listed, keyEq⟩ := (memberLink_user direct stranger).mp first
            have same := (Lattice.key_inj apart (valid.isOver found held)
              (valid.isOver other otherIn)).mp (atNode.trans keyEq)
            exact ungranted found grants (same ▸ listed)
      · exact not_grants_of_walk valid apart run stranger ungranted unleaked held walk grants

end Theorem

/-! ## Two hosts at one site -/

/-- A directory whose names need no escaping. -/
def plainBase : GroupBase where
  groupBase := "ou=groups"
  escapeDN := id
  maxNestingDepth := 10
  escapeDN_inj := fun same => same
  depth_pos := default_depth_pos

/-- The DN of a person in the plain directory. -/
def plainUser (uid : String) : plainBase.UserDn where
  dn := "uid=" ++ uid
  nonempty := by simp [← String.toList_inj]
  notGroup := by
    intro cn same
    have firstLetters := congrArg (fun text => text.toList.head?) same
    have userFirst : lc ("uid=" ++ uid) = "uid=" ++ lc uid := by
      rw [lc_append]
      rfl
    have groupFirst : lc (plainBase.groupDn cn) = "cn=" ++ (lc cn ++ lc ",ou=groups") := by
      simp only [GroupBase.groupDn, plainBase, id, lc_append, String.append_assoc]
      rfl
    rw [userFirst, groupFirst] at firstLetters
    simp at firstLetters

/-- The site, then its hosts web and db. -/
def twoHosts : List (Provision plainBase) :=
  [.site "site_a" (plainUser "root") none,
    .resource ⟨"1", some "host_web"⟩ .host "site_a" (plainUser "root"),
    .resource ⟨"2", some "host_db"⟩ .host "site_a" (plainUser "root")]

theorem twoHosts_apart : SitesApart (twoHosts.map Provision.siteSlug) := by
  have sameSite : ∀ slug ∈ twoHosts.map Provision.siteSlug, slug = "site_a" := by decide
  intro left leftIn right rightIn
  rw [sameSite left leftIn, sameSite right rightIn]
  exact ⟨fun _ => rfl, by intro kind; cases kind <;> decide⟩

theorem twoHosts_web_nested :
    NestedSlug twoHosts "site_a" .host (.ofResource (some "host_web")) :=
  ⟨[.site "site_a" (plainUser "root") none],
    [.resource ⟨"2", some "host_db"⟩ .host "site_a" (plainUser "root")], ⟨"1", some "host_web"⟩,
    plainUser "root", rfl, rfl, by decide, plainUser "root", none, List.mem_singleton.mpr rfl⟩

theorem twoHosts_owner : ∀ call ∈ twoHosts, call.owner = plainUser "root" := by
  intro call member
  simp only [twoHosts, List.mem_cons, List.not_mem_nil, or_false] at member
  rcases member with rfl | rfl | rfl <;> rfl

/-- The group of the host web's administrators. -/
def webAdmin : Node := .specific "site_a" .host (.ofResource (some "host_web")) .admin

theorem webAdmin_named : Named twoHosts webAdmin :=
  ⟨⟨"1", some "host_web"⟩, plainUser "root", by simp [twoHosts], rfl⟩

/-- The run over the two hosts, with eve as a person who made none of its
calls. -/
theorem twoHosts_run :
    ∃ (store : GroupStore) (lattice : Lattice plainBase),
      provisionAll twoHosts (seededStore plainBase (plainUser "root")) = .ok store ∧
        store.groups = lattice.toGroups ∧ lattice.Valid (twoHosts.map Provision.siteSlug) ∧
        lattice.Built twoHosts (plainUser "root") ∧
        (∀ entry ∈ lattice.nodes, lc entry.2.dn ≠ lc (plainUser "eve").dn) ∧
        [webAdmin.cn] ⊆ store.groups.map (·.cn) := by
  obtain ⟨store, lattice, ran, tree, valid, run⟩ := provisionAll_toGroups (plainUser "root")
    twoHosts_apart fun call member => List.mem_map_of_mem member
  refine ⟨store, lattice, ran, tree, valid, run, ?_, ?_⟩
  · intro entry member
    rcases run.creator entry member with seeded | ⟨call, inCalls, created⟩
    · rw [seeded]
      decide
    · rw [created, twoHosts_owner call inCalls]
      decide
  · obtain ⟨owner, entryIn⟩ := Lattice.mem_held.mp ((run.held webAdmin).mpr webAdmin_named)
    rw [tree, List.cons_subset]
    exact ⟨List.mem_map.mpr ⟨_, List.mem_map_of_mem entryIn, rfl⟩, List.nil_subset _⟩

/-- An administrator of the host web is one of the host db. -/
theorem not_hasPermission_transitiveGroups :
    ¬ ∀ (base : GroupBase) (seed user : base.UserDn) (calls : List (Provision base))
        (store : GroupStore), provisionAll calls (seededStore base seed) = .ok store →
      lc seed.dn ≠ lc user.dn → (∀ call ∈ calls, lc call.owner.dn ≠ lc user.dn) →
      ∀ direct ⊆ store.groups.map (·.cn), ∀ (entry : ProvisionedResource) (kind : Kind)
        (site : String) (owner : base.UserDn), .resource entry kind site owner ∈ calls →
      ∀ resource : ResourceRef, resource.site = some site → resource.HasKind kind →
        resource.slug = entry.slug → ∀ wanted : Level,
          (hasPermission (transitiveGroups base (enrol store.groups user.dn direct) user.dn)
              resource wanted.text = .ok true ↔
            hasPermission direct resource wanted.text = .ok true) := by
  intro agrees
  obtain ⟨store, lattice, ran, tree, valid, run, stranger, generated⟩ := twoHosts_run
  let db : ResourceRef := ⟨some "site_a", "host", some "host_db"⟩
  have atSite : db.site = some "site_a" := rfl
  have isHost : db.HasKind .host := by decide
  have named : db.slug = some "host_db" := rfl
  have leaked : SiblingHeld twoHosts "site_a" .host (.ofResource (some "host_db")) .admin
      [webAdmin.cn] :=
    ⟨webAdmin, ⟨rfl, rfl, by decide, trivial, twoHosts_web_nested⟩, List.mem_singleton.mpr rfl⟩
  obtain ⟨node, held, grants, walk⟩ :=
    exists_grants_of_siblingHeld valid twoHosts_apart run stranger leaked
  have both := agrees plainBase (plainUser "root") (plainUser "eve") twoHosts store ran
    (by decide) (fun call member => by rw [twoHosts_owner call member]; decide) [webAdmin.cn]
    generated ⟨"2", some "host_db"⟩ .host "site_a" (plainUser "root") (by simp [twoHosts]) db
    atSite isHost named .admin
  rw [tree, hasPermission_iff_node atSite isHost named] at both
  have granted := both.mp ⟨node, grants, cn_mem_transitiveGroups valid twoHosts_apart
    [webAdmin.cn] held (by decide) walk⟩
  exact absurd granted (by decide)

theorem hasPermission_transitiveGroups_iff_at :
    ∃ store, provisionAll twoHosts (seededStore plainBase (plainUser "root")) = .ok store ∧
      ((hasPermission
            (transitiveGroups plainBase (enrol store.groups (plainUser "eve").dn [webAdmin.cn])
              (plainUser "eve").dn)
            ⟨some "site_a", "host", some "host_web"⟩ Level.access.text = .ok true ↔
          hasPermission [webAdmin.cn] ⟨some "site_a", "host", some "host_web"⟩
            Level.access.text = .ok true) ↔
        hasPermission [webAdmin.cn] ⟨some "site_a", "host", some "host_web"⟩
            Level.access.text = .ok true ∨ plainBase.maxNestingDepth < 2 ∨
          ¬ SiblingHeld twoHosts "site_a" .host (.ofResource (some "host_web")) .access
            [webAdmin.cn]) := by
  obtain ⟨store, lattice, ran, -, -, -, -, generated⟩ := twoHosts_run
  have provisioned : Provision.resource ⟨"1", some "host_web"⟩ .host "site_a"
      (plainUser "root") ∈ twoHosts := by simp [twoHosts]
  refine ⟨store, ran, ?_⟩
  exact hasPermission_transitiveGroups_iff twoHosts_apart ran (by decide)
    (fun call member => by rw [twoHosts_owner call member]; decide) generated provisioned rfl
    (by decide) rfl

end ThetaDirectory.Groups
