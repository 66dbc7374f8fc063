import ThetaDirectory.Groups.Nesting

/-!
# The two closures agree

`closureUp` reads the links from a user to its groups, `closureDown` reads them from a group to its
users.  Both find the ends of chains of at most as many links as nesting is followed.
-/

namespace ThetaDirectory.Groups

open Library Frontier

variable {groups : List LdapGroup} {depth length : Nat} {key : String} {group child : LdapGroup}

/-! ## Links read in the other direction -/

theorem mem_of_groupAt (found : groupAt groups key = some group) :
    group ∈ groups ∧ lc group.dn = key := by
  unfold groupAt at found
  exact ⟨List.mem_of_find?_eq_some found, by simpa using List.find?_some found⟩

/-- A nested group is an entry of its own. -/
theorem mem_of_mem_nestedIn (nested : child ∈ nestedIn groups key) : child ∈ groups := by
  unfold nestedIn at nested
  split at nested
  · obtain ⟨member, -, found⟩ := List.mem_filterMap.mp nested
    exact (mem_of_groupAt found).1
  · cases nested

/-- Read upwards, a link leads to the group that lists the member. -/
theorem memberLink_of_nestedLink {above : String} (link : NestedLink groups above key) :
    MemberLink groups key above := by
  obtain ⟨child, nested, childKey⟩ := link
  unfold nestedIn at nested
  cases found : groupAt groups above with
  | none =>
      rw [found] at nested
      cases nested
  | some group =>
      rw [found] at nested
      obtain ⟨member, listed, named⟩ := List.mem_filterMap.mp nested
      obtain ⟨inMembers, nonempty⟩ := List.mem_filter.mp listed
      obtain ⟨inGroups, groupKey⟩ := mem_of_groupAt found
      refine memberLink_iff.mpr ⟨group, inGroups, List.any_eq_true.mpr ⟨member, inMembers, ?_⟩,
        groupKey⟩
      have sameKey : lc member = key := (mem_of_groupAt named).2.symm.trans childKey
      simpa only [sameKey, beq_self_eq_true, Bool.and_true] using nonempty

theorem memberWalk_of_nestedWalk {above : String}
    (walk : Walk (NestedLink groups) length above key) : Walk (MemberLink groups) length key above := by
  induction walk with
  | stay key => exact .stay key
  | move first later ih => exact ih.snoc (memberLink_of_nestedLink first)

/-- A chain up from a group is a chain down to it. -/
theorem nestedWalk_of_memberWalk (distinct : DistinctDns groups) {above : String}
    (member : child ∈ groups) (walk : Walk (MemberLink groups) length (lc child.dn) above) :
    Walk (NestedLink groups) length above (lc child.dn) := by
  generalize start : lc child.dn = key at walk
  induction walk generalizing child with
  | stay key => exact .stay key
  | move first later ih =>
      subst start
      obtain ⟨group, inGroups, lists, rfl⟩ := memberLink_iff.mp first
      exact (ih inGroups rfl).snoc (nestedLink_of_memberLink distinct member first)

/-! ## What the search downwards reads -/

theorem mem_expandedIn_iff (distinct : DistinctDns groups) (member : group ∈ groups)
    {current : LdapGroup} :
    current ∈ expandedIn groups group depth ↔ current ∈ groups ∧
      ∃ length < depth, Walk (NestedLink groups) length (lc group.dn) (lc current.dn) := by
  have inTree {depth : Nat} {item : LdapGroup} (found : item ∈ search (nestedIn groups)
      (fun group => lc group.dn) depth [lc group.dn] [lc group.dn]) : item ∈ groups := by
    obtain ⟨-, _, _, _, _, _, _, nested⟩ := search_sound found
    exact mem_of_mem_nestedIn nested
  cases depth with
  | zero => simp [expandedIn]
  | succ depth =>
      rw [expandedIn, List.mem_cons]
      constructor
      · intro read
        rcases read with rfl | found
        · exact ⟨member, 0, depth.succ_pos, .stay _⟩
        · obtain ⟨-, length, short, walk⟩ := exists_mem_search_iff.mp ⟨current, found, rfl⟩
          exact ⟨inTree found, length, Nat.lt_succ_of_le short, walk⟩
      · intro reached
        obtain ⟨inGroups, length, short, walk⟩ := reached
        by_cases same : lc current.dn = lc group.dn
        · exact Or.inl (List.inj_on_of_nodup_map distinct inGroups member same)
        · obtain ⟨item, found, itemKey⟩ :=
            exists_mem_search_iff.mpr ⟨same, length, Nat.le_of_lt_succ short, walk⟩
          rw [← List.inj_on_of_nodup_map distinct (inTree found) inGroups itemKey]
          exact Or.inr found

/-- The users are the members that are no group. -/
theorem exists_user_iff : (∃ user ∈ (closureDown depth group groups).users, lc user = key) ↔
    groupAt groups key = none ∧ ∃ current ∈ expandedIn groups group depth, current.lists key := by
  simp only [closureDown, List.mem_eraseDups, List.mem_flatMap, List.mem_filter, Bool.and_eq_true,
    decide_eq_true_eq, Option.isNone_iff_eq_none, LdapGroup.lists, List.any_eq_true, beq_iff_eq]
  constructor
  · intro below
    obtain ⟨user, ⟨current, read, listed, nonempty, noGroup⟩, rfl⟩ := below
    exact ⟨noGroup, current, read, user, listed, nonempty, rfl⟩
  · intro below
    obtain ⟨noGroup, current, read, user, listed, nonempty, rfl⟩ := below
    exact ⟨user, ⟨current, read, listed, nonempty, noGroup⟩, rfl⟩

/-! ## The closures -/

theorem mem_closureUp_iff {dn : String} (distinct : DistinctDns groups)
    (distinctCns : (groups.map (·.cn)).Nodup) (member : group ∈ groups)
    (other : lc group.dn ≠ lc dn) : group ∈ closureUp depth dn groups ↔
      ∃ length ≤ depth, Walk (MemberLink groups) length (lc dn) (lc group.dn) := by
  constructor
  · exact fun found => (walk_of_mem_closureUp found).2
  · intro reached
    obtain ⟨length, short, walk⟩ := reached
    have oneEach : ∀ left ∈ groups, ∀ right ∈ groups, lc left.dn = lc right.dn →
        left.cn = right.cn := fun left inLeft right inRight same =>
      congrArg _ (List.inj_on_of_nodup_map distinct inLeft inRight same)
    obtain ⟨found, inClosure, sameCn⟩ :=
      List.mem_map.mp (cn_mem_closureUp_of_walk oneEach member other short walk)
    rw [← List.inj_on_of_nodup_map distinctCns (walk_of_mem_closureUp inClosure).1 member sameCn]
    exact inClosure

theorem exists_user_iff_walk {dn : String} (distinct : DistinctDns groups)
    (notGroup : ∀ group ∈ groups, lc group.dn ≠ lc dn) (member : group ∈ groups) :
    (∃ user ∈ (closureDown depth group groups).users, lc user = lc dn) ↔
      ∃ length ≤ depth, Walk (MemberLink groups) length (lc dn) (lc group.dn) := by
  have noGroup : groupAt groups (lc dn) = none :=
    List.find?_eq_none.mpr fun group member => by simpa using notGroup group member
  rw [exists_user_iff, and_iff_right noGroup]
  constructor
  · intro below
    obtain ⟨current, read, lists⟩ := below
    obtain ⟨inGroups, length, short, walk⟩ := (mem_expandedIn_iff distinct member).mp read
    exact ⟨length + 1, short, .move (memberLink_iff.mpr ⟨current, inGroups, lists, rfl⟩)
      (memberWalk_of_nestedWalk walk)⟩
  · intro reached
    obtain ⟨length, short, walk⟩ := reached
    -- The first link leads from the user to a group, so that the rest can be read downwards.
    generalize finish : lc group.dn = last at walk
    cases walk with
    | stay => exact absurd finish (notGroup group member)
    | move first later =>
        subst finish
        obtain ⟨current, inGroups, lists, rfl⟩ := memberLink_iff.mp first
        exact ⟨current, (mem_expandedIn_iff distinct member).mpr ⟨inGroups, _, short,
          nestedWalk_of_memberWalk distinct inGroups later⟩, lists⟩

/-- Two groups that contain each other, one of which lists a user in other letters. -/
def crossed : List LdapGroup :=
  [⟨"cn=ops,ou=groups", "ops", ["CN=dev,ou=groups"]⟩,
    ⟨"cn=dev,ou=groups", "dev", ["cn=ops,ou=groups", "UID=ann,ou=people"]⟩]

end ThetaDirectory.Groups
