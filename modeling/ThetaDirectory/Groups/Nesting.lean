import Mathlib.Data.List.Nodup
import ThetaDirectory.Library.Frontier
import ThetaDirectory.Text

/-!
# Nested LDAP groups

The group tree of `models/group_ldap.js`: groups whose members are DNs of users
or of other groups, the two transitive closures, the cycle guard, and the
directory operations provisioning uses.

The resolver cache is cleared by every write, so the closures read the current
tree.  `GroupBase` fixes what the configuration and the shared LDAP package
decide: how a CN becomes a DN, and how deep nesting is followed.
-/

namespace ThetaDirectory.Groups

open Library

/-- DNs and CNs are compared without regard to case. -/
def lc (dn : String) : String := toLowerCase dn

/-- The configured subtree of the groups.  Escaping keeps different names
different. -/
structure GroupBase where
  groupBase : String
  escapeDN : String → String
  maxNestingDepth : Nat
  escapeDN_inj : ∀ {left right : String}, lc (escapeDN left) = lc (escapeDN right) →
    lc left = lc right
  depth_pos : 0 < maxNestingDepth

theorem default_depth_pos : 0 < 10 := Nat.zero_lt_succ 9

/-- The DN of a group. -/
def GroupBase.groupDn (base : GroupBase) (cn : String) : String :=
  "cn=" ++ base.escapeDN cn ++ "," ++ base.groupBase

/-- A DN outside the group subtree, such as a person's. -/
structure GroupBase.UserDn (base : GroupBase) where
  dn : String
  nonempty : dn ≠ ""
  notGroup : ∀ cn, lc dn ≠ lc (base.groupDn cn)

/-- A `groupOfNames` entry. -/
structure LdapGroup where
  dn : String
  cn : String
  member : List String
  deriving DecidableEq, Repr

/-- The group lists a DN as a member. -/
def LdapGroup.lists (group : LdapGroup) (key : String) : Bool :=
  group.member.any fun member => member ≠ "" && lc member == key

/-! ## Closures -/

/-- The groups that list a DN, from the index `buildParentIndex` makes. -/
def parentsOf (groups : List LdapGroup) (key : String) : List LdapGroup :=
  groups.filter fun group => group.lists key

/-- Store a group under its CN, as a JavaScript map does. -/
def setGroup (found : List LdapGroup) (group : LdapGroup) : List LdapGroup :=
  if found.any (·.cn == group.cn) then
    found.map fun other => if other.cn == group.cn then group else other
  else found ++ [group]

/-- Every group a DN belongs to, directly or through nested groups. -/
def closureUp (depth : Nat) (dn : String) (groups : List LdapGroup) : List LdapGroup :=
  (Frontier.search (parentsOf groups) (fun group => lc group.dn) depth [lc dn]
    [lc dn]).foldl setGroup []

/-- The group with a DN. -/
def groupAt (groups : List LdapGroup) (key : String) : Option LdapGroup :=
  groups.find? fun group => lc group.dn == key

/-- The groups nested in the group with a DN. -/
def nestedIn (groups : List LdapGroup) (key : String) : List LdapGroup :=
  match groupAt groups key with
  | some group => (group.member.filter (· ≠ "")).filterMap fun member => groupAt groups (lc member)
  | none => []

/-- The users and the nested groups below a group. -/
structure ClosureDown where
  users : List String
  nested : List LdapGroup

/-- The groups whose members a search of the given depth reads. -/
def expandedIn (groups : List LdapGroup) (group : LdapGroup) : Nat → List LdapGroup
  | 0 => []
  | depth + 1 => group :: Frontier.search (nestedIn groups) (fun group => lc group.dn) depth
      [lc group.dn] [lc group.dn]

def closureDown (depth : Nat) (group : LdapGroup) (groups : List LdapGroup) : ClosureDown where
  users := ((expandedIn groups group depth).flatMap fun current =>
    current.member.filter fun member =>
      member ≠ "" && (groupAt groups (lc member)).isNone).eraseDups
  nested := (Frontier.search (nestedIn groups) (fun group => lc group.dn) depth
    [lc group.dn] [lc group.dn]).foldl setGroup []

/-- Would adding the child to the parent create a cycle? -/
def wouldCycle (depth : Nat) (groups : List LdapGroup) (parentCn childDn : String) : Bool :=
  match groups.find? (fun group => group.cn == parentCn) with
  | none => false
  | some parent =>
      if lc parent.dn == lc childDn then true
      else match groupAt groups (lc childDn) with
        | none => false
        | some child =>
            (closureDown depth child groups).nested.any fun group => lc group.dn == lc parent.dn

/-! ## Directory operations -/

inductive LdapError where
  | entryAlreadyExists
  | typeOrValueExists
  | groupNotFound
  deriving DecidableEq, Repr

namespace Group

variable (base : GroupBase)

/-- Search the subtree for a CN. -/
def get (groups : List LdapGroup) (name : String) : Except LdapError LdapGroup :=
  match groups.find? fun group => lc group.cn == lc name with
  | some group => .ok group
  | none => .error .groupNotFound

/-- Add an entry whose only member is its owner. -/
def add (groups : List LdapGroup) (name owner : String) : Except LdapError (List LdapGroup) :=
  if groups.any fun group => lc group.dn == lc (base.groupDn name) then
    .error .entryAlreadyExists
  else .ok (groups ++ [⟨base.groupDn name, name, [owner]⟩])

/-- Add a member value to the entry with the group's DN. -/
def addMember (groups : List LdapGroup) (group : LdapGroup) (dn : String) :
    Except LdapError (List LdapGroup) :=
  if group.member.any fun member => lc member == lc dn then .error .typeOrValueExists
  else .ok (groups.map fun other =>
    if lc other.dn == lc group.dn then { other with member := other.member ++ [dn] } else other)

end Group

/-! ## What the closures contain -/

/-- One nesting link: the first DN is a member of the group with the second. -/
abbrev MemberLink (groups : List LdapGroup) : String → String → Prop :=
  Frontier.Step (parentsOf groups) fun group => lc group.dn

/-- One nesting link read downwards. -/
abbrev NestedLink (groups : List LdapGroup) : String → String → Prop :=
  Frontier.Step (nestedIn groups) fun group => lc group.dn

theorem cn_mem_foldl_setGroup {found groups : List LdapGroup} {cn : String} :
    cn ∈ (groups.foldl setGroup found).map (·.cn) ↔
      cn ∈ found.map (·.cn) ∨ cn ∈ groups.map (·.cn) := by
  induction groups generalizing found with
  | nil => simp
  | cons group groups ih =>
      have stored : cn ∈ (setGroup found group).map (·.cn) ↔
          cn ∈ found.map (·.cn) ∨ cn = group.cn := by
        unfold setGroup
        split
        · rename_i present
          obtain ⟨other, member, same⟩ := List.any_eq_true.mp present
          have sameCn : (found.map fun other =>
              if other.cn == group.cn then group else other).map (·.cn) = found.map (·.cn) := by
            rw [List.map_map]
            apply List.map_congr_left
            intro other _
            simp only [Function.comp_apply]
            split
            · rename_i equal
              exact (eq_of_beq equal).symm
            · rfl
          rw [sameCn]
          constructor
          · exact Or.inl
          · rintro (inFound | rfl)
            · exact inFound
            · exact List.mem_map.mpr ⟨other, member, eq_of_beq same⟩
        · simp
      rw [List.foldl_cons, ih, stored, List.map_cons, List.mem_cons, or_assoc]

theorem mem_of_mem_foldl_setGroup {found groups : List LdapGroup} {group : LdapGroup}
    (member : group ∈ groups.foldl setGroup found) : group ∈ found ∨ group ∈ groups := by
  induction groups generalizing found with
  | nil => exact Or.inl member
  | cons head groups ih =>
      rw [List.foldl_cons] at member
      rcases ih member with stored | later
      · unfold setGroup at stored
        split at stored
        · obtain ⟨other, inFound, same⟩ := List.mem_map.mp stored
          split at same
          · exact Or.inr (by simp [← same])
          · exact Or.inl (same ▸ inFound)
        · rcases List.mem_append.mp stored with inFound | last
          · exact Or.inl inFound
          · exact Or.inr (by simp [List.mem_singleton.mp last])
      · exact Or.inr (List.mem_cons_of_mem _ later)

/-- A group a search upwards returns is one of the tree, and a short walk of
nesting links leads to it. -/
theorem walk_of_mem_closureUp {depth : Nat} {dn : String} {groups : List LdapGroup}
    {group : LdapGroup} (member : group ∈ closureUp depth dn groups) :
    group ∈ groups ∧ ∃ length ≤ depth,
      Frontier.Walk (MemberLink groups) length (lc dn) (lc group.dn) := by
  rcases mem_of_mem_foldl_setGroup member with none | found
  · simp at none
  · obtain ⟨-, start, inFrontier, length, short, last, walk, isParent⟩ :=
      Frontier.search_sound found
    obtain rfl := List.mem_singleton.mp inFrontier
    exact ⟨(List.mem_filter.mp isParent).1, length + 1, short,
      walk.snoc ⟨group, isParent, rfl⟩⟩

/-- Where a DN names one group only, a short walk to it puts its CN into the
closure. -/
theorem cn_mem_closureUp_of_walk {depth : Nat} {dn : String} {groups : List LdapGroup}
    (oneEach : ∀ left ∈ groups, ∀ right ∈ groups, lc left.dn = lc right.dn →
      left.cn = right.cn)
    {group : LdapGroup} (member : group ∈ groups) (other : lc group.dn ≠ lc dn)
    {length : Nat} (short : length ≤ depth)
    (walk : Frontier.Walk (MemberLink groups) length (lc dn) (lc group.dn)) :
    group.cn ∈ (closureUp depth dn groups).map (·.cn) := by
  obtain ⟨found, inSearch, same⟩ :=
    Frontier.exists_mem_search_iff.mpr ⟨other, length, short, walk⟩
  obtain ⟨-, _, _, _, _, _, _, isParent⟩ := Frontier.search_sound inSearch
  refine cn_mem_foldl_setGroup.mpr (Or.inr (List.mem_map.mpr ⟨found, inSearch, ?_⟩))
  exact oneEach found (List.mem_filter.mp isParent).1 group member same

/-- The cycle guard refuses only when the parent lies below the child. -/
theorem walk_of_wouldCycle {depth : Nat} {groups : List LdapGroup} {parentCn childDn : String}
    (refused : wouldCycle depth groups parentCn childDn = true) :
    ∃ parent ∈ groups, parent.cn = parentCn ∧
      ∃ length, Frontier.Walk (NestedLink groups) length (lc childDn) (lc parent.dn) := by
  unfold wouldCycle at refused
  split at refused
  · contradiction
  · rename_i parent found
    have sameCn : parent.cn = parentCn := by simpa using List.find?_some found
    refine ⟨parent, List.mem_of_find?_eq_some found, sameCn, ?_⟩
    split at refused
    · rename_i same
      rw [eq_of_beq same]
      exact ⟨0, .stay _⟩
    · split at refused
      · contradiction
      · rename_i child atChild
        have childKey : lc child.dn = lc childDn := by simpa using List.find?_some atChild
        obtain ⟨group, inNested, same⟩ := List.any_eq_true.mp refused
        rcases mem_of_mem_foldl_setGroup inNested with none | inSearch
        · simp at none
        · obtain ⟨-, start, inFrontier, length, -, last, walk, isNested⟩ :=
            Frontier.search_sound inSearch
          obtain rfl := List.mem_singleton.mp inFrontier
          rw [← childKey, ← eq_of_beq same]
          exact ⟨length + 1, walk.snoc ⟨group, isNested, rfl⟩⟩

/-! ## Trees whose entries have different DNs -/

section Distinct

variable {groups : List LdapGroup}

/-- The entries of the tree have different DNs. -/
def DistinctDns (groups : List LdapGroup) : Prop := (groups.map fun group => lc group.dn).Nodup

instance : Decidable (DistinctDns groups) := List.nodupDecidable _

theorem DistinctDns.groupAt {group : LdapGroup} (distinct : DistinctDns groups)
    (member : group ∈ groups) : groupAt groups (lc group.dn) = some group := by
  unfold Groups.groupAt
  cases found : groups.find? fun other => lc other.dn == lc group.dn with
  | none =>
      rw [List.find?_eq_none] at found
      exact absurd (beq_self_eq_true _) (found group member)
  | some other =>
      have same : lc other.dn = lc group.dn := by simpa using List.find?_some found
      rw [List.inj_on_of_nodup_map distinct (List.mem_of_find?_eq_some found) member same]

theorem memberLink_iff {key above : String} : MemberLink groups key above ↔
    ∃ group ∈ groups, group.lists key = true ∧ lc group.dn = above := by
  simp only [MemberLink, Frontier.Step, parentsOf, List.mem_filter, and_assoc]

/-- Read downwards, a link leads to the groups among the members. -/
theorem nestedLink_of_memberLink {child : LdapGroup} {above : String}
    (distinct : DistinctDns groups) (member : child ∈ groups)
    (link : MemberLink groups (lc child.dn) above) : NestedLink groups above (lc child.dn) := by
  obtain ⟨group, inGroups, lists, rfl⟩ := memberLink_iff.mp link
  obtain ⟨value, inMember, isChild⟩ := List.any_eq_true.mp lists
  simp only [Bool.and_eq_true, decide_eq_true_eq, beq_iff_eq] at isChild
  refine ⟨child, ?_, rfl⟩
  unfold nestedIn
  rw [distinct.groupAt inGroups]
  refine List.mem_filterMap.mpr ⟨value, List.mem_filter.mpr ⟨inMember, by simpa using isChild.1⟩, ?_⟩
  rw [isChild.2]
  exact distinct.groupAt member

end Distinct

end ThetaDirectory.Groups
