import ThetaDirectory.Groups.Lattice

/-!
# The tree operations simulate the lattice operations

On the tree of a valid lattice, creating a group and nesting a group do what the
lattice operations do.  The cycle guard never refuses: every nesting leads to a
higher rank.
-/

namespace ThetaDirectory.Groups

open Library Library.Delimited

namespace Lattice

variable {base : GroupBase} {sites : List String} {lattice : Lattice base}

theorem mem_held {lattice : Lattice base} {node : Node} :
    node ∈ lattice.held ↔ ∃ owner, (node, owner) ∈ lattice.nodes := by
  simp [held]

/-- Nodes over the sites have different keys. -/
theorem key_inj (apart : SitesApart sites) {left right : Node} (leftOver : left.Over sites)
    (rightOver : right.Over sites) : left.key base = right.key base ↔ left = right := by
  constructor
  · intro same
    exact (apart.lc_cn_inj leftOver rightOver).mp (GroupBase.lc_groupDn_inj same)
  · rintro rfl
    rfl

namespace Valid

variable (valid : lattice.Valid sites)
include valid

/-- A node has one entry. -/
theorem entry_eq {left right : Node × base.UserDn} (leftIn : left ∈ lattice.nodes)
    (rightIn : right ∈ lattice.nodes) (same : left.1 = right.1) : left = right :=
  List.inj_on_of_nodup_map valid.distinct leftIn rightIn same

/-- Searching the tree for what only one node has finds its entry. -/
theorem find_toGroups {entry : Node × base.UserDn} (member : entry ∈ lattice.nodes)
    {wanted : LdapGroup → Bool}
    (hits : ∀ other ∈ lattice.nodes, wanted (lattice.toGroup other) = true ↔ other.1 = entry.1) :
    lattice.toGroups.find? wanted = some (lattice.toGroup entry) := by
  cases found : lattice.toGroups.find? wanted with
  | none =>
      rw [List.find?_eq_none] at found
      exact absurd ((hits entry member).mpr rfl) (found _ (List.mem_map_of_mem member))
  | some group =>
      obtain ⟨other, otherIn, rfl⟩ := List.mem_map.mp (List.mem_of_find?_eq_some found)
      rw [valid.entry_eq otherIn member ((hits other otherIn).mp (List.find?_some found))]

theorem over_of_mem {entry : Node × base.UserDn} (member : entry ∈ lattice.nodes) :
    entry.1.Over sites :=
  valid.isOver entry.1 (List.mem_map_of_mem member)

variable (apart : SitesApart sites)
include apart

/-- Looking a CN up finds the entry of the node. -/
theorem get_toGroups {entry : Node × base.UserDn} (member : entry ∈ lattice.nodes) :
    Group.get lattice.toGroups entry.1.cn = .ok (lattice.toGroup entry) := by
  have found : lattice.toGroups.find? (fun group => lc group.cn == lc entry.1.cn) =
      some (lattice.toGroup entry) := by
    refine valid.find_toGroups member fun other otherIn => ?_
    rw [beq_iff_eq]
    exact apart.lc_cn_inj (valid.over_of_mem otherIn) (valid.over_of_mem member)
  rw [Group.get, found]

/-- Looking the CN of an absent node up finds nothing. -/
theorem get_toGroups_of_not_held {node : Node} (isOver : node.Over sites)
    (absent : node ∉ lattice.held) :
    Group.get lattice.toGroups node.cn = .error .groupNotFound := by
  have missing : lattice.toGroups.find? (fun group => lc group.cn == lc node.cn) = none := by
    rw [List.find?_eq_none]
    intro group inTree
    obtain ⟨other, otherIn, rfl⟩ := List.mem_map.mp inTree
    rw [beq_iff_eq]
    intro same
    apply absent
    rw [← (apart.lc_cn_inj (valid.over_of_mem otherIn) isOver).mp same]
    exact List.mem_map_of_mem otherIn
  rw [Group.get, missing]

theorem groupAt_key {entry : Node × base.UserDn} (member : entry ∈ lattice.nodes) :
    groupAt lattice.toGroups (entry.1.key base) = some (lattice.toGroup entry) := by
  refine valid.find_toGroups member fun other otherIn => ?_
  rw [beq_iff_eq]
  exact key_inj apart (valid.over_of_mem otherIn) (valid.over_of_mem member)

omit valid apart in
theorem groupAt_user (user : base.UserDn) : groupAt lattice.toGroups (lc user.dn) = none := by
  rw [groupAt, List.find?_eq_none]
  intro group inTree
  obtain ⟨other, -, rfl⟩ := List.mem_map.mp inTree
  rw [beq_iff_eq]
  exact fun same => user.notGroup _ same.symm

/-- Below a node lie the children of its edges. -/
theorem child_of_nestedLink {parent : Node} (inLattice : parent ∈ lattice.held) {key : String}
    (link : NestedLink lattice.toGroups (parent.key base) key) :
    ∃ child, (child, parent) ∈ lattice.edges ∧ key = child.key base := by
  obtain ⟨owner, member⟩ := mem_held.mp inLattice
  obtain ⟨group, isNested, rfl⟩ := link
  simp only [nestedIn, valid.groupAt_key apart member] at isNested
  obtain ⟨dn, isMember, atDn⟩ := List.mem_filterMap.mp isNested
  simp only [toGroup, List.mem_filter, List.mem_cons, List.mem_map, decide_eq_true_eq] at isMember
  rcases isMember.1 with rfl | ⟨edge, ⟨inEdges, sameParent⟩, rfl⟩
  · rw [groupAt_user] at atDn
    contradiction
  · obtain ⟨childOwner, childIn⟩ := mem_held.mp (valid.ends edge inEdges).1
    rw [show lc (base.groupDn edge.1.cn) = edge.1.key base from rfl,
      valid.groupAt_key apart childIn] at atDn
    refine ⟨edge.1, ?_, by rw [← Option.some.inj atDn]; rfl⟩
    rw [← sameParent]
    exact inEdges

/-- Below a node lie only nodes of at most its rank. -/
theorem rank_le_of_walk {upper : Node} (inLattice : upper ∈ lattice.held) {length : Nat}
    {key : String} (walk : Frontier.Walk (NestedLink lattice.toGroups) length
      (upper.key base) key) :
    ∃ lower ∈ lattice.held, key = lower.key base ∧ lower.rank ≤ upper.rank := by
  refine Frontier.Walk.preserves (P := fun key => ∃ lower ∈ lattice.held,
    key = lower.key base ∧ lower.rank ≤ upper.rank) ?_ walk ⟨upper, inLattice, rfl, le_rfl⟩
  rintro start finish link ⟨middle, middleIn, rfl, lower⟩
  obtain ⟨child, edge, rfl⟩ := valid.child_of_nestedLink apart middleIn link
  exact ⟨child, (valid.ends _ edge).1, rfl, le_trans (valid.rises _ edge).le lower⟩

/-- The cycle guard lets every rising nesting through. -/
theorem wouldCycle_eq_false {child parent : Node} (childIn : child ∈ lattice.held)
    (parentIn : parent ∈ lattice.held) (rises : child.rank < parent.rank) (depth : Nat) :
    wouldCycle depth lattice.toGroups parent.cn (base.groupDn child.cn) = false := by
  cases refused : wouldCycle depth lattice.toGroups parent.cn (base.groupDn child.cn) with
  | false => rfl
  | true =>
      obtain ⟨group, inTree, sameCn, length, walk⟩ := walk_of_wouldCycle refused
      obtain ⟨entry, entryIn, rfl⟩ := List.mem_map.mp inTree
      obtain ⟨lower, lowerIn, sameKey, low⟩ := valid.rank_le_of_walk apart childIn walk
      have sameNode : entry.1 = parent :=
        (apart.lc_cn_inj (valid.over_of_mem entryIn) (valid.isOver parent parentIn)).mp
          (congrArg lc sameCn)
      have lowerEq : entry.1 = lower :=
        (key_inj apart (valid.over_of_mem entryIn) (valid.isOver lower lowerIn)).mp sameKey
      rw [← lowerEq, sameNode] at low
      omega

/-- Appending an edge appends one member to the entry of its parent. -/
theorem toGroups_append_edge (parent : Node × base.UserDn) (child : Node)
    (parentIn : parent ∈ lattice.nodes) :
    ({ lattice with edges := lattice.edges ++ [(child, parent.1)] } : Lattice base).toGroups =
      lattice.toGroups.map fun other =>
        if lc other.dn == lc (lattice.toGroup parent).dn then
          { other with member := other.member ++ [base.groupDn child.cn] }
        else other := by
  simp only [toGroups, List.map_map]
  apply List.map_congr_left
  intro entry entryIn
  have sameKey : lc (base.groupDn entry.1.cn) = lc (base.groupDn parent.1.cn) ↔
      entry.1 = parent.1 :=
    key_inj apart (valid.over_of_mem entryIn) (valid.over_of_mem parentIn)
  by_cases same : entry.1 = parent.1
  · simp [toGroup, same]
  · have different : parent.1 ≠ entry.1 := fun equal => same equal.symm
    simp [toGroup, sameKey, same, different]

theorem nestGroup_toGroups {child parent : Node} (childOver : child.Over sites)
    (parentOver : parent.Over sites) (rises : child.rank < parent.rank) :
    nestGroup base lattice.toGroups child.cn parent.cn =
      (lattice.nest (child, parent)).toGroups := by
  by_cases parentIn : parent ∈ lattice.held
  · obtain ⟨parentOwner, parentEntry⟩ := mem_held.mp parentIn
    by_cases childIn : child ∈ lattice.held
    · obtain ⟨childOwner, childEntry⟩ := mem_held.mp childIn
      have getParent := valid.get_toGroups apart parentEntry
      have getChild := valid.get_toGroups apart childEntry
      have noCycle := valid.wouldCycle_eq_false apart childIn parentIn rises base.maxNestingDepth
      have listed : (lattice.toGroup (parent, parentOwner)).member.any
          (fun member => lc member == lc (base.groupDn child.cn)) = true ↔
            (child, parent) ∈ lattice.edges := by
        simp only [toGroup, List.any_cons, List.any_map, Bool.or_eq_true, beq_iff_eq,
          parentOwner.notGroup, false_or, List.any_eq_true, List.mem_filter,
          decide_eq_true_eq, Function.comp_apply]
        constructor
        · rintro ⟨edge, ⟨inEdges, sameParent⟩, sameKey⟩
          have sameChild := (key_inj apart (valid.isOver _ (valid.ends edge inEdges).1)
            childOver).mp sameKey
          rwa [← sameChild, ← sameParent]
        · intro inEdges
          exact ⟨(child, parent), ⟨inEdges, rfl⟩, rfl⟩
      simp only [nestGroup, getParent, getChild, bind, Except.bind,
        show (lattice.toGroup (child, childOwner)).dn = base.groupDn child.cn from rfl,
        noCycle, Group.addMember]
      by_cases present : (child, parent) ∈ lattice.edges
      · simp [Lattice.nest, present, listed.mpr present]
      · have absent := Bool.eq_false_iff.mpr fun hit => present (listed.mp hit)
        simp only [absent, Bool.false_eq_true, if_false]
        rw [← valid.toGroups_append_edge apart (parent, parentOwner) child parentEntry]
        simp [Lattice.nest, present, parentIn, childIn]
    · have missing := valid.get_toGroups_of_not_held apart childOver childIn
      simp [nestGroup, valid.get_toGroups apart parentEntry, missing, bind, Except.bind,
        Lattice.nest, childIn]
  · have missing := valid.get_toGroups_of_not_held apart parentOver parentIn
    simp [nestGroup, missing, bind, Except.bind, Lattice.nest, parentIn]

theorem ensureGroup_toGroups {node : Node} (isOver : node.Over sites) (owner : base.UserDn) :
    (ensureGroup base lattice.toGroups node.cn owner.dn).1 =
      (lattice.create owner node).toGroups := by
  have taken : lattice.toGroups.any (fun group => lc group.dn == lc (base.groupDn node.cn)) =
      true ↔ node ∈ lattice.held := by
    simp only [toGroups, List.any_map, List.any_eq_true, Function.comp_apply, beq_iff_eq]
    constructor
    · rintro ⟨entry, entryIn, sameKey⟩
      have same := (key_inj apart (valid.over_of_mem entryIn) isOver).mp sameKey
      rw [← same]
      exact List.mem_map_of_mem entryIn
    · intro member
      obtain ⟨owner, entryIn⟩ := mem_held.mp member
      exact ⟨(node, owner), entryIn, rfl⟩
  by_cases member : node ∈ lattice.held
  · simp [ensureGroup, Group.add, taken.mpr member, Lattice.create, member]
  · have free := Bool.eq_false_iff.mpr fun hit => member (taken.mp hit)
    have noEdges : lattice.edges.filter (·.2 = node) = [] := by
      rw [List.filter_eq_nil_iff]
      intro edge inEdges same
      apply member
      rw [← of_decide_eq_true same]
      exact (valid.ends edge inEdges).2
    have added : ({ lattice with nodes := lattice.nodes ++ [(node, owner)] } :
        Lattice base).toGroups =
          lattice.toGroups ++ [⟨base.groupDn node.cn, node.cn, [owner.dn]⟩] := by
      simp only [toGroups, List.map_append, List.map_cons, List.map_nil]
      simp [toGroup, noEdges]
    rw [Lattice.create, if_neg member, added]
    simp [ensureGroup, Group.add, free]

end Valid

end Lattice

end ThetaDirectory.Groups
