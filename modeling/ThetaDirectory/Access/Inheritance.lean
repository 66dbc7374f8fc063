import Mathlib.Logic.Relation
import Mathlib.Order.Bounds.Basic
import Mathlib.Order.MinMax
import ThetaDirectory.Catalog.Edge
import ThetaDirectory.Library.JsMap
import ThetaDirectory.Library.Worklist

/-!
# Grants inherited down the catalogue

`services/access_inheritance.js`: the rank of a level, and the breadth-first walk
that carries every direct grant to the resources below it.
-/

namespace ThetaDirectory.Access

open Catalog Library

/-! ## Ranks -/

def levelRank : List (String × Nat) :=
  [("viewer", 1), ("member", 1), ("access", 2), ("admin", 3), ("owner", 4)]

/-- The rank of a level.  A level that is undefined or not in the table has
rank 0. -/
def rankOf (level : Option String) : Nat :=
  (levelRank.lookup (toLowerCase (level.getD ""))).getD 0

def strongest (left right : Option String) : Option String :=
  if rankOf right ≤ rankOf left then left else right

theorem rankOf_none : rankOf none = 0 := by decide

theorem rankOf_le (level : Option String) : rankOf level ≤ 4 := by
  unfold rankOf
  cases found : levelRank.lookup (toLowerCase (level.getD "")) with
  | none => simp
  | some rank =>
      obtain ⟨front, back, split, -⟩ := List.lookup_eq_some_iff.mp found
      have member : (toLowerCase (level.getD ""), rank) ∈ levelRank := by simp [split]
      simp only [levelRank, List.mem_cons, Prod.mk.injEq, List.not_mem_nil, or_false] at member
      rw [Option.getD_some]
      omega

@[simp] theorem rankOf_strongest (left right : Option String) :
    rankOf (strongest left right) = max (rankOf left) (rankOf right) := by
  unfold strongest
  split <;> omega

/-! ## The walk -/

/-- Levels by resource.  The level of an entry may be undefined. -/
abbrev Grants := JsMap (Option String)

/-- The level of a resource, undefined when there is no entry. -/
def levelAt (grants : Grants) (id : String) : Option String := (grants.lookup id).join

/-- The rank a resource has. -/
def rankAt (grants : Grants) (id : String) : Nat := rankOf (levelAt grants id)

/-- Offer a level to a child, and enqueue the child if that raises it. -/
def offer (level : Option String) (state : Grants × List (String × Option String))
    (childId : String) : Grants × List (String × Option String) :=
  let current := levelAt state.1 childId
  let next := strongest current level
  if rankOf current < rankOf next then
    (state.1.insert childId next, state.2 ++ [(childId, next)])
  else state

/-- One round of the walk: the new levels and the items to enqueue. -/
def visitGrant (edges : List ResourceEdge) (effective : Grants)
    (item : String × Option String) : Grants × List (String × Option String) :=
  if rankOf item.2 < rankAt effective item.1 then (effective, [])
  else (childrenOf edges item.1).foldl (offer item.2) (effective, [])

/-- The queue the walk starts from. -/
def grantQueue (directGrants : Grants) : List (String × Option String) :=
  directGrants.entries.map fun entry => (entry.1, entry.2)

/-- Enough rounds for every resource to be raised through all ranks. -/
def grantFuel (directGrants : Grants) (edges : List ResourceEdge) : Nat :=
  (grantQueue directGrants).length + 4 * edges.length

/-- The walk: its levels and what is left of its queue. -/
def propagate (directGrants : Grants) (edges : List ResourceEdge) :
    Grants × List (String × Option String) :=
  Worklist.drain (visitGrant edges) (grantFuel directGrants edges) directGrants
    (grantQueue directGrants)

/-- Grants that do not inherit are added after the walk. -/
def addNonInheriting (effective nonInheriting : Grants) : Grants :=
  nonInheriting.entries.foldl
    (fun effective entry =>
      effective.insert entry.1 (strongest (levelAt effective entry.1) entry.2)) effective

def effectiveGrants (directGrants : Grants) (edges : List ResourceEdge)
    (nonInheriting : Grants) : Grants :=
  addNonInheriting (propagate directGrants edges).1 nonInheriting

/-! ## Offering a level to the children -/

theorem levelAt_insert (grants : Grants) (id other : String) (level : Option String) :
    levelAt (grants.insert id level) other = if other = id then level else levelAt grants other := by
  unfold levelAt
  rw [JsMap.lookup_insert]
  split <;> rfl

theorem rankAt_eq_zero_of_notMem {grants : Grants} {id : String} (absent : id ∉ grants) :
    rankAt grants id = 0 := by
  rw [rankAt, levelAt, AList.lookup_eq_none.mpr absent]
  exact rankOf_none

theorem mem_of_rankAt_pos {grants : Grants} {id : String} (positive : 0 < rankAt grants id) :
    id ∈ grants := by
  by_contra absent
  rw [rankAt_eq_zero_of_notMem absent] at positive
  exact absurd positive (lt_irrefl 0)

/-- What one offer does: a weaker child takes the level and is enqueued. -/
theorem offer_eq (level : Option String) (state : Grants × List (String × Option String))
    (childId : String) :
    offer level state childId =
      if rankAt state.1 childId < rankOf level then
        (state.1.insert childId level, state.2 ++ [(childId, level)])
      else state := by
  have raises : rankOf (levelAt state.1 childId) <
      rankOf (strongest (levelAt state.1 childId) level) ↔
        rankAt state.1 childId < rankOf level := by
    rw [rankOf_strongest, rankAt]
    omega
  unfold offer
  by_cases weaker : rankAt state.1 childId < rankOf level
  · rw [if_pos weaker]
    simp only [raises.mpr weaker, if_true]
    rw [strongest, if_neg (by rw [rankAt] at weaker; omega)]
  · rw [if_neg weaker]
    simp only [mt raises.mp weaker, if_false]

/-- The room left for raising the resources of a list. -/
def room (ids : List String) (grants : Grants) : Nat :=
  (ids.map fun id => 4 - rankAt grants id).sum

theorem rankAt_insert (grants : Grants) (id other : String) (level : Option String) :
    rankAt (grants.insert id level) other =
      if other = id then rankOf level else rankAt grants other := by
  unfold rankAt
  rw [levelAt_insert]
  split <;> rfl

/-- Raising a resource never makes room. -/
theorem room_insert_le {ids : List String} {grants : Grants} {id : String}
    {level : Option String} (weaker : rankAt grants id < rankOf level) :
    room ids (grants.insert id level) ≤ room ids grants := by
  induction ids with
  | nil => simp [room]
  | cons head ids ih =>
      simp only [room, List.map_cons, List.sum_cons, rankAt_insert] at ih ⊢
      split_ifs with same
      · subst same
        omega
      · omega

/-- Raising a resource of the list takes room. -/
theorem room_insert_lt {ids : List String} {grants : Grants} {id : String}
    {level : Option String} (member : id ∈ ids) (weaker : rankAt grants id < rankOf level) :
    room ids (grants.insert id level) + 1 ≤ room ids grants := by
  have bound := rankOf_le level
  induction ids with
  | nil => simp at member
  | cons head ids ih =>
      rcases List.mem_cons.mp member with rfl | later
      · have rest := @room_insert_le ids _ _ _ weaker
        simp only [room, List.map_cons, List.sum_cons, rankAt_insert, if_true] at rest ⊢
        omega
      · have tail := ih later
        simp only [room, List.map_cons, List.sum_cons, rankAt_insert] at tail ⊢
        split_ifs with same
        · subst same
          omega
        · omega

/-- What offering a level to a list of children does. -/
structure Offered (level : Option String) (children : List String) (before after : Grants)
    (pushed : List (String × Option String)) : Prop where
  rank : ∀ id, rankAt after id =
    if id ∈ children then max (rankAt before id) (rankOf level) else rankAt before id
  mem : ∀ id, id ∈ after → id ∈ before ∨ 0 < rankAt after id
  keeps : ∀ id, id ∈ before → id ∈ after
  queued : ∀ item ∈ pushed, item.1 ∈ children ∧ item.2 = level
  raised : ∀ id, rankAt before id < rankAt after id → (id, level) ∈ pushed
  pays : ∀ ids, children ⊆ ids → room ids after + pushed.length ≤ room ids before

theorem offered_foldl (level : Option String) (children : List String) (effective : Grants) :
    Offered level children effective (children.foldl (offer level) (effective, [])).1
      (children.foldl (offer level) (effective, [])).2 := by
  induction children using List.reverseRecOn with
  | nil =>
      constructor
      · simp
      · exact fun id member => Or.inl member
      · exact fun id member => member
      · simp
      · simp
      · simp
  | append_singleton children child ih =>
      rw [List.foldl_append, List.foldl_cons, List.foldl_nil, offer_eq]
      generalize children.foldl (offer level) (effective, []) = state at ih ⊢
      obtain ⟨after, pushed⟩ := state
      dsimp only at ih ⊢
      have childRank := ih.rank child
      by_cases weaker : rankAt after child < rankOf level
      · rw [if_pos weaker]
        constructor
        · intro id
          rw [rankAt_insert, ih.rank]
          simp only [List.mem_append, List.mem_singleton]
          by_cases same : id = child
          · subst same
            have below : rankAt effective id ≤ rankAt after id := by
              rw [childRank]
              split
              · exact le_max_left _ _
              · exact le_rfl
            simp only [or_true, if_true]
            rw [max_eq_right (le_trans below weaker.le)]
          · simp [same]
        · intro id member
          rw [rankAt_insert]
          rw [AList.mem_insert] at member
          split_ifs with same
          · exact Or.inr (by omega)
          · exact ih.mem id (member.resolve_left same)
        · intro id member
          exact (AList.mem_insert _).mpr (Or.inr (ih.keeps id member))
        · intro item member
          rcases List.mem_append.mp member with old | new
          · exact ⟨List.mem_append_left _ (ih.queued item old).1, (ih.queued item old).2⟩
          · rw [List.mem_singleton.mp new]
            exact ⟨by simp, rfl⟩
        · intro id raised
          rw [rankAt_insert] at raised
          split_ifs at raised with same
          · simp [same]
          · exact List.mem_append_left _ (ih.raised id raised)
        · intro ids subset
          have earlier := ih.pays ids fun id member => subset (List.mem_append_left _ member)
          have taken := room_insert_lt (subset (by simp)) weaker
          simp only [List.length_append, List.length_cons, List.length_nil]
          omega
      · rw [if_neg weaker]
        constructor
        · intro id
          rw [ih.rank]
          simp only [List.mem_append, List.mem_singleton]
          by_cases same : id = child
          · subst same
            simp only [or_true, if_true]
            split
            · rfl
            · rename_i outside
              rw [if_neg outside] at childRank
              rw [max_eq_left (childRank ▸ not_lt.mp weaker)]
          · simp [same]
        · exact ih.mem
        · exact ih.keeps
        · exact fun item member =>
            ⟨List.mem_append_left _ (ih.queued item member).1, (ih.queued item member).2⟩
        · exact ih.raised
        · exact fun ids subset => ih.pays ids fun id member =>
            subset (List.mem_append_left _ member)

/-! ## The invariant of the walk -/

/-- A resource above another one, at any distance from one up. -/
def IsAncestor (edges : List ResourceEdge) (above below : String) : Prop :=
  Relation.TransGen (IsChild edges) above below

/-- Between rounds every level is justified by a grant at or above the resource,
and a child weaker than its parent is explained by a queued item. -/
structure WalkInv (directGrants : Grants) (edges : List ResourceEdge) (effective : Grants)
    (queue : List (String × Option String)) : Prop where
  mem : ∀ id ∈ effective, id ∈ directGrants ∨ 0 < rankAt effective id
  base : ∀ id ∈ directGrants, id ∈ effective
  atLeast : ∀ id, rankAt directGrants id ≤ rankAt effective id
  justified : ∀ id, ∃ source, Relation.ReflTransGen (IsChild edges) source id ∧
    rankAt effective id ≤ rankAt directGrants source
  queued : ∀ item ∈ queue, rankOf item.2 ≤ rankAt effective item.1
  carried : ∀ parent child, IsChild edges parent child →
    rankAt effective parent ≤ rankAt effective child ∨
      ∃ level, (parent, level) ∈ queue ∧ rankOf level = rankAt effective parent

theorem walkInv_initial (directGrants : Grants) (edges : List ResourceEdge) :
    WalkInv directGrants edges directGrants (grantQueue directGrants) where
  mem id member := Or.inl member
  base id member := member
  atLeast id := le_rfl
  justified id := ⟨id, .refl, le_rfl⟩
  queued := by
    intro item member
    obtain ⟨entry, inGrants, rfl⟩ := List.mem_map.mp member
    rw [rankAt, levelAt, AList.mem_lookup_iff.mpr inGrants]
    exact le_rfl
  carried := by
    intro parent child edge
    by_cases granted : parent ∈ directGrants
    · obtain ⟨level, found⟩ := JsMap.mem_iff_lookup.mp granted
      refine Or.inr ⟨level, List.mem_map.mpr ⟨⟨parent, level⟩, ?_, rfl⟩, ?_⟩
      · exact AList.mem_lookup_iff.mp found
      · rw [rankAt, levelAt, found, Option.join_some]
    · rw [rankAt_eq_zero_of_notMem granted]
      exact Or.inl (Nat.zero_le _)

/-- One round keeps the invariant. -/
theorem WalkInv.visit {directGrants effective : Grants} {edges : List ResourceEdge}
    {item : String × Option String} {queue : List (String × Option String)}
    (inv : WalkInv directGrants edges effective (item :: queue)) :
    WalkInv directGrants edges (visitGrant edges effective item).1
      (queue ++ (visitGrant edges effective item).2) := by
  obtain ⟨id, level⟩ := item
  have recorded := inv.queued (id, level) List.mem_cons_self
  unfold visitGrant
  by_cases stale : rankOf level < rankAt effective id
  · rw [if_pos stale, List.append_nil]
    refine ⟨inv.mem, inv.base, inv.atLeast, inv.justified,
      fun item member => inv.queued item (List.mem_cons_of_mem _ member), ?_⟩
    intro parent child edge
    rcases inv.carried parent child edge with carried | ⟨other, member, same⟩
    · exact Or.inl carried
    · rcases List.mem_cons.mp member with first | later
      · obtain ⟨rfl, rfl⟩ := Prod.mk.inj first
        exact absurd same stale.ne
      · exact Or.inr ⟨other, later, same⟩
  · rw [if_neg stale]
    -- the popped item carries exactly the level recorded for its resource
    have current : rankOf level = rankAt effective id :=
      le_antisymm recorded (not_lt.mp stale)
    have step := offered_foldl level (childrenOf edges id) effective
    generalize (childrenOf edges id).foldl (offer level) (effective, []) = next at step ⊢
    obtain ⟨after, pushed⟩ := next
    dsimp only at step ⊢
    have grows : ∀ other, rankAt effective other ≤ rankAt after other := by
      intro other
      rw [step.rank]
      split
      · exact le_max_left _ _
      · exact le_rfl
    constructor
    · intro other member
      rcases step.mem other member with old | raised
      · rcases inv.mem other old with granted | positive
        · exact Or.inl granted
        · exact Or.inr (lt_of_lt_of_le positive (grows other))
      · exact Or.inr raised
    · exact fun other member => step.keeps other (inv.base other member)
    · exact fun other => le_trans (inv.atLeast other) (grows other)
    · intro other
      rw [step.rank]
      split
      · rename_i child
        rcases le_total (rankAt effective other) (rankOf level) with below | above
        · obtain ⟨source, path, bound⟩ := inv.justified id
          refine ⟨source, path.tail child, ?_⟩
          rw [max_eq_right below, current]
          exact bound
        · rw [max_eq_left above]
          exact inv.justified other
      · exact inv.justified other
    · intro item member
      rcases List.mem_append.mp member with old | new
      · exact le_trans (inv.queued item (List.mem_cons_of_mem _ old)) (grows item.1)
      · obtain ⟨child, levelEq⟩ := step.queued item new
        rw [step.rank, if_pos child, levelEq]
        exact le_max_right _ _
    · intro parent child edge
      by_cases raised : rankAt effective parent < rankAt after parent
      · have pushedParent := step.raised parent raised
        refine Or.inr ⟨level, List.mem_append_right _ pushedParent, ?_⟩
        rw [step.rank] at raised ⊢
        split_ifs at raised ⊢ with isChild
        · omega
        · omega
      · have unchanged : rankAt after parent = rankAt effective parent :=
          le_antisymm (not_lt.mp raised) (grows parent)
        rw [unchanged]
        by_cases visited : parent = id
        · subst visited
          left
          rw [step.rank child, if_pos (show child ∈ childrenOf edges parent from edge), ← current]
          exact le_max_right _ _
        · rcases inv.carried parent child edge with carried | ⟨other, member, same⟩
          · exact Or.inl (le_trans carried (grows child))
          · rcases List.mem_cons.mp member with first | later
            · exact absurd (Prod.mk.inj first).1 visited
            · exact Or.inr ⟨other, List.mem_append_left _ later, same⟩

/-- The resources that are the child of some edge. -/
def childIds (edges : List ResourceEdge) : List String :=
  (edges.filterMap ResourceEdge.ends).map Prod.snd

theorem childrenOf_subset (edges : List ResourceEdge) (id : String) :
    childrenOf edges id ⊆ childIds edges := by
  intro child member
  exact List.mem_map.mpr ⟨(id, child), isChild_iff.mp member, rfl⟩

theorem room_le (ids : List String) (grants : Grants) : room ids grants ≤ 4 * ids.length := by
  induction ids with
  | nil => simp [room]
  | cons head ids ih =>
      simp only [room, List.map_cons, List.sum_cons, List.length_cons] at ih ⊢
      omega

/-- The walk ends: its queue runs empty. -/
theorem propagate_empty (directGrants : Grants) (edges : List ResourceEdge) :
    (propagate directGrants edges).2 = [] := by
  refine Worklist.drain_empty (room (childIds edges)) ?_ ?_
  · intro effective item
    unfold visitGrant
    split
    · simp
    · exact (offered_foldl item.2 (childrenOf edges item.1) effective).pays _
        (childrenOf_subset edges item.1)
  · have bound := room_le (childIds edges) directGrants
    have short : (childIds edges).length ≤ edges.length := by
      simpa [childIds] using List.length_filterMap_le ResourceEdge.ends edges
    unfold grantFuel
    omega

theorem propagate_inv (directGrants : Grants) (edges : List ResourceEdge) :
    WalkInv directGrants edges (propagate directGrants edges).1 [] := by
  have final : WalkInv directGrants edges (propagate directGrants edges).1
      (propagate directGrants edges).2 :=
    Worklist.drain_invariant (fun effective item queue inv => inv.visit)
      (walkInv_initial directGrants edges)
  rwa [propagate_empty] at final

/-- Along a path down the levels never fall once the queue is empty. -/
theorem WalkInv.le_of_path {directGrants effective : Grants} {edges : List ResourceEdge}
    (inv : WalkInv directGrants edges effective []) {above below : String}
    (path : Relation.ReflTransGen (IsChild edges) above below) :
    rankAt effective above ≤ rankAt effective below := by
  induction path with
  | refl => exact le_rfl
  | tail earlier edge ih =>
      rcases inv.carried _ _ edge with carried | ⟨level, none, -⟩
      · exact le_trans ih carried
      · simp at none

/-! ## The result -/

theorem rankAt_foldl_addNonInheriting {entries : List (Sigma fun _ : String => Option String)}
    (distinct : entries.NodupKeys) (effective : Grants) (id : String) :
    let result := entries.foldl (fun effective entry =>
      effective.insert entry.1 (strongest (levelAt effective entry.1) entry.2)) effective
    (id ∈ result ↔ id ∈ effective ∨ id ∈ entries.keys) ∧
      rankAt result id =
        max (rankAt effective id) (rankOf (entries.dlookup id).join) := by
  induction entries generalizing effective with
  | nil => simp [rankOf_none]
  | cons entry entries ih =>
      obtain ⟨key, level⟩ := entry
      rw [List.nodupKeys_cons] at distinct
      obtain ⟨memRest, rankRest⟩ := ih distinct.2
        (effective.insert key (strongest (levelAt effective key) level))
      simp only [List.foldl_cons, List.keys_cons, List.mem_cons] at memRest ⊢
      refine ⟨?_, ?_⟩
      · rw [memRest, AList.mem_insert]
        grind
      · rw [rankRest, rankAt_insert]
        split
        · rename_i same
          subst same
          have absent : entries.dlookup id = none := List.dlookup_eq_none.mpr distinct.1
          rw [List.dlookup_cons_eq, absent, rankOf_strongest]
          simp [rankOf_none, rankAt]
        · rename_i different
          rw [List.dlookup_cons_ne _ _ different]

theorem rankAt_addNonInheriting (effective nonInheriting : Grants) (id : String) :
    rankAt (addNonInheriting effective nonInheriting) id =
      max (rankAt effective id) (rankAt nonInheriting id) :=
  (rankAt_foldl_addNonInheriting nonInheriting.nodupKeys effective id).2

theorem mem_addNonInheriting {effective nonInheriting : Grants} {id : String} :
    id ∈ addNonInheriting effective nonInheriting ↔ id ∈ effective ∨ id ∈ nonInheriting :=
  (rankAt_foldl_addNonInheriting nonInheriting.nodupKeys effective id).1

/-- The result has an entry exactly for the resources with a grant of their own and those
below a grant of positive rank. -/
theorem mem_effectiveGrants {directGrants nonInheriting : Grants} {edges : List ResourceEdge}
    {id : String} : id ∈ effectiveGrants directGrants edges nonInheriting ↔
      id ∈ directGrants ∨ id ∈ nonInheriting ∨
        ∃ above, IsAncestor edges above id ∧ 0 < rankAt directGrants above := by
  have inv := propagate_inv directGrants edges
  rw [effectiveGrants, mem_addNonInheriting]
  constructor
  · rintro (walked | added)
    · rcases inv.mem id walked with granted | positive
      · exact Or.inl granted
      · obtain ⟨source, path, bound⟩ := inv.justified id
        rcases Relation.reflTransGen_iff_eq_or_transGen.mp path with rfl | proper
        · exact Or.inl (mem_of_rankAt_pos (lt_of_lt_of_le positive bound))
        · exact Or.inr (Or.inr ⟨source, proper, lt_of_lt_of_le positive bound⟩)
    · exact Or.inr (Or.inl added)
  · rintro (granted | added | ⟨above, proper, positive⟩)
    · exact Or.inl (inv.base id granted)
    · exact Or.inr added
    · have reached := inv.le_of_path proper.to_reflTransGen
      have source := inv.atLeast above
      exact Or.inl (mem_of_rankAt_pos (by omega))

/-- A rank is reached exactly when a grant at or above the resource has it. -/
theorem le_rankAt_effectiveGrants {directGrants nonInheriting : Grants}
    {edges : List ResourceEdge} {id : String} {rank : Nat} :
    rank ≤ rankAt (effectiveGrants directGrants edges nonInheriting) id ↔
      (∃ above, Relation.ReflTransGen (IsChild edges) above id ∧
        rank ≤ rankAt directGrants above) ∨ rank ≤ rankAt nonInheriting id := by
  have inv := propagate_inv directGrants edges
  rw [effectiveGrants, rankAt_addNonInheriting, le_max_iff]
  refine or_congr_left ⟨fun reached => ?_, fun ⟨above, path, bound⟩ => ?_⟩
  · obtain ⟨source, path, bound⟩ := inv.justified id
    exact ⟨source, path, le_trans reached bound⟩
  · exact le_trans bound (le_trans (inv.atLeast above) (inv.le_of_path path))

/-- The walk ends, its result has an entry exactly for the resources with a grant
of their own and those below a grant of positive rank, and the rank of an entry
is the greatest among its own grants and the direct grants above it. -/
theorem effectiveGrants_isGreatest (directGrants : Grants) (edges : List ResourceEdge)
    (nonInheriting : Grants) :
    (propagate directGrants edges).2 = [] ∧ ∀ id,
      (id ∈ effectiveGrants directGrants edges nonInheriting ↔
        id ∈ directGrants ∨ id ∈ nonInheriting ∨
          ∃ above, IsAncestor edges above id ∧ 0 < rankAt directGrants above) ∧
      IsGreatest {rank | rank = rankAt directGrants id ∨
          (∃ above, IsAncestor edges above id ∧ rank = rankAt directGrants above) ∨
          rank = rankAt nonInheriting id}
        (rankAt (effectiveGrants directGrants edges nonInheriting) id) := by
  have inv := propagate_inv directGrants edges
  refine ⟨propagate_empty directGrants edges, fun id => ⟨?_, ?_, ?_⟩⟩
  · exact mem_effectiveGrants
  · rw [effectiveGrants, rankAt_addNonInheriting]
    rcases le_total (rankAt (propagate directGrants edges).1 id) (rankAt nonInheriting id) with
      below | above
    · rw [max_eq_right below]
      exact Or.inr (Or.inr rfl)
    · rw [max_eq_left above]
      obtain ⟨source, path, bound⟩ := inv.justified id
      have attained : rankAt (propagate directGrants edges).1 id = rankAt directGrants source :=
        le_antisymm bound (le_trans (inv.atLeast source) (inv.le_of_path path))
      rcases Relation.reflTransGen_iff_eq_or_transGen.mp path with rfl | proper
      · exact Or.inl attained
      · exact Or.inr (Or.inl ⟨source, proper, attained⟩)
  · rw [effectiveGrants, rankAt_addNonInheriting]
    rintro rank (rfl | ⟨above, proper, rfl⟩ | rfl)
    · exact le_trans (inv.atLeast id) (le_max_left _ _)
    · exact le_trans (le_trans (inv.atLeast above) (inv.le_of_path proper.to_reflTransGen))
        (le_max_left _ _)
    · exact le_max_right _ _

end ThetaDirectory.Access
