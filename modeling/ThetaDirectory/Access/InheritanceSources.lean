import ThetaDirectory.Access.Inheritance
import ThetaDirectory.Library.BreadthFirst

/-!
# Where an inherited grant comes from

`inheritanceSources` of `services/access_inheritance.js` walks the catalogue as `effectiveGrants`
does and carries a root beside the level.  The walk raises the resources of one rank as a
breadth-first search from the grants of that rank does, which says what root a resource is given.
-/

namespace ThetaDirectory.Access

open Catalog Library

/-! ## The walk -/

/-- The level a resource inherits and the resource it is said to come from. -/
structure Source where
  level : Option String
  fromResourceId : String
  deriving DecidableEq

/-- The maps `level` and `source`. -/
structure Sourcing where
  level : Grants
  source : JsMap Source

/-- A queued resource with its level and its root. -/
abbrev Sourced := String × Option String × String

section Walk

variable (directGrants : Grants) (edges : List ResourceEdge)

/-- Offer the level of an item to a child. -/
def pass (item : Sourced) (state : Sourcing × List Sourced) (childId : String) :
    Sourcing × List Sourced :=
  let next := strongest (levelAt state.1.level childId) item.2.1
  if rankOf (levelAt state.1.level childId) < rankOf next then
    ({ level := state.1.level.insert childId next
       source :=
        if childId ∈ directGrants then state.1.source
        else state.1.source.insert childId ⟨next, item.2.2⟩ },
      state.2 ++ [(childId, next, if item.1 ∈ directGrants then item.1 else item.2.2)])
  else state

def visitSource (state : Sourcing) (item : Sourced) : Sourcing × List Sourced :=
  if rankOf item.2.1 < rankAt state.level item.1 then (state, [])
  else (childrenOf edges item.1).foldl (pass directGrants item) (state, [])

def sourceQueue : List Sourced :=
  directGrants.entries.map fun entry => (entry.1, entry.2, entry.1)

/-- The walk: its maps and what is left of its queue. -/
def traceSources : Sourcing × List Sourced :=
  Worklist.drain (visitSource directGrants edges) (grantFuel directGrants edges) ⟨directGrants, ∅⟩
    (sourceQueue directGrants)

def inheritanceSources : JsMap Source := (traceSources directGrants edges).1.source

/-! ## What it should say -/

/-- The result explains the effective grants. -/
structure Explains : Prop where
  keys : ∀ id, id ∈ inheritanceSources directGrants edges ↔ id ∉ directGrants ∧
    ∃ above, IsAncestor edges above id ∧ 0 < rankAt directGrants above
  level : ∀ id source, (inheritanceSources directGrants edges).lookup id = some source →
    rankOf source.level = rankAt (effectiveGrants directGrants edges ∅) id
  origin : ∀ id source, (inheritanceSources directGrants edges).lookup id = some source →
    IsAncestor edges source.fromResourceId id ∧
      rankAt directGrants source.fromResourceId = rankAt (effectiveGrants directGrants edges ∅) id

/-- The rank a resource has in the end. -/
def finalRank (id : String) : Nat := rankAt (effectiveGrants directGrants edges ∅) id

/-- The grants that give a rank and are not outranked from above. -/
def grantsOfRank (rank : Nat) : List String :=
  ((sourceQueue directGrants).filter fun item =>
    rankOf item.2.1 = rank ∧ finalRank directGrants edges item.1 = rank).map Prod.fst

/-- The children to which no stronger grant comes down. -/
def childrenOfRank (rank : Nat) (id : String) : List String :=
  (childrenOf edges id).filter fun child => finalRank directGrants edges child = rank

/-- Breadth-first search from the grants of a rank, through resources to which no stronger grant
comes down, comes to the child first through the parent. -/
def FirstThrough (rank : Nat) : String → String → Prop :=
  BreadthFirst.FirstVia (childrenOfRank directGrants edges rank) (grantsOfRank directGrants edges rank)

/-- No resource above this one on its way from the grants of a rank has a weaker grant. -/
def Straight (rank : Nat) (id : String) : Prop :=
  ∀ above, Relation.TransGen (FirstThrough directGrants edges rank) above id →
    above ∈ directGrants → rankAt directGrants above = rank

/-- On the way down to a resource without a grant, a weaker grant is on its parent at most. -/
def Unshadowed : Prop :=
  ∀ id ∉ directGrants, 0 < finalRank directGrants edges id → ∀ parent,
    FirstThrough directGrants edges (finalRank directGrants edges id) parent id →
      Straight directGrants edges (finalRank directGrants edges id) parent

end Walk

/-! ## The levels are those of `effectiveGrants` -/

section Proofs

variable {directGrants : Grants} {edges : List ResourceEdge}

def Sourced.grant (item : Sourced) : String × Option String := (item.1, item.2.1)

theorem pass_eq (item : Sourced) (state : Sourcing × List Sourced) (childId : String) :
    pass directGrants item state childId =
      if rankAt state.1.level childId < rankOf item.2.1 then
        ({ level := state.1.level.insert childId item.2.1
           source :=
            if childId ∈ directGrants then state.1.source
            else state.1.source.insert childId ⟨item.2.1, item.2.2⟩ },
          state.2 ++ [(childId, item.2.1, if item.1 ∈ directGrants then item.1 else item.2.2)])
      else state := by
  have raises : rankOf (levelAt state.1.level childId) <
      rankOf (strongest (levelAt state.1.level childId) item.2.1) ↔
        rankAt state.1.level childId < rankOf item.2.1 := by
    rw [rankOf_strongest, rankAt]
    omega
  unfold pass
  by_cases weaker : rankAt state.1.level childId < rankOf item.2.1
  · have taken : strongest (levelAt state.1.level childId) item.2.1 = item.2.1 := by
      rw [strongest, if_neg (by rw [rankAt] at weaker; omega)]
    rw [if_pos weaker]
    simp only [taken, if_pos (show rankOf (levelAt state.1.level childId) < rankOf item.2.1 from weaker)]
  · rw [if_neg weaker]
    simp only [mt raises.mp weaker, if_false]

theorem offer_pass (item : Sourced) (state : Sourcing × List Sourced) (childId : String) :
    offer item.2.1 (state.1.level, state.2.map Sourced.grant) childId =
      ((pass directGrants item state childId).1.level,
        (pass directGrants item state childId).2.map Sourced.grant) := by
  rw [offer_eq, pass_eq]
  split
  · rw [List.map_append]
    rfl
  · rfl

theorem foldl_offer_pass (item : Sourced) (children : List String)
    (pair : Sourcing × List Sourced) :
    children.foldl (offer item.2.1) (pair.1.level, pair.2.map Sourced.grant) =
      ((children.foldl (pass directGrants item) pair).1.level,
        (children.foldl (pass directGrants item) pair).2.map Sourced.grant) := by
  induction children generalizing pair with
  | nil => rfl
  | cons child children ih => rw [List.foldl_cons, List.foldl_cons, offer_pass, ih]

theorem visitGrant_visitSource (state : Sourcing) (item : Sourced) :
    visitGrant edges state.level item.grant =
      ((visitSource directGrants edges state item).1.level,
        (visitSource directGrants edges state item).2.map Sourced.grant) := by
  obtain ⟨id, level, root⟩ := item
  change visitGrant edges state.level (id, level) = _
  unfold visitGrant visitSource
  by_cases stale : rankOf level < rankAt state.level id
  · rw [if_pos stale, if_pos stale]
    rfl
  · rw [if_neg stale, if_neg stale]
    exact foldl_offer_pass (id, level, root) _ (state, [])

/-- The walk raises levels as `effectiveGrants` does. -/
theorem propagate_eq_traceSources (directGrants : Grants) (edges : List ResourceEdge) :
    propagate directGrants edges = ((traceSources directGrants edges).1.level,
      (traceSources directGrants edges).2.map Sourced.grant) := by
  have queues : grantQueue directGrants = (sourceQueue directGrants).map Sourced.grant := by
    rw [grantQueue, sourceQueue, List.map_map]
    rfl
  rw [propagate, queues]
  exact Worklist.drain_map Sourcing.level Sourced.grant visitGrant_visitSource _ ⟨directGrants, ∅⟩ _

theorem traceSources_empty (directGrants : Grants) (edges : List ResourceEdge) :
    (traceSources directGrants edges).2 = [] := by
  have empty := propagate_empty directGrants edges
  rw [propagate_eq_traceSources] at empty
  exact List.map_eq_nil_iff.mp empty

theorem finalRank_eq (id : String) :
    finalRank directGrants edges id = rankAt (propagate directGrants edges).1 id := by
  have none : rankAt ∅ id = 0 := rankAt_eq_zero_of_notMem (AList.notMem_empty id)
  rw [finalRank, effectiveGrants, rankAt_addNonInheriting, none, Nat.max_zero]

/-- The level of a resource is at least that of its parents. -/
theorem finalRank_le_of_isChild (directGrants : Grants) {parent child : String} (edge : IsChild edges parent child) :
    finalRank directGrants edges parent ≤ finalRank directGrants edges child := by
  rw [finalRank_eq, finalRank_eq]
  exact (propagate_inv directGrants edges).le_of_path (.single edge)

/-- On its way the walk raises no level beyond the final one. -/
theorem rankAt_le_finalRank {effective : Grants} {queue : List (String × Option String)}
    (inv : WalkInv directGrants edges effective queue) (id : String) :
    rankAt effective id ≤ finalRank directGrants edges id := by
  obtain ⟨source, path, bound⟩ := inv.justified id
  rw [finalRank_eq]
  have walked := propagate_inv directGrants edges
  exact bound.trans ((walked.atLeast source).trans (walked.le_of_path path))

/-! ## What a round does to the sources and the queue -/

/-- What passing the level of an item to its children does beside raising levels. -/
structure Passed (directGrants : Grants) (item : Sourced) (children : List String)
    (before after : Sourcing) (pushed : List Sourced) : Prop where
  source : ∀ id, after.source.lookup id =
    if id ∈ children ∧ id ∉ directGrants ∧ rankAt before.level id < rankOf item.2.1 then
      some ⟨item.2.1, item.2.2⟩
    else before.source.lookup id
  queued : ∀ entry ∈ pushed, entry.1 ∈ children ∧
    entry.2 = (item.2.1, if item.1 ∈ directGrants then item.1 else item.2.2)

theorem offered_foldl_pass (item : Sourced) (children : List String) (state : Sourcing) :
    Offered item.2.1 children state.level (children.foldl (pass directGrants item) (state, [])).1.level
      ((children.foldl (pass directGrants item) (state, [])).2.map Sourced.grant) := by
  have offered := offered_foldl item.2.1 children state.level
  have folded : children.foldl (offer item.2.1) (state.level, []) = _ :=
    @foldl_offer_pass directGrants item children (state, [])
  rwa [folded] at offered

theorem passed_foldl (item : Sourced) (children : List String) (state : Sourcing) :
    Passed directGrants item children state
      (children.foldl (pass directGrants item) (state, [])).1
      (children.foldl (pass directGrants item) (state, [])).2 := by
  induction children using List.reverseRecOn with
  | nil =>
      constructor
      · simp
      · exact List.forall_mem_nil _
  | append_singleton children child ih =>
      have ranks := (@offered_foldl_pass directGrants item children state).rank child
      rw [List.foldl_append, List.foldl_cons, List.foldl_nil, pass_eq]
      generalize children.foldl (pass directGrants item) (state, []) = pair at ih ranks ⊢
      obtain ⟨after, pushed⟩ := pair
      dsimp only at ih ranks ⊢
      by_cases weaker : rankAt after.level child < rankOf item.2.1
      · rw [if_pos weaker]
        have outside : child ∉ children := by
          intro member
          rw [if_pos member] at ranks
          have bound := le_max_right (rankAt state.level child) (rankOf item.2.1)
          omega
        rw [if_neg outside] at ranks
        constructor
        · intro id
          have before := ih.source id
          by_cases granted : child ∈ directGrants
          · rw [if_pos granted, before]
            grind
          · rw [if_neg granted, JsMap.lookup_insert, before]
            grind
        · intro entry member
          rcases List.mem_append.mp member with old | new
          · exact ⟨List.mem_append_left _ (ih.queued entry old).1, (ih.queued entry old).2⟩
          · rw [List.mem_singleton.mp new]
            exact ⟨by simp, rfl⟩
      · rw [if_neg weaker]
        have known : child ∈ children ∨ ¬ rankAt state.level child < rankOf item.2.1 := by
          by_cases member : child ∈ children
          · exact Or.inl member
          · rw [if_neg member] at ranks
            exact Or.inr (ranks ▸ weaker)
        constructor
        · intro id
          rw [ih.source id]
          grind
        · exact fun entry member =>
            ⟨List.mem_append_left _ (ih.queued entry member).1, (ih.queued entry member).2⟩

/-! ## The resources of one rank -/

/-- The item raises a resource to its final rank, which is the one in question. -/
def OfRank (directGrants : Grants) (edges : List ResourceEdge) (rank : Nat) (item : Sourced) : Prop :=
  rankOf item.2.1 = rank ∧ finalRank directGrants edges item.1 = rank

instance (rank : Nat) : DecidablePred (OfRank directGrants edges rank) :=
  fun _ => inferInstanceAs (Decidable (_ ∧ _))

/-- The resources of the rank that have it already are those that the search has reached. -/
def Aligned (directGrants : Grants) (edges : List ResourceEdge) (rank : Nat) (level : Grants)
    (tree : List (String × String)) : Prop :=
  ∀ id, finalRank directGrants edges id = rank →
    (rankAt level id = rank ↔ BreadthFirst.Seen (grantsOfRank directGrants edges rank) tree id)

variable {rank : Nat} {item : Sourced}

/-- Passing on the rank reaches the children that the search reaches. -/
theorem foldl_pass_reach (ranked : rankOf item.2.1 = rank) {children : List String}
    (above : ∀ child ∈ children, rank ≤ finalRank directGrants edges child)
    {pair : Sourcing × List Sourced} {state : List (String × String) × List String}
    (bounded : ∀ id, rankAt pair.1.level id ≤ finalRank directGrants edges id)
    (aligned : Aligned directGrants edges rank pair.1.level state.1)
    (queues : (pair.2.filter (OfRank directGrants edges rank)).map Prod.fst = state.2) :
    Aligned directGrants edges rank (children.foldl (pass directGrants item) pair).1.level
        ((children.filter fun child => finalRank directGrants edges child = rank).foldl
          (BreadthFirst.reach (grantsOfRank directGrants edges rank) item.1) state).1 ∧
      ((children.foldl (pass directGrants item) pair).2.filter
          (OfRank directGrants edges rank)).map Prod.fst =
        ((children.filter fun child => finalRank directGrants edges child = rank).foldl
          (BreadthFirst.reach (grantsOfRank directGrants edges rank) item.1) state).2 := by
  induction children generalizing pair state with
  | nil => exact ⟨aligned, queues⟩
  | cons child children ih =>
      have later := fun id member => above id (List.mem_cons_of_mem child member)
      have own := above child List.mem_cons_self
      have bound := bounded child
      rw [List.foldl_cons, pass_eq]
      by_cases final : finalRank directGrants edges child = rank
      · have kept : decide (finalRank directGrants edges child = rank) = true := decide_eq_true final
        rw [List.filter_cons, if_pos kept, List.foldl_cons, BreadthFirst.reach]
        have unseen : rankAt pair.1.level child < rankOf item.2.1 ↔
            ¬ BreadthFirst.Seen (grantsOfRank directGrants edges rank) state.1 child := by
          rw [← aligned child final, ranked]
          omega
        by_cases weaker : rankAt pair.1.level child < rankOf item.2.1
        · rw [if_pos weaker, if_neg (unseen.mp weaker)]
          apply ih later
          · intro id
            rw [rankAt_insert]
            split
            · rename_i same
              rw [same, ranked, final]
            · exact bounded id
          · intro id finals
            rw [rankAt_insert]
            by_cases same : id = child
            · rw [if_pos same, same]
              exact iff_of_true ranked (Or.inr (by simp))
            · rw [if_neg same, aligned id finals]
              simp [BreadthFirst.Seen, same]
          · rw [List.filter_append, List.map_append, queues,
              List.filter_cons, if_pos (decide_eq_true ⟨ranked, final⟩)]
            rfl
        · rw [if_neg weaker, if_pos (not_not.mp (mt unseen.mpr weaker))]
          exact ih later bounded aligned queues
      · have dropped : ¬ decide (finalRank directGrants edges child = rank) = true :=
          mt of_decide_eq_true final
        rw [List.filter_cons, if_neg dropped]
        split
        · apply ih later
          · intro id
            rw [rankAt_insert]
            split
            · rename_i same
              rw [same, ranked]
              exact own
            · exact bounded id
          · intro id finals
            rw [rankAt_insert, if_neg (fun same : id = child => final (same ▸ finals))]
            exact aligned id finals
          · have beside : ¬ OfRank directGrants edges rank
                (child, item.2.1, if item.1 ∈ directGrants then item.1 else item.2.2) :=
              fun both => final both.2
            rw [List.filter_append, List.map_append, queues, List.filter_cons,
              if_neg (mt of_decide_eq_true beside), List.filter_nil, List.map_nil, List.append_nil]
        · exact ih later bounded aligned queues

/-- A round on an item of the rank is a round of the search. -/
theorem exists_round {id root : String} {level : Option String} {state : Sourcing}
    {queue : List Sourced} {fuel : Nat} {tree : List (String × String)}
    (inv : WalkInv directGrants edges state.level (((id, level, root) :: queue).map Sourced.grant))
    (ofRank : OfRank directGrants edges rank (id, level, root))
    (reached : BreadthFirst.after (childrenOfRank directGrants edges rank)
      (grantsOfRank directGrants edges rank) fuel = (tree,
        id :: (queue.filter (OfRank directGrants edges rank)).map Prod.fst))
    (aligned : Aligned directGrants edges rank state.level tree) :
    ∃ grown, BreadthFirst.after (childrenOfRank directGrants edges rank)
        (grantsOfRank directGrants edges rank) (fuel + 1) = (grown,
          ((queue ++ ((childrenOf edges id).foldl (pass directGrants (id, level, root))
            (state, [])).2).filter (OfRank directGrants edges rank)).map Prod.fst) ∧
      Aligned directGrants edges rank ((childrenOf edges id).foldl
        (pass directGrants (id, level, root)) (state, [])).1.level grown ∧
      ∀ entry ∈ ((childrenOf edges id).foldl (pass directGrants (id, level, root)) (state, [])).2,
        OfRank directGrants edges rank entry → FirstThrough directGrants edges rank id entry.1 := by
  have above : ∀ child ∈ childrenOf edges id, rank ≤ finalRank directGrants edges child :=
    fun child member => ofRank.2 ▸ finalRank_le_of_isChild directGrants member
  have bounded := rankAt_le_finalRank inv
  obtain ⟨alike, pushed⟩ := @foldl_pass_reach directGrants edges rank (id, level, root) ofRank.1
    (childrenOf edges id) above (state, []) (tree, []) bounded aligned rfl
  have next := BreadthFirst.after_succ reached
  refine ⟨_, ?_, alike, ?_⟩
  · rw [next, List.filter_append, List.map_append, pushed]
    rfl
  · intro entry member ranked
    have inQueue : entry.1 ∈ (BreadthFirst.round (childrenOfRank directGrants edges rank)
        (grantsOfRank directGrants edges rank) tree id).2 := by
      unfold BreadthFirst.round childrenOfRank
      rw [← pushed]
      exact List.mem_map_of_mem (List.mem_filter.mpr ⟨member, decide_eq_true ranked⟩)
    refine ⟨fuel + 1, ?_⟩
    rw [next]
    exact BreadthFirst.mem_foldl_reach _ (List.forall_mem_nil _) _ inQueue

/-- An item that passes the rank on to a resource of the rank is of the rank. -/
theorem ofRank_of_child {id child : String} (root : String) {level : Option String} {effective : Grants}
    (bounded : ∀ id, rankAt effective id ≤ finalRank directGrants edges id)
    (current : rankAt effective id = rankOf level) (isChild : child ∈ childrenOf edges id)
    (final : finalRank directGrants edges child = rank) (ranked : rankOf level = rank) :
    OfRank directGrants edges rank (id, level, root) := by
  have below := finalRank_le_of_isChild directGrants isChild
  have bound := bounded id
  refine ⟨ranked, ?_⟩
  dsimp only
  omega

/-- A round on any item leaves the walk where the search has come to. -/
theorem exists_search {id root : String} {level : Option String} {state : Sourcing}
    {queue : List Sourced} {fuel : Nat} {tree : List (String × String)}
    (inv : WalkInv directGrants edges state.level (((id, level, root) :: queue).map Sourced.grant))
    (current : rankAt state.level id = rankOf level)
    (reached : BreadthFirst.after (childrenOfRank directGrants edges rank)
      (grantsOfRank directGrants edges rank) fuel = (tree,
        (((id, level, root) :: queue).filter (OfRank directGrants edges rank)).map Prod.fst))
    (aligned : Aligned directGrants edges rank state.level tree) :
    (∃ fuel grown, BreadthFirst.after (childrenOfRank directGrants edges rank)
        (grantsOfRank directGrants edges rank) fuel = (grown,
          ((queue ++ ((childrenOf edges id).foldl (pass directGrants (id, level, root))
            (state, [])).2).filter (OfRank directGrants edges rank)).map Prod.fst) ∧
      Aligned directGrants edges rank ((childrenOf edges id).foldl
        (pass directGrants (id, level, root)) (state, [])).1.level grown) ∧
      ∀ entry ∈ ((childrenOf edges id).foldl (pass directGrants (id, level, root)) (state, [])).2,
        OfRank directGrants edges rank entry → FirstThrough directGrants edges rank id entry.1 := by
  have bounded := rankAt_le_finalRank inv
  by_cases ofRank : OfRank directGrants edges rank (id, level, root)
  · rw [List.filter_cons, if_pos (decide_eq_true ofRank), List.map_cons] at reached
    obtain ⟨grown, next, alike, through⟩ := exists_round inv ofRank reached aligned
    exact ⟨⟨fuel + 1, grown, next, alike⟩, through⟩
  · -- The item raises no resource of the rank to the rank.
    rw [List.filter_cons, if_neg (mt of_decide_eq_true ofRank)] at reached
    have step := @offered_foldl_pass directGrants (id, level, root) (childrenOf edges id) state
    have passed := @passed_foldl directGrants (id, level, root) (childrenOf edges id) state
    generalize (childrenOf edges id).foldl (pass directGrants (id, level, root)) (state, []) = next
      at step passed ⊢
    have none : ∀ entry ∈ next.2, ¬ OfRank directGrants edges rank entry := by
      intro entry member ranked
      obtain ⟨isChild, passedOn⟩ := passed.queued entry member
      have levels : rankOf level = rank := by
        rw [← ranked.1, passedOn]
      exact ofRank (ofRank_of_child root bounded current isChild ranked.2 levels)
    have empty : next.2.filter (OfRank directGrants edges rank) = [] :=
      List.filter_eq_nil_iff.mpr fun entry member => mt of_decide_eq_true (none entry member)
    refine ⟨⟨fuel, tree, ?_, ?_⟩, fun entry member ranked => absurd ranked (none entry member)⟩
    · rw [reached, List.filter_append, empty, List.append_nil]
    · intro other final
      rw [← aligned other final, step.rank]
      split
      · rename_i isChild
        have different : rankOf level ≠ rank :=
          fun same => ofRank (ofRank_of_child root bounded current isChild final same)
        have below := finalRank_le_of_isChild directGrants isChild
        have bound := bounded id
        dsimp only
        omega
      · exact Iff.rfl

/-! ## The invariant -/

/-- Between rounds the walk has come as far as a breadth-first search among the resources of the
rank; a root is above its resource and gives the rank if the way to the resource is straight. -/
structure TraceInv (directGrants : Grants) (edges : List ResourceEdge) (rank : Nat)
    (state : Sourcing) (queue : List Sourced) : Prop where
  walk : WalkInv directGrants edges state.level (queue.map Sourced.grant)
  keys : ∀ id ∈ state.source, id ∉ directGrants ∧ 0 < rankAt state.level id
  search : ∃ fuel tree, BreadthFirst.after (childrenOfRank directGrants edges rank)
      (grantsOfRank directGrants edges rank) fuel =
        (tree, (queue.filter (OfRank directGrants edges rank)).map Prod.fst) ∧
    Aligned directGrants edges rank state.level tree
  roots : ∀ item ∈ queue, Relation.ReflTransGen (IsChild edges) item.2.2 item.1 ∧
    (OfRank directGrants edges rank item →
      (rankAt directGrants item.2.2 = rank ↔ Straight directGrants edges rank item.1))
  sources : ∀ id ∉ directGrants, finalRank directGrants edges id = rank →
    rankAt state.level id = rank → ∃ source, state.source.lookup id = some source ∧
      rankOf source.level = rank ∧ IsAncestor edges source.fromResourceId id ∧
      ∃ parent, FirstThrough directGrants edges rank parent id ∧
        (rankAt directGrants source.fromResourceId = rank ↔
          Straight directGrants edges rank parent)

/-- A grant of the rank has no weaker grant above it on the way from the grants of the rank. -/
theorem straight_of_mem {id : String} (start : id ∈ grantsOfRank directGrants edges rank) :
    Straight directGrants edges rank id := by
  intro above path
  obtain ⟨_, _, last⟩ := Relation.TransGen.tail'_iff.mp path
  exact absurd start (BreadthFirst.FirstVia.notMem_starts last)

/-- The way to a child is straight if the way to its parent is, and the parent has no weaker grant. -/
theorem straight_iff {parent child : String}
    (through : FirstThrough directGrants edges rank parent child) :
    Straight directGrants edges rank child ↔ Straight directGrants edges rank parent ∧
      (parent ∈ directGrants → rankAt directGrants parent = rank) := by
  constructor
  · intro straight
    exact ⟨fun above path => straight above (path.tail through),
      fun granted => straight parent (.single through) granted⟩
  · intro both above path granted
    obtain ⟨last, before, step⟩ := Relation.TransGen.tail'_iff.mp path
    obtain rfl := BreadthFirst.FirstVia.unique step through
    rcases Relation.reflTransGen_iff_eq_or_transGen.mp before with rfl | proper
    · exact both.2 granted
    · exact both.1 above proper granted

theorem of_mem_sourceQueue {item : Sourced} (member : item ∈ sourceQueue directGrants) :
    item.2.2 = item.1 ∧ directGrants.lookup item.1 = some item.2.1 := by
  obtain ⟨entry, inGrants, rfl⟩ := List.mem_map.mp member
  exact ⟨rfl, AList.mem_lookup_iff.mpr inGrants⟩

theorem mem_grantsOfRank (positive : 0 < rank) {id : String}
    (final : finalRank directGrants edges id = rank) :
    id ∈ grantsOfRank directGrants edges rank ↔ rankAt directGrants id = rank := by
  constructor
  · intro member
    obtain ⟨item, inQueue, rfl⟩ := List.mem_map.mp member
    obtain ⟨queued, ranked⟩ := List.mem_filter.mp inQueue
    rw [rankAt, levelAt, (of_mem_sourceQueue queued).2]
    exact (of_decide_eq_true ranked).1
  · intro own
    have granted := mem_of_rankAt_pos (own ▸ positive)
    obtain ⟨level, found⟩ := JsMap.mem_iff_lookup.mp granted
    refine List.mem_map.mpr ⟨(id, level, id), List.mem_filter.mpr ⟨?_, ?_⟩, rfl⟩
    · exact List.mem_map.mpr ⟨⟨id, level⟩, AList.mem_lookup_iff.mp found, rfl⟩
    · rw [rankAt, levelAt, found] at own
      exact decide_eq_true ⟨own, final⟩

theorem traceInv_initial (positive : 0 < rank) :
    TraceInv directGrants edges rank ⟨directGrants, ∅⟩ (sourceQueue directGrants) := by
  constructor
  · have queues : (sourceQueue directGrants).map Sourced.grant = grantQueue directGrants := by
      rw [grantQueue, sourceQueue, List.map_map]
      rfl
    rw [queues]
    exact walkInv_initial directGrants edges
  · exact fun id member => absurd member (AList.notMem_empty id)
  · refine ⟨0, [], BreadthFirst.after_zero, ?_⟩
    intro id final
    rw [← mem_grantsOfRank positive final]
    simp [BreadthFirst.Seen]
  · intro item member
    obtain ⟨own, found⟩ := of_mem_sourceQueue member
    rw [own]
    refine ⟨.refl, fun ranked => ?_⟩
    have same : rankAt directGrants item.1 = rank := by
      rw [rankAt, levelAt, found]
      exact ranked.1
    exact iff_of_true same (straight_of_mem ((mem_grantsOfRank positive ranked.2).mpr same))
  · intro id ungranted final own
    exact absurd (mem_of_rankAt_pos (own ▸ positive)) ungranted

/-- Step lemma: a round keeps the invariant. -/
theorem TraceInv.visit (positive : 0 < rank) {state : Sourcing} {item : Sourced} {queue : List Sourced}
    (inv : TraceInv directGrants edges rank state (item :: queue)) :
    TraceInv directGrants edges rank (visitSource directGrants edges state item).1
      (queue ++ (visitSource directGrants edges state item).2) := by
  have walk := inv.walk.visit
  have bounded := rankAt_le_finalRank inv.walk
  rw [@visitGrant_visitSource directGrants, ← List.map_append] at walk
  obtain ⟨fuel, tree, reached, aligned⟩ := inv.search
  obtain ⟨id, level, root⟩ := item
  have recorded : rankOf level ≤ rankAt state.level id :=
    inv.walk.queued (id, level) List.mem_cons_self
  obtain ⟨rootPath, rootRank⟩ := inv.roots (id, level, root) List.mem_cons_self
  unfold visitSource at walk ⊢
  by_cases stale : rankOf level < rankAt state.level id
  · -- A stale item is not one of the rank.
    have beside : ¬ OfRank directGrants edges rank (id, level, root) := fun both => by
      have bound := bounded id
      rw [both.2, ← both.1] at bound
      exact absurd stale (not_lt.mpr bound)
    rw [if_pos stale] at walk ⊢
    rw [List.append_nil] at walk ⊢
    refine ⟨walk, inv.keys, ⟨fuel, tree, ?_, aligned⟩,
      fun item member => inv.roots item (List.mem_cons_of_mem _ member), inv.sources⟩
    rwa [List.filter_cons, if_neg (mt of_decide_eq_true beside)] at reached
  · rw [if_neg stale] at walk ⊢
    have current : rankAt state.level id = rankOf level := le_antisymm (not_lt.mp stale) recorded
    have step := @offered_foldl_pass directGrants (id, level, root) (childrenOf edges id) state
    have passed := @passed_foldl directGrants (id, level, root) (childrenOf edges id) state
    obtain ⟨searched, through⟩ := exists_search inv.walk current reached aligned
    dsimp only at walk ⊢
    generalize (childrenOf edges id).foldl (pass directGrants (id, level, root)) (state, []) = next
      at walk step passed searched through ⊢
    obtain ⟨after, pushed⟩ := next
    dsimp only at walk step passed searched through ⊢
    refine ⟨walk, ?_, searched, ?_, ?_⟩
    · intro other member
      have ranks := step.rank other
      rw [← AList.lookup_isSome, passed.source] at member
      split at member
      · rename_i raised
        have weaker : rankAt state.level other < rankOf level := raised.2.2
        rw [if_pos raised.1] at ranks
        have top := le_max_right (rankAt state.level other) (rankOf level)
        exact ⟨raised.2.1, by omega⟩
      · obtain ⟨ungranted, positive⟩ := inv.keys other (AList.lookup_isSome.mp member)
        refine ⟨ungranted, ?_⟩
        rw [ranks]
        split
        · exact lt_of_lt_of_le positive (le_max_left _ _)
        · exact positive
    · intro entry member
      rcases List.mem_append.mp member with old | new
      · exact inv.roots entry (List.mem_cons_of_mem _ old)
      · obtain ⟨isChild, passedOn⟩ := passed.queued entry new
        obtain ⟨child, childLevel, childRoot⟩ := entry
        obtain ⟨rfl, rfl⟩ := Prod.mk.inj passedOn
        constructor
        · split
          · exact .single isChild
          · exact rootPath.tail isChild
        · intro ranked
          have ofRank := ofRank_of_child root bounded current isChild ranked.2 ranked.1
          rw [straight_iff (through _ new ranked)]
          split
          · rename_i granted
            constructor
            · intro own
              exact ⟨straight_of_mem ((mem_grantsOfRank positive ofRank.2).mpr own), fun _ => own⟩
            · exact fun both => both.2 granted
          · rename_i ungranted
            rw [rootRank ofRank]
            exact ⟨fun straight => ⟨straight, fun granted => absurd granted ungranted⟩, And.left⟩
    · intro other ungranted final own
      have ranks := step.rank other
      have below := bounded other
      by_cases before : rankAt state.level other = rank
      · obtain ⟨source, found, explained⟩ := inv.sources other ungranted final before
        refine ⟨source, ?_, explained⟩
        rw [passed.source, if_neg, found]
        intro raised
        have above := finalRank_le_of_isChild directGrants raised.1
        have bound := bounded id
        have weaker : rankAt state.level other < rankOf level := raised.2.2
        omega
      · -- The resource is raised to the rank in this round.
        have isChild : other ∈ childrenOf edges id := by
          by_contra outside
          rw [if_neg outside] at ranks
          exact before (ranks ▸ own)
        rw [if_pos isChild] at ranks
        have ranked : rankOf level = rank := by
          rcases max_choice (rankAt state.level other) (rankOf level) with same | same
          · exact absurd (same ▸ ranks ▸ own) before
          · exact same ▸ ranks ▸ own
        have weaker : rankAt state.level other < rankOf level := by omega
        obtain ⟨entry, inPushed, named⟩ := List.mem_map.mp (step.raised other (by omega))
        obtain ⟨child, childLevel, childRoot⟩ := entry
        obtain ⟨rfl, rfl⟩ := Prod.mk.inj named
        have ofRank := ofRank_of_child root bounded current isChild final ranked
        refine ⟨⟨childLevel, root⟩, ?_, ranked, .tail' rootPath isChild, id,
          through _ inPushed ⟨ranked, final⟩, rootRank ofRank⟩
        rw [passed.source, if_pos ⟨isChild, ungranted, weaker⟩]

/-- Run lemma: the walk ends with the search behind it. -/
theorem traceInv (positive : 0 < rank) :
    TraceInv directGrants edges rank (traceSources directGrants edges).1 [] := by
  have final : TraceInv directGrants edges rank (traceSources directGrants edges).1
      (traceSources directGrants edges).2 :=
    Worklist.drain_invariant (fun state item queue inv => inv.visit positive)
      (traceInv_initial positive)
  rwa [traceSources_empty] at final

/-! ## The result -/

variable {id : String}

theorem finalRank_pos_iff (ungranted : id ∉ directGrants) : 0 < finalRank directGrants edges id ↔
    ∃ above, IsAncestor edges above id ∧ 0 < rankAt directGrants above := by
  have none : rankAt ∅ id = 0 := rankAt_eq_zero_of_notMem (AList.notMem_empty id)
  have reaches := @le_rankAt_effectiveGrants directGrants ∅ edges id 1
  rw [none] at reaches
  refine reaches.trans ?_
  constructor
  · intro reached
    obtain ⟨above, path, bound⟩ := reached.resolve_right (by omega)
    rcases Relation.reflTransGen_iff_eq_or_transGen.mp path with rfl | proper
    · rw [rankAt_eq_zero_of_notMem ungranted] at bound
      exact absurd bound (by omega)
    · exact ⟨above, proper, bound⟩
  · intro reached
    obtain ⟨above, proper, bound⟩ := reached
    exact Or.inl ⟨above, proper.to_reflTransGen, bound⟩

/-- What is recorded for a resource that inherits. -/
theorem exists_source (ungranted : id ∉ directGrants)
    (positive : 0 < finalRank directGrants edges id) :
    ∃ source, (inheritanceSources directGrants edges).lookup id = some source ∧
      rankOf source.level = finalRank directGrants edges id ∧
      IsAncestor edges source.fromResourceId id ∧
      ∃ parent, FirstThrough directGrants edges (finalRank directGrants edges id) parent id ∧
        (rankAt directGrants source.fromResourceId = finalRank directGrants edges id ↔
          Straight directGrants edges (finalRank directGrants edges id) parent) := by
  apply (traceInv positive).sources id ungranted rfl
  rw [finalRank_eq, propagate_eq_traceSources]

theorem mem_inheritanceSources : id ∈ inheritanceSources directGrants edges ↔
    id ∉ directGrants ∧ 0 < finalRank directGrants edges id := by
  constructor
  · intro member
    obtain ⟨ungranted, positive⟩ := (traceInv Nat.one_pos).keys id member
    rw [finalRank_eq, propagate_eq_traceSources]
    exact ⟨ungranted, positive⟩
  · intro inherits
    obtain ⟨source, found, -⟩ := exists_source inherits.1 inherits.2
    exact JsMap.mem_iff_lookup.mpr ⟨source, found⟩

/-- The result explains the effective grants exactly if no weaker grant lies further up than the
parent on the way to a resource without a grant. -/
theorem explains_iff (directGrants : Grants) (edges : List ResourceEdge) :
    Explains directGrants edges ↔ Unshadowed directGrants edges := by
  constructor
  · intro explains id ungranted positive parent through
    obtain ⟨source, found, -, -, first, throughFirst, straight⟩ := exists_source ungranted positive
    obtain rfl := BreadthFirst.FirstVia.unique through throughFirst
    exact straight.mp (explains.origin id source found).2
  · intro unshadowed
    have recorded {id : String} {source : Source}
        (found : (inheritanceSources directGrants edges).lookup id = some source) :
        rankOf source.level = finalRank directGrants edges id ∧
          IsAncestor edges source.fromResourceId id ∧
          rankAt directGrants source.fromResourceId = finalRank directGrants edges id := by
      obtain ⟨ungranted, positive⟩ :=
        mem_inheritanceSources.mp (JsMap.mem_iff_lookup.mpr ⟨source, found⟩)
      obtain ⟨own, foundOwn, level, above, parent, through, straight⟩ :=
        exists_source ungranted positive
      obtain rfl := Option.some.inj (foundOwn.symm.trans found)
      exact ⟨level, above, straight.mpr (unshadowed id ungranted positive parent through)⟩
    constructor
    · intro id
      rw [mem_inheritanceSources]
      exact and_congr_right finalRank_pos_iff
    · exact fun id source found => (recorded found).1
    · exact fun id source found => (recorded found).2

end Proofs

/-! ## A weaker grant in between -/

private def hosting (parent child : String) : ResourceEdge := ⟨some parent, some child, "hosts", none⟩

/-- An administrator of the office who is a viewer of the cluster is told that the cluster is where
the grant on a service of the host comes from. -/
theorem not_explains :
    ¬ Explains ((∅ : Grants).insert "cluster0" (some "viewer") |>.insert "office" (some "admin"))
      [hosting "office" "cluster0", hosting "cluster0" "dl380", hosting "dl380" "gitea"] := by
  intro explains
  have origin := (explains.origin "gitea" ⟨some "admin", "cluster0"⟩ (by decide +kernel)).2
  revert origin
  decide +kernel

end ThetaDirectory.Access
