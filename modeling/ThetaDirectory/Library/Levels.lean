import ThetaDirectory.Library.DepthFirst

/-!
# Search by levels

A breadth-first search that takes a whole frontier in each round.  It sees the keys in the order of
their distance from the start.
-/

namespace ThetaDirectory.Library

namespace Levels

open DepthFirst (Step unseen)

variable {κ : Type*}

/-! ## Distance -/

section Distance

variable (next : κ → List κ) (start : κ)

/-- The key is reached in at most so many steps. -/
def Within : Nat → κ → Prop
  | 0, key => key = start
  | steps + 1, key => Within steps key ∨ ∃ parent, Within steps parent ∧ key ∈ next parent

/-- The key is not farther from the start than the other one. -/
def Nearer (key other : κ) : Prop :=
  ∀ steps, Within next start steps other → Within next start steps key

/-- After some rounds everything within that many steps is seen, in the order of distance, and the
frontier is one step farther. -/
structure Ball (steps : Nat) (state : List κ × List κ) : Prop where
  seen : ∀ key, key ∈ state.1 ↔ Within next start steps key
  frontier : ∀ key ∈ state.2, ∃ parent, Within next start steps parent ∧ key ∈ next parent
  whole : ∀ key, Within next start (steps + 1) key → key ∈ state.1 ∨ key ∈ state.2
  sorted : state.1.Pairwise (Nearer next start)
  nodup : state.1.Nodup

theorem ball_start : Ball next start 0 ([start], next start) where
  seen := fun _ => List.mem_singleton
  frontier := fun _ isNext => ⟨start, rfl, isNext⟩
  whole := by
    intro key within
    rcases within with same | ⟨parent, rfl, isNext⟩
    · exact Or.inl (List.mem_singleton.mpr same)
    · exact Or.inr isNext
  sorted := List.pairwise_singleton _ _
  nodup := List.nodup_singleton _

variable {next start} {key other : κ} {steps more : Nat}

theorem Within.mono (within : Within next start steps key) (le : steps ≤ more) :
    Within next start more key := by
  induction le with
  | refl => exact within
  | step _ ih => exact Or.inl ih

/-- What is reached is reached in some number of steps. -/
theorem exists_within_iff :
    (∃ steps, Within next start steps key) ↔ Relation.ReflTransGen (Step next) start key := by
  constructor
  · intro reached
    obtain ⟨steps, within⟩ := reached
    induction steps generalizing key with
    | zero =>
        rw [within]
    | succ steps ih =>
        rcases within with sooner | ⟨parent, within, isNext⟩
        · exact ih sooner
        · exact (ih within).tail isNext
  · intro path
    induction path with
    | refl => exact ⟨0, rfl⟩
    | tail _ step ih =>
        obtain ⟨steps, within⟩ := ih
        exact ⟨steps + 1, Or.inr ⟨_, within, step⟩⟩

theorem nearer_of_within (within : Within next start (steps + 1) key)
    (farther : ¬ Within next start steps other) : Nearer next start key other := by
  intro more withinMore
  rcases Nat.lt_or_ge steps more with less | le
  · exact within.mono less
  · exact absurd (withinMore.mono le) farther

end Distance

/-! ## The search -/

variable [DecidableEq κ] (next : κ → List κ)

/-- Take a key of the frontier: the first time it is seen, its successors come next. -/
def enter (state : List κ × List κ) (key : κ) : List κ × List κ :=
  if key ∈ state.1 then state else (state.1 ++ [key], state.2 ++ next key)

def round (state : List κ × List κ) : List κ × List κ := state.2.foldl (enter next) (state.1, [])

/-- Rounds until the frontier is empty. -/
def rounds : Nat → List κ × List κ → List κ × List κ
  | 0, state => state
  | depth + 1, state => if state.2.isEmpty then state else rounds depth (round next state)

/-- The keys in the order in which they are seen. -/
def order (depth : Nat) (start : κ) : List κ := (rounds next depth ([start], next start)).1

variable {next} {start : κ} {keys : List κ}

/-- A round sees the keys of the frontier that are not seen yet, each once. -/
theorem foldl_enter (frontier seen later : List κ) : ∃ fresh,
    frontier.foldl (enter next) (seen, later) = (seen ++ fresh, later ++ fresh.flatMap next) ∧
      (∀ key, key ∈ fresh ↔ key ∈ frontier ∧ key ∉ seen) ∧ fresh.Nodup := by
  induction frontier generalizing seen later with
  | nil =>
      refine ⟨[], by simp, fun key => ?_, List.nodup_nil⟩
      exact iff_of_false List.not_mem_nil fun both => List.not_mem_nil both.1
  | cons first frontier ih =>
      rw [List.foldl_cons, enter]
      by_cases old : first ∈ seen
      · rw [if_pos old]
        obtain ⟨fresh, same, isFresh, nodup⟩ := ih seen later
        refine ⟨fresh, same, fun key => ?_, nodup⟩
        rw [isFresh, List.mem_cons]
        apply and_congr_left
        intro unseen
        refine (or_iff_right fun isFirst => unseen ?_).symm
        rwa [isFirst]
      · rw [if_neg old]
        obtain ⟨fresh, same, isFresh, nodup⟩ := ih (seen ++ [first]) (later ++ next first)
        refine ⟨first :: fresh, ?_, fun key => ?_, ?_⟩
        · rw [same, List.append_assoc, List.append_assoc, List.flatMap_cons, List.singleton_append]
        · rw [List.mem_cons, isFresh, List.mem_cons, List.mem_append, List.mem_singleton]
          by_cases isFirst : key = first
          · rw [isFirst]
            simpa using old
          · simp [isFirst]
        · refine List.nodup_cons.mpr ⟨fun again => ?_, nodup⟩
          exact ((isFresh first).mp again).2 (List.mem_append_right _ List.mem_cons_self)

/-- One round goes one step farther. -/
theorem Ball.round {steps : Nat} {state : List κ × List κ} (ball : Ball next start steps state) :
    Ball next start (steps + 1) (Levels.round next state) := by
  obtain ⟨seen, frontier⟩ := state
  obtain ⟨fresh, same, isFresh, nodup⟩ := @foldl_enter κ _ next frontier seen []
  have farther (key : κ) (member : key ∈ fresh) : ¬ Within next start steps key :=
    fun within => ((isFresh key).mp member).2 ((ball.seen key).mpr within)
  have now (key : κ) (member : key ∈ fresh) : Within next start (steps + 1) key :=
    Or.inr (ball.frontier key ((isFresh key).mp member).1)
  have all (key : κ) : key ∈ seen ++ fresh ↔ Within next start (steps + 1) key := by
    rw [List.mem_append]
    constructor
    · intro either
      rcases either with old | isNew
      · exact Or.inl ((ball.seen key).mp old)
      · exact now key isNew
    · intro within
      rcases ball.whole key within with old | ahead
      · exact Or.inl old
      · by_cases old : key ∈ seen
        · exact Or.inl old
        · exact Or.inr ((isFresh key).mpr ⟨ahead, old⟩)
  unfold Levels.round
  rw [same]
  constructor
  · exact all
  · intro key ahead
    obtain ⟨parent, member, isNext⟩ := List.mem_flatMap.mp ahead
    exact ⟨parent, now parent member, isNext⟩
  · intro key within
    rcases within with sooner | ⟨parent, within, isNext⟩
    · exact Or.inl ((all key).mpr sooner)
    · rcases List.mem_append.mp ((all parent).mpr within) with old | isNew
      · exact Or.inl ((all key).mpr (Or.inr ⟨parent, (ball.seen parent).mp old, isNext⟩))
      · exact Or.inr (List.mem_append_right _ (List.mem_flatMap.mpr ⟨parent, isNew, isNext⟩))
  · refine List.pairwise_append.mpr ⟨ball.sorted, ?_, ?_⟩
    · apply List.pairwise_of_forall_mem_list
      intro key member other isNew
      exact nearer_of_within (now key member) (farther other isNew)
    · intro key old other isNew
      exact nearer_of_within (Or.inl ((ball.seen key).mp old)) (farther other isNew)
  · refine List.nodup_append.mpr ⟨ball.nodup, nodup, ?_⟩
    intro key old other isNew same
    exact ((isFresh other).mp isNew).2 (same ▸ old)

/-- The search goes on from a ball to a ball. -/
theorem ball_rounds {steps : Nat} {state : List κ × List κ} (ball : Ball next start steps state)
    (depth : Nat) : ∃ more, Ball next start more (rounds next depth state) := by
  induction depth generalizing steps state with
  | zero => exact ⟨steps, ball⟩
  | succ depth ih =>
      rw [rounds]
      split
      · exact ⟨steps, ball⟩
      · exact ih ball.round

/-- With enough rounds the frontier is empty in the end. -/
theorem rounds_done (sources : ∀ key, next key ≠ [] → key ∈ keys) {depth : Nat}
    {state : List κ × List κ} (enough : unseen keys state.1 < depth) :
    (rounds next depth state).2 = [] := by
  induction depth generalizing state with
  | zero => exact absurd enough (Nat.not_lt_zero _)
  | succ depth ih =>
      rw [rounds]
      split
      · rename_i empty
        exact List.isEmpty_iff.mp empty
      · obtain ⟨seen, frontier⟩ := state
        obtain ⟨fresh, same, isFresh, -⟩ := @foldl_enter κ _ next frontier seen []
        have after : round next (seen, frontier) = (seen ++ fresh, fresh.flatMap next) := same
        rw [after]
        by_cases last : fresh.flatMap next = []
        · rw [last]
          cases depth <;> rfl
        · apply ih
          obtain ⟨key, ahead⟩ := List.exists_mem_of_ne_nil _ last
          obtain ⟨parent, member, isNext⟩ := List.mem_flatMap.mp ahead
          have isSource := sources parent (List.ne_nil_of_mem isNext)
          have fewer := DepthFirst.unseen_cons_lt isSource ((isFresh parent).mp member).2
          have mono : unseen keys (seen ++ fresh) ≤ unseen keys (parent :: seen) := by
            apply DepthFirst.unseen_mono
            apply List.cons_subset.mpr
            exact ⟨List.mem_append_right _ member, List.subset_append_left _ _⟩
          change unseen keys (seen ++ fresh) < depth
          change unseen keys seen < depth + 1 at enough
          omega

/-- With enough rounds the order lists what can be reached. -/
theorem mem_order_iff (sources : ∀ key, next key ≠ [] → key ∈ keys) {depth : Nat} {key : κ}
    (enough : keys.length < depth) :
    key ∈ order next depth start ↔ Relation.ReflTransGen (Step next) start key := by
  obtain ⟨steps, ball⟩ := ball_rounds (ball_start next start) depth
  have done : (rounds next depth ([start], next start)).2 = [] := by
    apply rounds_done sources
    exact Nat.lt_of_le_of_lt (List.length_filter_le _ _) enough
  constructor
  · intro member
    exact exists_within_iff.mp ⟨steps, (ball.seen key).mp member⟩
  · intro path
    induction path with
    | refl => exact (ball.seen start).mpr (@Within.mono κ next start start 0 steps rfl (Nat.zero_le _))
    | tail _ step ih =>
        rcases ball.whole _ (Or.inr ⟨_, (ball.seen _).mp ih, step⟩) with seen | ahead
        · exact seen
        · rw [done] at ahead
          cases ahead

theorem pairwise_order (depth : Nat) : (order next depth start).Pairwise (Nearer next start) :=
  Exists.elim (ball_rounds (ball_start next start) depth) fun _ ball => ball.sorted

theorem nodup_order (depth : Nat) : (order next depth start).Nodup :=
  Exists.elim (ball_rounds (ball_start next start) depth) fun _ ball => ball.nodup

theorem prefix_rounds (depth : Nat) (state : List κ × List κ) :
    state.1 <+: (rounds next depth state).1 := by
  induction depth generalizing state with
  | zero => exact List.prefix_refl _
  | succ depth ih =>
      rw [rounds]
      split
      · exact List.prefix_refl _
      · obtain ⟨seen, frontier⟩ := state
        obtain ⟨fresh, same, -⟩ := @foldl_enter κ _ next frontier seen []
        have after : round next (seen, frontier) = (seen ++ fresh, fresh.flatMap next) := same
        rw [after]
        exact (List.prefix_append seen fresh).trans (ih (seen ++ fresh, _))

/-- The order starts with the start. -/
theorem order_eq_cons (depth : Nat) :
    order next depth start = start :: (order next depth start).tail := by
  obtain ⟨rest, same⟩ := @prefix_rounds κ _ next depth ([start], next start)
  unfold order
  rw [← same]
  rfl

end Levels

end ThetaDirectory.Library
