import Mathlib.Data.List.Nodup
import ThetaDirectory.Library.Worklist

/-!
# The tree of a breadth-first search

A search from several starts that takes keys in the order they were reached.  Each key but the starts
is reached first through one other key; these pairs are the edges of the search's tree.
-/

namespace ThetaDirectory.Library

namespace BreadthFirst

variable {κ : Type*} [DecidableEq κ] (succ : κ → List κ) (starts : List κ)

/-- The key has been reached. -/
def Seen (tree : List (κ × κ)) (key : κ) : Prop := key ∈ starts ∨ key ∈ tree.map Prod.snd

instance (tree : List (κ × κ)) (key : κ) : Decidable (Seen starts tree key) :=
  inferInstanceAs (Decidable (_ ∨ _))

/-- Reach a key through its parent, unless it has been reached. -/
def reach (parent : κ) (state : List (κ × κ) × List κ) (key : κ) : List (κ × κ) × List κ :=
  if Seen starts state.1 key then state else (state.1 ++ [(parent, key)], state.2 ++ [key])

def round (tree : List (κ × κ)) (key : κ) : List (κ × κ) × List κ :=
  (succ key).foldl (reach starts key) (tree, [])

/-- The tree and the queue after a number of rounds. -/
def after (fuel : Nat) : List (κ × κ) × List κ := Worklist.drain (round succ starts) fuel [] starts

/-- The first key through which another one is reached. -/
def FirstVia (parent key : κ) : Prop := ∃ fuel, (parent, key) ∈ (after succ starts fuel).1

/-- Every key has one parent, and a start has none. -/
structure IsForest (tree : List (κ × κ)) : Prop where
  distinct : (tree.map Prod.snd).Nodup
  fresh : ∀ key ∈ tree.map Prod.snd, key ∉ starts

variable {succ starts} {parent key : κ} {fuel : Nat}

theorem isForest_reach {state : List (κ × κ) × List κ} (forest : IsForest starts state.1) :
    IsForest starts (reach starts parent state key).1 := by
  unfold reach
  split
  · exact forest
  · rename_i unseen
    rw [Seen, not_or] at unseen
    constructor
    · rw [List.map_append, List.nodup_append]
      refine ⟨forest.distinct, List.nodup_singleton _, ?_⟩
      intro old inTree new isKey same
      rw [same, List.mem_singleton.mp isKey] at inTree
      exact unseen.2 inTree
    · intro reached member
      rw [List.map_append, List.mem_append] at member
      rcases member with old | new
      · exact forest.fresh reached old
      · rw [List.mem_singleton.mp new]
        exact unseen.1

theorem isForest_foldl_reach (keys : List κ) {state : List (κ × κ) × List κ}
    (forest : IsForest starts state.1) : IsForest starts (keys.foldl (reach starts parent) state).1 := by
  induction keys generalizing state with
  | nil => exact forest
  | cons key keys ih => exact ih (isForest_reach forest)

theorem isForest_after (fuel : Nat) : IsForest starts (after succ starts fuel).1 := by
  apply @Worklist.drain_invariant _ _ (round succ starts) fun tree _ => IsForest starts tree
  · exact fun tree key queue forest => isForest_foldl_reach _ forest
  · exact ⟨List.nodup_nil, List.forall_mem_nil _⟩

theorem subset_foldl_reach (keys : List κ) (state : List (κ × κ) × List κ) :
    state.1 ⊆ (keys.foldl (reach starts parent) state).1 := by
  induction keys generalizing state with
  | nil => exact List.Subset.refl _
  | cons key keys ih =>
      refine List.Subset.trans ?_ (ih _)
      unfold reach
      split
      · exact List.Subset.refl _
      · exact List.subset_append_left _ _

/-- What a round reaches, it reaches through the key it takes. -/
theorem mem_foldl_reach (keys : List κ) {state : List (κ × κ) × List κ}
    (through : ∀ key ∈ state.2, (parent, key) ∈ state.1) :
    ∀ key ∈ (keys.foldl (reach starts parent) state).2,
      (parent, key) ∈ (keys.foldl (reach starts parent) state).1 := by
  induction keys generalizing state with
  | nil => exact through
  | cons key keys ih =>
      apply ih
      unfold reach
      split
      · exact through
      · intro reached member
        rcases List.mem_append.mp member with old | new
        · exact List.mem_append_left _ (through reached old)
        · rw [List.mem_singleton.mp new]
          exact List.mem_append_right _ List.mem_cons_self

theorem after_zero : after succ starts 0 = ([], starts) := by
  cases starts <;> rfl

/-- One more round. -/
theorem after_succ {tree : List (κ × κ)} {queue : List κ}
    (reached : after succ starts fuel = (tree, key :: queue)) :
    after succ starts (fuel + 1) =
      ((round succ starts tree key).1, queue ++ (round succ starts tree key).2) := by
  have split : after succ starts (fuel + 1) = Worklist.drain (round succ starts) 1
      (after succ starts fuel).1 (after succ starts fuel).2 := Worklist.drain_add fuel 1 [] starts
  rw [split, reached]
  dsimp only [Worklist.drain]
  generalize queue ++ (round succ starts tree key).2 = rest
  cases rest <;> rfl

theorem after_mono {more : Nat} (le : fuel ≤ more) :
    (after succ starts fuel).1 ⊆ (after succ starts more).1 := by
  obtain ⟨further, rfl⟩ := Nat.exists_eq_add_of_le le
  unfold after
  rw [Worklist.drain_add]
  apply @Worklist.drain_invariant _ _ (round succ starts) fun tree _ =>
    (Worklist.drain (round succ starts) fuel [] starts).1 ⊆ tree
  · exact fun tree key queue subset => List.Subset.trans subset (subset_foldl_reach (succ key) (tree, []))
  · exact List.Subset.refl _

/-- The parent in the tree is unique. -/
theorem FirstVia.unique {other : κ} (via : FirstVia succ starts parent key)
    (viaOther : FirstVia succ starts other key) : parent = other := by
  obtain ⟨fuel, member⟩ := via
  obtain ⟨more, memberOther⟩ := viaOther
  have first := after_mono (Nat.le_max_left fuel more) member
  have second := after_mono (Nat.le_max_right fuel more) memberOther
  exact congrArg Prod.fst
    (List.inj_on_of_nodup_map (isForest_after _).distinct first second rfl)

/-- No start is reached from elsewhere. -/
theorem FirstVia.notMem_starts (via : FirstVia succ starts parent key) : key ∉ starts := by
  obtain ⟨fuel, member⟩ := via
  exact (isForest_after fuel).fresh key (List.mem_map_of_mem member)

end BreadthFirst

end ThetaDirectory.Library
