import Mathlib.Data.List.Basic
import Mathlib.Logic.Relation

/-!
# Layered search with a visited set

Breadth-first search from a set of keys, bounded by a number of layers.  A
successor is an item with a key; a key is expanded at most once, so cycles end
the search instead of repeating it.

`mem_search_iff` says what such a search finds: the keys at the end of a walk of
at most that many steps.
-/

namespace ThetaDirectory.Library

namespace Frontier

variable {α κ : Type*}

/-- A walk of a fixed number of steps. -/
inductive Walk (step : κ → κ → Prop) : Nat → κ → κ → Prop where
  | stay (key : κ) : Walk step 0 key key
  | move {length : Nat} {start middle finish : κ} (first : step start middle)
      (later : Walk step length middle finish) : Walk step (length + 1) start finish

namespace Walk

variable {step : κ → κ → Prop}

theorem single {start finish : κ} (first : step start finish) : Walk step 1 start finish :=
  .move first (.stay finish)

/-- Extend a walk at its end. -/
theorem snoc {length : Nat} {start middle finish : κ} (walk : Walk step length start middle)
    (last : step middle finish) : Walk step (length + 1) start finish := by
  induction walk with
  | stay key => exact single last
  | move first later ih => exact .move first (ih last)

/-- A property that one step preserves holds at the end of every walk. -/
theorem preserves {P : κ → Prop} (closed : ∀ {start finish}, step start finish → P start →
    P finish) {length : Nat} {start finish : κ} (walk : Walk step length start finish)
    (holds : P start) : P finish := by
  induction walk with
  | stay key => exact holds
  | move first later ih => exact ih (closed first holds)

end Walk

/-- The keys seen so far and the items found in the current layer. -/
structure Layer (α κ : Type*) where
  seen : List κ
  found : List α

section Search

variable [DecidableEq κ] (succ : κ → List α) (key : α → κ)

/-- Record an item unless its key has been seen. -/
def visit (layer : Layer α κ) (item : α) : Layer α κ :=
  if key item ∈ layer.seen then layer
  else ⟨key item :: layer.seen, layer.found ++ [item]⟩

/-- Visit a list of items. -/
def visitAll (seen : List κ) (items : List α) : Layer α κ :=
  items.foldl (visit key) ⟨seen, []⟩

/-- Expand the frontier layer by layer and return the items found. -/
def search : Nat → List κ → List κ → List α
  | 0, _, _ => []
  | depth + 1, seen, frontier =>
      let layer := visitAll key seen (frontier.flatMap succ)
      layer.found ++ search depth layer.seen (layer.found.map key)

/-- One key is a successor of the other. -/
def Step (start finish : κ) : Prop := ∃ item ∈ succ start, key item = finish

variable {succ key}

theorem mem_seen_foldl_visit {layer : Layer α κ} {items : List α} {k : κ} :
    k ∈ (items.foldl (visit key) layer).seen ↔
      k ∈ layer.seen ∨ ∃ item ∈ items, key item = k := by
  induction items generalizing layer with
  | nil => simp
  | cons head items ih =>
      rw [List.foldl_cons, ih]
      by_cases old : key head ∈ layer.seen
      · simp only [visit, if_pos old, List.exists_mem_cons_iff]
        constructor
        · rintro (member | later)
          · exact Or.inl member
          · exact Or.inr (Or.inr later)
        · rintro (member | rfl | later)
          · exact Or.inl member
          · exact Or.inl old
          · exact Or.inr later
      · simp only [visit, if_neg old, List.exists_mem_cons_iff]
        rw [List.mem_cons, eq_comm, or_assoc, or_left_comm]

theorem mem_found_foldl_visit {layer : Layer α κ} {items : List α} {item : α}
    (found : item ∈ (items.foldl (visit key) layer).found) :
    item ∈ layer.found ∨ item ∈ items ∧ key item ∉ layer.seen := by
  induction items generalizing layer with
  | nil => exact Or.inl found
  | cons head items ih =>
      rw [List.foldl_cons] at found
      rcases ih found with early | ⟨member, fresh⟩
      · by_cases old : key head ∈ layer.seen
        · simp only [visit, if_pos old] at early
          exact Or.inl early
        · simp only [visit, if_neg old, List.mem_append, List.mem_singleton] at early
          rcases early with early | rfl
          · exact Or.inl early
          · exact Or.inr ⟨List.mem_cons_self, old⟩
      · refine Or.inr ⟨List.mem_cons_of_mem _ member, ?_⟩
        intro old
        apply fresh
        unfold visit
        split
        · exact old
        · exact List.mem_cons_of_mem _ old

/-- Every newly seen key belongs to an item found. -/
theorem seen_foldl_visit_sub {layer : Layer α κ} {items : List α} {k : κ}
    (member : k ∈ (items.foldl (visit key) layer).seen) :
    k ∈ layer.seen ∨ ∃ item ∈ (items.foldl (visit key) layer).found, key item = k := by
  have keeps : ∀ {items : List α} {layer : Layer α κ} {item : α}, item ∈ layer.found →
      item ∈ (items.foldl (visit key) layer).found := by
    intro items
    induction items with
    | nil => exact fun member => member
    | cons head items ih =>
        intro layer item member
        apply ih
        unfold visit
        split
        · exact member
        · exact List.mem_append_left _ member
  induction items generalizing layer with
  | nil => exact Or.inl member
  | cons head items ih =>
      rw [List.foldl_cons] at member ⊢
      rcases ih member with early | later
      · by_cases old : key head ∈ layer.seen
        · simp only [visit, if_pos old] at early
          exact Or.inl early
        · simp only [visit, if_neg old, List.mem_cons] at early
          rcases early with rfl | early
          · refine Or.inr ⟨head, keeps ?_, rfl⟩
            simp [visit, old]
          · exact Or.inl early
      · exact Or.inr later

/-- An item found is a successor of a key at the end of a shorter walk, and its
key had not been seen. -/
theorem search_sound {depth : Nat} {seen frontier : List κ} {item : α}
    (found : item ∈ search succ key depth seen frontier) :
    key item ∉ seen ∧ ∃ start ∈ frontier, ∃ length < depth, ∃ last,
      Walk (Step succ key) length start last ∧ item ∈ succ last := by
  induction depth generalizing seen frontier with
  | zero => simp [search] at found
  | succ depth ih =>
      simp only [search, List.mem_append] at found
      rcases found with first | later
      · rcases mem_found_foldl_visit first with none | ⟨member, fresh⟩
        · simp at none
        · obtain ⟨start, inFrontier, member⟩ := List.mem_flatMap.mp member
          exact ⟨fresh, start, inFrontier, 0, depth.succ_pos, start, .stay start, member⟩
      · obtain ⟨fresh, middle, inLayer, length, short, last, walk, member⟩ := ih later
        constructor
        · exact fun old => fresh (mem_seen_foldl_visit.mpr (Or.inl old))
        · obtain ⟨found, inFound, rfl⟩ := List.mem_map.mp inLayer
          rcases mem_found_foldl_visit inFound with none | ⟨atFrontier, -⟩
          · simp at none
          · obtain ⟨start, inFrontier, isSucc⟩ := List.mem_flatMap.mp atFrontier
            exact ⟨start, inFrontier, length + 1, by omega, last,
              .move ⟨found, isSucc, rfl⟩ walk, member⟩

/-- When every seen key outside the frontier has been expanded, a key at the end
of a short enough walk is seen or found. -/
theorem search_complete {depth : Nat} {seen frontier : List κ}
    (expanded : ∀ k ∈ seen, k ∉ frontier → ∀ k', Step succ key k k' → k' ∈ seen)
    {length : Nat} {start finish : κ} (inSeen : start ∈ seen)
    (walk : Walk (Step succ key) length start finish) (short : length ≤ depth) :
    finish ∈ seen ∨ ∃ item ∈ search succ key depth seen frontier, key item = finish := by
  induction depth generalizing seen frontier length start with
  | zero =>
      obtain rfl : length = 0 := by omega
      cases walk
      exact Or.inl inSeen
  | succ depth ih =>
      cases walk with
      | stay => exact Or.inl inSeen
      | @move length start middle finish first later =>
          have reached : ∀ k ∈ seen, ∀ k', Step succ key k k' →
              k' ∈ (visitAll key seen (frontier.flatMap succ)).seen := by
            intro k member k' step
            refine mem_seen_foldl_visit.mpr ?_
            by_cases here : k ∈ frontier
            · obtain ⟨item, isSucc, keyEq⟩ := step
              exact Or.inr ⟨item, List.mem_flatMap.mpr ⟨k, here, isSucc⟩, keyEq⟩
            · exact Or.inl (expanded k member here k' step)
          have expandedNext : ∀ k ∈ (visitAll key seen (frontier.flatMap succ)).seen,
              k ∉ (visitAll key seen (frontier.flatMap succ)).found.map key →
              ∀ k', Step succ key k k' →
                k' ∈ (visitAll key seen (frontier.flatMap succ)).seen := by
            intro k member outside k' step
            rcases seen_foldl_visit_sub member with old | ⟨item, inFound, rfl⟩
            · exact reached k old k' step
            · exact absurd (List.mem_map_of_mem inFound) outside
          rcases ih expandedNext (reached start inSeen middle first) later (by omega) with
            old | ⟨item, inLater, keyEq⟩
          · rcases seen_foldl_visit_sub old with older | ⟨item, inFound, keyEq⟩
            · exact Or.inl older
            · exact Or.inr ⟨item, List.mem_append_left _ inFound, keyEq⟩
          · exact Or.inr ⟨item, List.mem_append_right _ inLater, keyEq⟩

/-- Searching from one key finds exactly the other keys within `depth` steps. -/
theorem exists_mem_search_iff {depth : Nat} {start finish : κ} :
    (∃ item ∈ search succ key depth [start] [start], key item = finish) ↔
      finish ≠ start ∧ ∃ length ≤ depth, Walk (Step succ key) length start finish := by
  constructor
  · rintro ⟨item, found, rfl⟩
    obtain ⟨fresh, from_, inFrontier, length, short, last, walk, member⟩ := search_sound found
    obtain rfl := List.mem_singleton.mp inFrontier
    exact ⟨by simpa using fresh, length + 1, short, walk.snoc ⟨item, member, rfl⟩⟩
  · rintro ⟨different, length, short, walk⟩
    have expanded : ∀ k ∈ [start], k ∉ [start] → ∀ k', Step succ key k k' → k' ∈ [start] :=
      fun k member outside => absurd member outside
    rcases search_complete expanded List.mem_cons_self walk short with same | found
    · exact absurd (List.mem_singleton.mp same) different
    · exact found

end Search

end Frontier

end ThetaDirectory.Library
