import Mathlib.Logic.Relation

/-!
# Reachability by depth-first search

A search from a stack of keys that expands each key once, bounded by a number of
rounds.  `search_iff` says that a bound that pays for every successor pushed makes
it decide reachability.
-/

namespace ThetaDirectory.Library

namespace Reach

variable {κ : Type*} [DecidableEq κ] (succ : κ → List κ) (target : κ)

/-- Look for the target from the keys on the stack; the last successor of a key is
taken first. -/
def search : Nat → List κ → List κ → Bool
  | _, _, [] => false
  | 0, _, _ :: _ => false
  | rounds + 1, seen, key :: stack =>
      if key = target then true
      else if key ∈ seen then search rounds seen stack
      else search rounds (key :: seen) ((succ key).reverse ++ stack)

/-- One key is a successor of the other. -/
def Step (start finish : κ) : Prop := finish ∈ succ start

variable {succ target}

/-- What is found is reachable from the stack. -/
theorem search_sound {rounds : Nat} {seen stack : List κ}
    (found : search succ target rounds seen stack = true) :
    ∃ key ∈ stack, Relation.ReflTransGen (Step succ) key target := by
  induction rounds generalizing seen stack with
  | zero => cases stack <;> simp [search] at found
  | succ rounds ih =>
      cases stack with
      | nil => simp [search] at found
      | cons key stack =>
          simp only [search] at found
          split at found
          · rename_i same
            exact ⟨key, List.mem_cons_self, same ▸ .refl⟩
          · split at found
            · obtain ⟨later, member, path⟩ := ih found
              exact ⟨later, List.mem_cons_of_mem _ member, path⟩
            · obtain ⟨next, member, path⟩ := ih found
              rcases List.mem_append.mp member with isSucc | later
              · exact ⟨key, List.mem_cons_self, .head (List.mem_reverse.mp isSucc) path⟩
              · exact ⟨next, List.mem_cons_of_mem _ later, path⟩

/-- A search that fails with enough rounds has closed the set of seen keys.  The
potential pays for the successors a key pushes when it is first seen. -/
theorem closed_of_search_eq_false {rounds : Nat} {seen stack : List κ} {potential : List κ → Nat}
    (pays : ∀ key seen, key ∉ seen → (succ key).length + potential (key :: seen) ≤ potential seen)
    (enough : stack.length + potential seen ≤ rounds)
    (expanded : ∀ key ∈ seen, key ≠ target ∧ ∀ next ∈ succ key, next ∈ seen ∨ next ∈ stack)
    (failed : search succ target rounds seen stack = false) :
    ∃ closed : List κ, (∀ key, key ∈ seen ∨ key ∈ stack → key ∈ closed) ∧ target ∉ closed ∧
      ∀ key ∈ closed, ∀ next ∈ succ key, next ∈ closed := by
  induction rounds generalizing seen stack with
  | zero =>
      obtain rfl : stack = [] := List.length_eq_zero_iff.mp (by omega)
      refine ⟨seen, by simp, fun member => (expanded target member).1 rfl, ?_⟩
      exact fun key member next isSucc =>
        ((expanded key member).2 next isSucc).resolve_right (by simp)
  | succ rounds ih =>
      cases stack with
      | nil =>
          refine ⟨seen, by simp, fun member => (expanded target member).1 rfl, ?_⟩
          exact fun key member next isSucc =>
            ((expanded key member).2 next isSucc).resolve_right (by simp)
      | cons key stack =>
          simp only [search] at failed
          simp only [List.length_cons] at enough
          split at failed
          · contradiction
          · rename_i notTarget
            split at failed
            · rename_i old
              have expandedRest : ∀ seenKey ∈ seen, seenKey ≠ target ∧
                  ∀ next ∈ succ seenKey, next ∈ seen ∨ next ∈ stack := by
                intro seenKey member
                refine ⟨(expanded seenKey member).1, fun next isSucc => ?_⟩
                rcases (expanded seenKey member).2 next isSucc with inSeen | onStack
                · exact Or.inl inSeen
                · rcases List.mem_cons.mp onStack with rfl | later
                  · exact Or.inl old
                  · exact Or.inr later
              obtain ⟨closed, covers, rest⟩ := ih (by omega) expandedRest failed
              refine ⟨closed, ?_, rest⟩
              rintro other (inSeen | onStack)
              · exact covers other (Or.inl inSeen)
              · rcases List.mem_cons.mp onStack with rfl | later
                · exact covers other (Or.inl old)
                · exact covers other (Or.inr later)
            · rename_i fresh
              have paid := pays key seen fresh
              have shorter : ((succ key).reverse ++ stack).length + potential (key :: seen) ≤
                  rounds := by
                simp only [List.length_append, List.length_reverse]
                omega
              have expandedMore : ∀ seenKey ∈ key :: seen, seenKey ≠ target ∧
                  ∀ next ∈ succ seenKey, next ∈ key :: seen ∨
                    next ∈ (succ key).reverse ++ stack := by
                intro seenKey member
                rcases List.mem_cons.mp member with rfl | inSeen
                · exact ⟨notTarget, fun next isSucc =>
                    Or.inr (List.mem_append_left _ (List.mem_reverse.mpr isSucc))⟩
                · refine ⟨(expanded seenKey inSeen).1, fun next isSucc => ?_⟩
                  rcases (expanded seenKey inSeen).2 next isSucc with old | onStack
                  · exact Or.inl (List.mem_cons_of_mem _ old)
                  · rcases List.mem_cons.mp onStack with rfl | later
                    · exact Or.inl List.mem_cons_self
                    · exact Or.inr (List.mem_append_right _ later)
              obtain ⟨closed, covers, rest⟩ := ih shorter expandedMore failed
              refine ⟨closed, ?_, rest⟩
              rintro other (inSeen | onStack)
              · exact covers other (Or.inl (List.mem_cons_of_mem _ inSeen))
              · rcases List.mem_cons.mp onStack with rfl | later
                · exact covers other (Or.inl List.mem_cons_self)
                · exact covers other (Or.inr (List.mem_append_right _ later))

/-- With enough rounds the search from one key decides whether it reaches the target. -/
theorem search_iff {rounds : Nat} {root : κ} (potential : List κ → Nat)
    (pays : ∀ key seen, key ∉ seen → (succ key).length + potential (key :: seen) ≤ potential seen)
    (enough : 1 + potential [] ≤ rounds) :
    search succ target rounds [] [root] = true ↔
      Relation.ReflTransGen (Step succ) root target := by
  constructor
  · intro found
    obtain ⟨key, member, path⟩ := search_sound found
    rwa [List.mem_singleton.mp member] at path
  · intro path
    cases failed : search succ target rounds [] [root] with
    | true => rfl
    | false =>
        obtain ⟨closed, covers, misses, isClosed⟩ :=
          closed_of_search_eq_false pays (by simpa using enough) (by simp) failed
        have inClosed : ∀ {finish}, Relation.ReflTransGen (Step succ) root finish →
            finish ∈ closed := by
          intro finish walk
          induction walk with
          | refl => exact covers root (Or.inr List.mem_cons_self)
          | tail _ last ih => exact isClosed _ ih _ last
        exact absurd (inClosed path) misses

end Reach

end ThetaDirectory.Library
