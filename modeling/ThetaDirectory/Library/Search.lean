import Mathlib.Data.List.Infix

/-!
# Searching a text for a word

The last position at which a word occurs, over an arbitrary alphabet, with the
facts needed to search behind a stretch that cannot start the word.
-/

namespace ThetaDirectory.Library

variable {α : Type*} [DecidableEq α]

/-- The last index at which a non-empty `word` occurs in the text. -/
def lastIndexOf (word : List α) : List α → Option Nat
  | [] => none
  | head :: rest =>
      match lastIndexOf word rest with
      | some index => some (index + 1)
      | none => if word <+: head :: rest then some 0 else none

/-- A reported occurrence leaves room for the whole word. -/
theorem lastIndexOf_le {word text : List α} {index : Nat}
    (found : lastIndexOf word text = some index) :
    index + word.length ≤ text.length := by
  induction text generalizing index with
  | nil => simp [lastIndexOf] at found
  | cons head rest ih =>
      cases later : lastIndexOf word rest with
      | some position =>
          simp only [lastIndexOf, later, Option.some.injEq] at found
          have room := ih later
          simp only [List.length_cons]
          omega
      | none =>
          simp only [lastIndexOf, later, Option.ite_none_right_eq_some] at found
          obtain ⟨occurs, same⟩ := found
          have room := occurs.length_le
          simp only [Option.some.injEq] at same
          omega

/-- The search fails exactly when the word does not occur. -/
theorem lastIndexOf_eq_none {word text : List α} (nonempty : word ≠ []) :
    lastIndexOf word text = none ↔ ¬ word <:+: text := by
  induction text with
  | nil => simp [lastIndexOf, nonempty]
  | cons head rest ih =>
      rw [List.infix_cons_iff]
      cases later : lastIndexOf word rest with
      | some position =>
          have occurs : word <:+: rest := by
            by_contra absent
            simp [ih.mpr absent] at later
          simp [lastIndexOf, later, occurs]
      | none => simp [lastIndexOf, later, ih.mp later]

/-- A stretch without the word's first letter only shifts the last occurrence. -/
theorem lastIndexOf_append {first : α} {word front text : List α}
    (absent : first ∉ front) :
    lastIndexOf (first :: word) (front ++ text) =
      (lastIndexOf (first :: word) text).map (front.length + ·) := by
  induction front with
  | nil => simp
  | cons head front ih =>
      have headNe : first ≠ head := fun equal => absent (by simp [equal])
      have tailAbsent : first ∉ front := fun member => absent (by simp [member])
      have noPrefix : ¬ first :: word <+: head :: (front ++ text) := by
        simp [List.cons_prefix_cons, headNe]
      rw [List.cons_append, lastIndexOf, ih tailAbsent]
      cases lastIndexOf (first :: word) text with
      | none => simp [noPrefix]
      | some position => simp; omega

/-- From its last occurrence on, a text starts with the word. -/
theorem lastIndexOf_drop {word text : List α} {index : Nat}
    (found : lastIndexOf word text = some index) :
    lastIndexOf word (text.drop index) = some 0 := by
  induction text generalizing index with
  | nil => simp [lastIndexOf] at found
  | cons head rest ih =>
      cases later : lastIndexOf word rest with
      | some position =>
          simp only [lastIndexOf, later, Option.some.injEq] at found
          subst found
          exact ih later
      | none =>
          have whole := found
          simp only [lastIndexOf, later, Option.ite_none_right_eq_some,
            Option.some.injEq] at found
          obtain ⟨-, rfl⟩ := found
          exact whole

/-- A word at the front of a text is a prefix of it. -/
theorem prefix_of_lastIndexOf_zero {word text : List α}
    (found : lastIndexOf word text = some 0) : word <+: text := by
  cases text with
  | nil => simp [lastIndexOf] at found
  | cons head rest =>
      cases later : lastIndexOf word rest with
      | some position => simp [lastIndexOf, later] at found
      | none =>
          simp only [lastIndexOf, later, Option.ite_none_right_eq_some] at found
          exact found.1

end ThetaDirectory.Library
