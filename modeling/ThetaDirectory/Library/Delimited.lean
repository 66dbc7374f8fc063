import Mathlib.Data.List.Basic
import Mathlib.Data.List.DropRight
import Mathlib.Data.List.Infix

/-!
# Delimited text

Text built by appending fields behind a one-character delimiter, and the two
ways of taking it apart again: the field behind the last delimiter, and the
positions at which a fixed word occurs.

The list part is stated for an arbitrary alphabet.  `Delimited.field` is the
string form used for names of the shape `base_field_field`.
-/

namespace ThetaDirectory.Library

namespace Delimited

variable {α : Type*}

/-- The suffix behind the last delimiter and the prefix in front of it are both
determined by the whole text, because neither suffix contains the delimiter. -/
theorem append_cons_inj_of_right {delimiter : α} {left right lastLeft lastRight : List α}
    (leftFree : delimiter ∉ lastLeft) (rightFree : delimiter ∉ lastRight) :
    left ++ delimiter :: lastLeft = right ++ delimiter :: lastRight ↔
      left = right ∧ lastLeft = lastRight := by
  constructor
  · intro equal
    have mirrored : lastLeft.reverse ++ delimiter :: left.reverse =
        lastRight.reverse ++ delimiter :: right.reverse := by
      simpa using congrArg List.reverse equal
    rcases List.append_eq_append_iff.mp mirrored with
      ⟨middle, prefixEq, restEq⟩ | ⟨middle, prefixEq, restEq⟩
    · cases middle with
      | nil =>
          simp only [List.nil_append, List.cons.injEq, true_and] at restEq
          simp only [List.append_nil] at prefixEq
          exact ⟨List.reverse_injective restEq, (List.reverse_injective prefixEq).symm⟩
      | cons head middle =>
          simp only [List.cons_append, List.cons.injEq] at restEq
          obtain ⟨rfl, -⟩ := restEq
          have member : delimiter ∈ lastRight.reverse := by simp [prefixEq]
          exact absurd (List.mem_reverse.mp member) rightFree
    · cases middle with
      | nil =>
          simp only [List.nil_append, List.cons.injEq, true_and] at restEq
          simp only [List.append_nil] at prefixEq
          exact ⟨(List.reverse_injective restEq).symm, List.reverse_injective prefixEq⟩
      | cons head middle =>
          simp only [List.cons_append, List.cons.injEq] at restEq
          obtain ⟨rfl, -⟩ := restEq
          have member : delimiter ∈ lastLeft.reverse := by simp [prefixEq]
          exact absurd (List.mem_reverse.mp member) leftFree
  · rintro ⟨rfl, rfl⟩
    rfl

/-- Up to the first entry outside a class. -/
theorem takeWhile_append_mark {within : α → Bool} {front back : List α} {delimiter : α}
    (inside : ∀ entry ∈ front, within entry = true) (outside : within delimiter = false) :
    (front ++ delimiter :: back).takeWhile within = front := by
  rw [List.takeWhile_append_of_pos inside, List.takeWhile_cons_of_neg (by simp [outside]),
    List.append_nil]

theorem dropWhile_append_mark {within : α → Bool} {front back : List α} {delimiter : α}
    (inside : ∀ entry ∈ front, within entry = true) (outside : within delimiter = false) :
    (front ++ delimiter :: back).dropWhile within = delimiter :: back := by
  rw [List.dropWhile_append_of_pos inside, List.dropWhile_cons_of_neg (by simp [outside])]

/-- The prefix in front of the first delimiter is determined by the whole text. -/
theorem append_cons_inj_of_left {delimiter : α} {left right lastLeft lastRight : List α}
    (leftFree : delimiter ∉ left) (rightFree : delimiter ∉ right) :
    left ++ delimiter :: lastLeft = right ++ delimiter :: lastRight ↔
      left = right ∧ lastLeft = lastRight := by
  have mirrored : left ++ delimiter :: lastLeft = right ++ delimiter :: lastRight ↔
      lastLeft.reverse ++ delimiter :: left.reverse =
        lastRight.reverse ++ delimiter :: right.reverse := by
    rw [← List.reverse_inj]
    simp only [List.reverse_append, List.reverse_cons, List.append_assoc, List.singleton_append]
  rw [mirrored, append_cons_inj_of_right (by simpa using leftFree) (by simpa using rightFree),
    List.reverse_inj, List.reverse_inj, and_comm]

/-- Two texts agree exactly when they agree before and behind their last mark. -/
theorem append_mark_inj {mark : String} {delimiter : Char} (single : mark.toList = [delimiter])
    {left right lastLeft lastRight : String} (leftFree : delimiter ∉ lastLeft.toList)
    (rightFree : delimiter ∉ lastRight.toList) :
    left ++ mark ++ lastLeft = right ++ mark ++ lastRight ↔ left = right ∧ lastLeft = lastRight := by
  simp only [← String.toList_inj, String.toList_append, single, List.append_assoc,
    List.singleton_append]
  exact append_cons_inj_of_right leftFree rightFree

/-- Append one underscore-delimited field to a name. -/
def field (base value : String) : String := base ++ "_" ++ value

@[simp] theorem toList_field (base value : String) :
    (field base value).toList = base.toList ++ '_' :: value.toList := by
  simp [field]

/-- Two names agree exactly when they agree before and behind their last
delimiter. -/
theorem field_inj {left right lastLeft lastRight : String}
    (leftFree : '_' ∉ lastLeft.toList) (rightFree : '_' ∉ lastRight.toList) :
    field left lastLeft = field right lastRight ↔
      left = right ∧ lastLeft = lastRight :=
  append_mark_inj rfl leftFree rightFree

/-- A field can be split off the front of a later one. -/
theorem field_assoc (base first second : String) :
    field base (field first second) = field (field base first) second := by
  simp [field, String.append_assoc]

end Delimited

end ThetaDirectory.Library
