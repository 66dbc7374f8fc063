import Mathlib.Data.List.Basic

/-!
# Positions of a list that grows

What stands at a position after an entry was appended or changed.
-/

namespace ThetaDirectory.Library.Positions

universe u

variable {α : Type u} {entries : List α} {entry found : α} {position other : Nat}

theorem getElem?_concat_iff :
    (entries ++ [entry])[position]? = some found ↔
      entries[position]? = some found ∨ position = entries.length ∧ found = entry := by
  rcases Nat.lt_trichotomy position entries.length with earlier | same | later
  · rw [List.getElem?_append_left earlier]
    simp [Nat.ne_of_lt earlier]
  · subst same
    simp [eq_comm]
  · have beyond : entries[position]? = none := List.getElem?_eq_none (Nat.le_of_lt later)
    rw [List.getElem?_eq_none (by rw [List.length_append]; exact later), beyond]
    simp [Nat.ne_of_gt later]

theorem modify_concat (change : α → α) :
    (entries ++ [entry]).modify entries.length change = entries ++ [change entry] := by
  simp [List.modify_eq_take_drop]

theorem getElem?_modify_iff {change : α → α} :
    (entries.modify position change)[other]? = some found ↔
      ∃ before, entries[other]? = some before ∧
        found = if position = other then change before else before := by
  rw [List.getElem?_modify, Option.map_eq_map, Option.map_eq_some_iff]
  exact exists_congr fun _ => and_congr_right fun _ => eq_comm

theorem map_modify_of_eq {β : Type*} {change : α → α} {view : α → β}
    (same : ∀ entry, view (change entry) = view entry) :
    (entries.modify position change).map view = entries.map view := by
  apply List.ext_getElem?
  intro index
  rw [List.getElem?_map, List.getElem?_map, List.getElem?_modify]
  cases entries[index]? with
  | none => rfl
  | some entry =>
      change some (view (if position = index then change entry else entry)) = some (view entry)
      split
      · exact congrArg some (same entry)
      · rfl

theorem getElem?_set_iff (present : position < entries.length) :
    (entries.set position entry)[other]? = some found ↔
      other = position ∧ found = entry ∨ other ≠ position ∧ entries[other]? = some found := by
  by_cases same : other = position
  · subst same
    simp [List.getElem?_set_self present, eq_comm]
  · simp [List.getElem?_set_ne (Ne.symm same), same]

end ThetaDirectory.Library.Positions
