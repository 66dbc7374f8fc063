import Mathlib.Data.List.Basic
import Mathlib.Data.List.Pairwise

/-!
# Tables with unique columns

A database table with some columns whose values differ between any two rows.  A write that
would break this is refused.
-/

namespace ThetaDirectory.Library

universe u

/-- Two rows differ in every unique column. -/
def Differ {α : Type u} (columns : List (α → String)) (row other : α) : Prop :=
  ∀ column ∈ columns, column row ≠ column other

/-- Rows that differ in their unique columns. -/
structure Table (α : Type u) (columns : List (α → String)) where
  rows : List α
  unique : rows.Pairwise (Differ columns)

namespace Table

variable {α : Type u} {columns : List (α → String)}

instance (row other : α) : Decidable (Differ columns row other) := by
  unfold Differ
  infer_instance

theorem differ_symm {row other : α} (differ : Differ columns row other) :
    Differ columns other row :=
  fun column member => (differ column member).symm

instance : Std.Symm (Differ columns) := ⟨fun _ _ => differ_symm⟩

theorem unique_append {row : α} {front back : List α}
    (unique : (front ++ back).Pairwise (Differ columns))
    (fits : ∀ other ∈ front ++ back, Differ columns other row) :
    (front ++ row :: back).Pairwise (Differ columns) := by
  rw [List.pairwise_middle differ_symm, List.pairwise_cons]
  exact ⟨fun other member => differ_symm (fits other member), unique⟩

theorem unique_concat {row : α} {rows : List α} (unique : rows.Pairwise (Differ columns))
    (fits : ∀ other ∈ rows, Differ columns other row) :
    (rows ++ [row]).Pairwise (Differ columns) := by
  have same : rows ++ [] = rows := List.append_nil rows
  exact unique_append (same.symm ▸ unique) (same.symm ▸ fits)

theorem unique_modify {rows : List α} {index : Nat} {change : α → α}
    (unique : rows.Pairwise (Differ columns))
    (fits : ∀ row ∈ rows[index]?, ∀ other ∈ rows.eraseIdx index, Differ columns other (change row)) :
    (rows.modify index change).Pairwise (Differ columns) := by
  rcases Nat.lt_or_ge index rows.length with inside | outside
  · obtain ⟨front, row, back, rfl, rfl, modified⟩ := List.exists_of_modify change inside
    rw [modified]
    rw [List.getElem?_append_right (Nat.le_refl _), Nat.sub_self,
      List.eraseIdx_append_of_length_le (Nat.le_refl _), Nat.sub_self] at fits
    exact unique_append (unique.sublist (List.Sublist.append_left (List.sublist_cons_self _ _) _))
      (fits row rfl)
  · rwa [List.modify_eq_self outside]

def empty : Table α columns := ⟨[], .nil⟩

def insert (row : α) (table : Table α columns) : Option (Table α columns) :=
  if fits : ∀ other ∈ table.rows, Differ columns other row then
    some ⟨table.rows ++ [row], unique_concat table.unique fits⟩
  else none

def remove (drop : α → Bool) (table : Table α columns) : Table α columns :=
  ⟨table.rows.filter fun row => !drop row, table.unique.filter _⟩

/-- Change all rows without touching the unique columns. -/
def map (change : α → α) (keeps : ∀ column ∈ columns, ∀ row, column (change row) = column row)
    (table : Table α columns) : Table α columns where
  rows := table.rows.map change
  unique := table.unique.map change fun row other differ column member => by
    rw [keeps column member, keeps column member]
    exact differ column member

/-- Change the first selected row, if there is one. -/
def update (select : α → Bool) (change : α → α) (table : Table α columns) :
    Option (Table α columns) :=
  let index := table.rows.findIdx select
  if fits : ∀ row ∈ table.rows[index]?, ∀ other ∈ table.rows.eraseIdx index,
      Differ columns other (change row) then
    some ⟨table.rows.modify index change, unique_modify table.unique fits⟩
  else none

variable {table after : Table α columns} {row other : α}

theorem differ_of_mem (member : row ∈ table.rows) (memberOther : other ∈ table.rows)
    (different : row ≠ other) : Differ columns row other :=
  table.unique.forall member memberOther different

/-- Rows with the same value in a unique column are one row. -/
theorem eq_of_column (column : α → String) (listed : column ∈ columns)
    (member : row ∈ table.rows) (memberOther : other ∈ table.rows)
    (same : column row = column other) : row = other := by
  by_contra different
  exact differ_of_mem member memberOther different column listed same

@[simp] theorem mem_remove {drop : α → Bool} :
    row ∈ (table.remove drop).rows ↔ row ∈ table.rows ∧ drop row = false := by
  simp [remove, List.mem_filter]

theorem rows_insert (inserted : table.insert row = some after) :
    after.rows = table.rows ++ [row] := by
  unfold insert at inserted
  split at inserted
  · cases inserted
    rfl
  · cases inserted

theorem mem_insert (inserted : table.insert row = some after) :
    other ∈ after.rows ↔ other ∈ table.rows ∨ other = row := by
  rw [rows_insert inserted, List.mem_append, List.mem_singleton]

/-- A row was inserted exactly if it differs from those that were there. -/
theorem insert_isSome : (table.insert row).isSome ↔ ∀ other ∈ table.rows, Differ columns other row := by
  unfold insert
  split
  · simp_all
  · simp_all

/-- An update leaves everything as it is, or changes one selected row. -/
theorem update_cases {select : α → Bool} {change : α → α}
    (updated : table.update select change = some after) :
    (∀ row ∈ table.rows, select row = false) ∧ after = table ∨
      ∃ front row back, table.rows = front ++ row :: back ∧ select row = true ∧
        after.rows = front ++ change row :: back := by
  unfold update at updated
  dsimp only at updated
  split at updated
  · cases updated
    by_cases inside : table.rows.findIdx select < table.rows.length
    · obtain ⟨front, row, back, split, length, modified⟩ := List.exists_of_modify change inside
      refine Or.inr ⟨front, row, back, split, ?_, modified⟩
      have here : table.rows[table.rows.findIdx select]? = some row := by
        rw [← length, split, List.getElem?_append_right (Nat.le_refl _), Nat.sub_self]
        rfl
      obtain ⟨bound, same⟩ := List.getElem?_eq_some_iff.mp here
      rw [← same]
      exact List.findIdx_getElem
    · have none := List.findIdx_eq_length.mp
        (Nat.le_antisymm List.findIdx_le_length (Nat.not_lt.mp inside))
      refine Or.inl ⟨fun row member => by simpa using none row member, ?_⟩
      cases table
      simp only [List.modify_eq_self (Nat.not_lt.mp inside)]
  · cases updated

theorem mem_of_update {select : α → Bool} {change : α → α}
    (updated : table.update select change = some after) (member : other ∈ after.rows) :
    other ∈ table.rows ∨ ∃ row ∈ table.rows, other = change row := by
  rcases update_cases updated with ⟨-, rfl⟩ | ⟨front, row, back, split, -, rows⟩
  · exact Or.inl member
  · rw [rows, List.mem_append, List.mem_cons] at member
    rw [split]
    rcases member with ahead | rfl | behind
    · exact Or.inl (List.mem_append_left _ ahead)
    · exact Or.inr ⟨row, List.mem_append_right _ List.mem_cons_self, rfl⟩
    · exact Or.inl (List.mem_append_right _ (List.mem_cons_of_mem _ behind))

/-- The rows behind an update of the row with a value in a unique column. -/
theorem mem_update {column : α → String} {value : String} {change : α → α}
    (listed : column ∈ columns)
    (updated : table.update (fun row => column row == value) change = some after) :
    other ∈ after.rows ↔ other ∈ table.rows ∧ column other ≠ value ∨
      ∃ row ∈ table.rows, column row = value ∧ other = change row := by
  rcases update_cases updated with ⟨none, rfl⟩ | ⟨front, row, back, split, selected, rows⟩
  · have absent : ∀ row ∈ after.rows, column row ≠ value := fun row member => by
      simpa using none row member
    constructor
    · exact fun member => Or.inl ⟨member, absent other member⟩
    · rintro (⟨member, -⟩ | ⟨row, member, same, -⟩)
      · exact member
      · exact absurd same (absent row member)
  · have value_eq : column row = value := by simpa using selected
    have here : row ∈ table.rows := by simp [split]
    have apart : ∀ kept ∈ front ++ back, column kept ≠ value := by
      intro kept member same
      have unique := table.unique
      rw [split, List.pairwise_middle differ_symm, List.pairwise_cons] at unique
      exact unique.1 kept member column listed (value_eq.trans same.symm)
    rw [rows]
    simp only [List.mem_append, List.mem_cons]
    constructor
    · rintro (before | rfl | behind)
      · exact Or.inl ⟨by simp [split, before], apart other (List.mem_append_left _ before)⟩
      · exact Or.inr ⟨row, here, value_eq, rfl⟩
      · exact Or.inl ⟨by simp [split, behind], apart other (List.mem_append_right _ behind)⟩
    · rintro (⟨member, different⟩ | ⟨selectedRow, member, same, rfl⟩)
      · rw [split, List.mem_append, List.mem_cons] at member
        rcases member with before | rfl | behind
        · exact Or.inl before
        · exact absurd value_eq different
        · exact Or.inr (Or.inr behind)
      · rw [eq_of_column column listed member here (same.trans value_eq.symm)]
        exact Or.inr (Or.inl rfl)

/-! ## Rows that stay -/

/-- Every row is still there under its key, and a flag that was off is still off. -/
def Later (key : α → String) (flag : α → Bool) (before after : Table α columns) : Prop :=
  ∀ row ∈ before.rows, ∃ other ∈ after.rows, key other = key row ∧
    (flag row = false → flag other = false)

variable {key : α → String} {flag : α → Bool}

theorem Later.refl (table : Table α columns) : Later key flag table table :=
  fun row member => ⟨row, member, rfl, id⟩

theorem later_insert (inserted : table.insert row = some after) : Later key flag table after :=
  fun other member => ⟨other, (mem_insert inserted).mpr (Or.inl member), rfl, id⟩

theorem later_update {select : α → Bool} {change : α → α}
    (updated : table.update select change = some after)
    (keeps : ∀ row, key (change row) = key row ∧ (flag row = false → flag (change row) = false)) :
    Later key flag table after := by
  intro other member
  rcases update_cases updated with ⟨-, rfl⟩ | ⟨front, row, back, split, -, rows⟩
  · exact ⟨other, member, rfl, id⟩
  · rw [split, List.mem_append, List.mem_cons] at member
    rw [rows]
    rcases member with ahead | rfl | behind
    · exact ⟨other, List.mem_append_left _ ahead, rfl, id⟩
    · exact ⟨change other, List.mem_append_right _ List.mem_cons_self, keeps other⟩
    · exact ⟨other, List.mem_append_right _ (List.mem_cons_of_mem _ behind), rfl, id⟩

end Table

end ThetaDirectory.Library
