import ThetaDirectory.Library.Table

/-!
# Rows that are spent

Tables whose rows stay as they are until they are spent, which changes a row once and for all.
-/

namespace ThetaDirectory.Library.Table

universe u

variable {α : Type u} {columns : List (α → String)} {table middle after : Table α columns}
  {row other : α} {spend : α → α}

/-- The row is there, as it was or spent. -/
def Holds (spend : α → α) (table : Table α columns) (row : α) : Prop :=
  row ∈ table.rows ∨ spend row ∈ table.rows

/-- Every row is still there, as it was or spent. -/
def Lasts (spend : α → α) (before after : Table α columns) : Prop :=
  ∀ row ∈ before.rows, after.Holds spend row

theorem Lasts.refl (table : Table α columns) : Lasts spend table table :=
  fun _ listed => Or.inl listed

/-- What a table holds it still holds later, and what is spent stays spent. -/
theorem Lasts.holds (idempotent : ∀ row, spend (spend row) = spend row)
    (lasts : Lasts spend table after) (holds : table.Holds spend row) : after.Holds spend row := by
  cases holds with
  | inl here => exact lasts row here
  | inr spent =>
      have later := lasts (spend row) spent
      rw [Holds, idempotent, or_self] at later
      exact Or.inr later

theorem Lasts.spent (idempotent : ∀ row, spend (spend row) = spend row)
    (lasts : Lasts spend table after) (spent : spend row ∈ table.rows) : spend row ∈ after.rows := by
  have later := lasts (spend row) spent
  rwa [Holds, idempotent, or_self] at later

theorem lasts_insert (inserted : table.insert row = some after) : Lasts spend table after :=
  fun _ listed => Or.inl ((mem_insert inserted).mpr (Or.inl listed))

theorem lasts_update {select : α → Bool} (updated : table.update select spend = some after) :
    Lasts spend table after := by
  intro other listed
  rcases update_cases updated with ⟨-, rfl⟩ | ⟨front, row, back, split, -, rows⟩
  · exact Or.inl listed
  · rw [split, List.mem_append, List.mem_cons] at listed
    rw [Holds, rows]
    rcases listed with ahead | rfl | behind
    · exact Or.inl (List.mem_append_left _ ahead)
    · exact Or.inr (List.mem_append_right _ List.mem_cons_self)
    · exact Or.inl (List.mem_append_right _ (List.mem_cons_of_mem _ behind))

/-- An update by key spends what the table holds under the key. -/
theorem spent_of_update {column : α → String} (listed : column ∈ columns)
    (idempotent : ∀ row, spend (spend row) = spend row)
    (keeps : ∀ row, column (spend row) = column row)
    (updated : table.update (fun other => column other == column row) spend = some after)
    (holds : table.Holds spend row) : spend row ∈ after.rows := by
  rw [mem_update listed updated]
  cases holds with
  | inl here => exact Or.inr ⟨row, here, rfl, rfl⟩
  | inr spent => exact Or.inr ⟨spend row, spent, keeps row, (idempotent row).symm⟩

/-- What holds of the rows that come in, and of a spent row with the row, holds of all rows. -/
theorem forall_of_update {holds : α → Prop} {select : α → Bool}
    (updated : table.update select spend = some after) (all : ∀ row ∈ table.rows, holds row)
    (spends : ∀ row, holds row → holds (spend row)) : ∀ row ∈ after.rows, holds row := by
  intro row listed
  rcases mem_of_update updated listed with before | ⟨old, before, rfl⟩
  · exact all row before
  · exact spends old (all old before)

theorem forall_of_insert {holds : α → Prop} (inserted : table.insert other = some after)
    (all : ∀ row ∈ table.rows, holds row) (new : holds other) : ∀ row ∈ after.rows, holds row := by
  intro row listed
  rcases (mem_insert inserted).mp listed with before | rfl
  · exact all row before
  · exact new

end ThetaDirectory.Library.Table
