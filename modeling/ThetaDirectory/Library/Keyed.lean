import Mathlib.Data.List.Nodup

/-!
# Lists with distinct keys

Where no two rows have one key, a search for a key finds the row that has it.
-/

namespace ThetaDirectory.Library

namespace Keyed

variable {α κ : Type*} [BEq κ] [LawfulBEq κ] {key : α → κ} {rows now : List α} {row : α}

theorem find?_eq_some_iff (distinct : (rows.map key).Nodup) {wanted : κ} :
    (rows.find? fun row => key row == wanted) = some row ↔ row ∈ rows ∧ key row = wanted := by
  constructor
  · intro found
    exact ⟨List.mem_of_find?_eq_some found, by simpa using List.find?_some found⟩
  · intro named
    obtain ⟨member, rfl⟩ := named
    cases found : rows.find? fun other => key other == key row with
    | none => exact absurd (beq_self_eq_true (key row)) (List.find?_eq_none.mp found row member)
    | some other =>
        have inTable := List.mem_of_find?_eq_some found
        have sameKey : key other = key row := by simpa using List.find?_some found
        rw [List.inj_on_of_nodup_map distinct inTable member sameKey]

/-- Where no key stands twice, a pair of the list is what its key leads to. -/
theorem lookup_eq_some_iff {pairs : List (κ × α)} (distinct : (pairs.map Prod.fst).Nodup)
    {wanted : κ} {value : α} : pairs.lookup wanted = some value ↔ (wanted, value) ∈ pairs := by
  constructor
  · intro found
    obtain ⟨front, back, listed, -⟩ := List.lookup_eq_some_iff.mp found
    exact listed ▸ List.mem_append_right _ List.mem_cons_self
  · intro member
    cases found : pairs.lookup wanted with
    | none =>
        have different := List.lookup_eq_none_iff.mp found _ member
        simp at different
    | some other =>
        obtain ⟨front, back, listed, -⟩ := List.lookup_eq_some_iff.mp found
        have inList : (wanted, other) ∈ pairs :=
          listed ▸ List.mem_append_right _ List.mem_cons_self
        exact congrArg (fun pair => some pair.2)
          (List.inj_on_of_nodup_map distinct inList member rfl)

/-- To change the row that is found is to change all rows that have its key. -/
theorem modify_eq_map (distinct : (rows.map key).Nodup) {wanted : κ} {index : Nat}
    (found : (rows.findIdx? fun row => key row == wanted) = some index) (change : α → α) :
    rows.modify index change = rows.map fun row => if key row == wanted then change row else row := by
  induction rows generalizing index with
  | nil => cases found
  | cons first rest ih =>
      rw [List.map_cons, List.nodup_cons] at distinct
      rw [List.findIdx?_cons] at found
      rw [List.map_cons]
      split at found
      · rename_i isFirst
        cases found
        have others : rest.map (fun row => if key row == wanted then change row else row) = rest := by
          apply (List.map_congr_left ?_).trans (List.map_id' rest)
          intro row member
          apply if_neg
          rw [beq_iff_eq]
          intro isRow
          exact distinct.1 ((eq_of_beq isFirst).trans isRow.symm ▸ List.mem_map_of_mem member)
        rw [if_pos isFirst, others]
        rfl
      · rename_i other
        obtain ⟨behind, later, rfl⟩ := Option.map_eq_some_iff.mp found
        rw [if_neg other, ← ih distinct.2 later]
        rfl

/-- A row is found again after a change of all rows that keeps the keys. -/
theorem find?_of_forall₂ {holds : α → α → Prop} (distinct : (rows.map key).Nodup)
    (entries : List.Forall₂ (fun row out => key out = key row ∧ holds row out) rows now)
    (member : row ∈ rows) :
    ∃ out, (now.find? fun other => key other == key row) = some out ∧ holds row out := by
  induction entries with
  | nil => cases member
  | @cons first out rest now related entries ih =>
      obtain ⟨sameKey, holds⟩ := related
      rw [List.map_cons, List.nodup_cons] at distinct
      rcases List.mem_cons.mp member with rfl | later
      · exact ⟨out, List.find?_cons_of_pos (by simpa using sameKey), holds⟩
      · have apart : key out ≠ key row := fun same =>
          distinct.1 (sameKey.symm.trans same ▸ List.mem_map_of_mem later)
        rw [List.find?_cons_of_neg (by simpa using apart)]
        exact ih distinct.2 later

end Keyed

end ThetaDirectory.Library
