import ThetaDirectory.Access.Inheritance
import ThetaDirectory.Discovery.Store

/-!
# The grants a user holds

`grantsFor` of `routes/discovery.js` collects the levels of the rows that bind a user's
groups to resources: those that go down the catalogue and, apart from them, those of the
meta groups.  A blank level stands for a missing one as well.
-/

namespace ThetaDirectory.Access

open Catalog Groups Library

/-- The edge table as the access walks read it. -/
def edgesOf (store : Discovery.Store) : List ResourceEdge :=
  store.edges.map fun edge => ⟨some edge.parentId, some edge.childId, edge.relation, edge.source⟩

/-- The level of a row; a missing one is read as `access`. -/
def grantLevel (row : ResourceGroup) : String :=
  if row.accessLevel = "" then "access" else row.accessLevel

/-- The stronger of the row's level and what the resource has so far. -/
def raiseGrant (grants : Grants) (row : ResourceGroup) : Grants :=
  grants.insert row.resourceId
    (strongest (levelAt grants row.resourceId) (some (grantLevel row)))

/-- The maps `grants` and `nonInheriting` of the groups. -/
def grantsFor (rows : List ResourceGroup) (groupCns : List String) : Grants × Grants :=
  (rows.filter fun row => groupCns.contains row.groupCn).foldl
    (fun (grants : Grants × Grants) row =>
      if isMetaGroup (some row.groupCn) then (grants.1, raiseGrant grants.2 row)
      else (raiseGrant grants.1 row, grants.2)) (∅, ∅)

/-! ## What is collected -/

theorem rankAt_empty (id : String) : rankAt ∅ id = 0 := rankAt_eq_zero_of_notMem (by simp)

theorem le_rankAt_foldl_raiseGrant {rows : List ResourceGroup} {grants : Grants} {id : String}
    {rank : Nat} : rank ≤ rankAt (rows.foldl raiseGrant grants) id ↔ rank ≤ rankAt grants id ∨
      ∃ row ∈ rows, row.resourceId = id ∧ rank ≤ rankOf (some (grantLevel row)) := by
  induction rows generalizing grants with
  | nil => simp
  | cons row rows ih =>
      rw [List.foldl_cons, ih, raiseGrant, rankAt_insert, List.exists_mem_cons_iff]
      by_cases same : id = row.resourceId
      · subst same
        rw [if_pos rfl, rankOf_strongest, le_max_iff, rankAt, or_assoc]
        simp
      · rw [if_neg same]
        simp [Ne.symm same]

theorem mem_foldl_raiseGrant {rows : List ResourceGroup} {grants : Grants} {id : String} :
    id ∈ rows.foldl raiseGrant grants ↔ id ∈ grants ∨ ∃ row ∈ rows, row.resourceId = id := by
  induction rows generalizing grants with
  | nil => simp
  | cons row rows ih =>
      rw [List.foldl_cons, ih, raiseGrant, AList.mem_insert, List.exists_mem_cons_iff]
      grind

/-- The two maps are collected apart. -/
theorem grantsFor_eq (rows : List ResourceGroup) (groupCns : List String) :
    grantsFor rows groupCns =
      ((rows.filter fun row => groupCns.contains row.groupCn &&
          !isMetaGroup (some row.groupCn)).foldl raiseGrant ∅,
        (rows.filter fun row => groupCns.contains row.groupCn &&
          isMetaGroup (some row.groupCn)).foldl raiseGrant ∅) := by
  have apart : ∀ (rows : List ResourceGroup) (grants nonInheriting : Grants),
      rows.foldl (fun (grants : Grants × Grants) row =>
        if isMetaGroup (some row.groupCn) then (grants.1, raiseGrant grants.2 row)
        else (raiseGrant grants.1 row, grants.2)) (grants, nonInheriting) =
      ((rows.filter fun row => !isMetaGroup (some row.groupCn)).foldl raiseGrant grants,
        (rows.filter fun row => isMetaGroup (some row.groupCn)).foldl raiseGrant
          nonInheriting) := by
    intro rows
    induction rows with
    | nil => exact fun _ _ => rfl
    | cons row rows ih =>
        intro grants nonInheriting
        rw [List.foldl_cons]
        by_cases isMeta : isMetaGroup (some row.groupCn) = true
        · simp [isMeta, ih]
        · simp [isMeta, ih]
  rw [grantsFor, apart]
  simp only [List.filter_filter, Bool.and_comm]

/-- A level the groups have on a resource, of a row that goes down the catalogue. -/
theorem le_rankAt_grantsFor {rows : List ResourceGroup} {groupCns : List String} {id : String}
    {rank : Nat} (positive : 0 < rank) : rank ≤ rankAt (grantsFor rows groupCns).1 id ↔
      ∃ row ∈ rows, row.groupCn ∈ groupCns ∧ isMetaGroup (some row.groupCn) = false ∧
        row.resourceId = id ∧ rank ≤ rankOf (some (grantLevel row)) := by
  rw [grantsFor_eq, le_rankAt_foldl_raiseGrant, rankAt_empty, Nat.le_zero]
  simp only [positive.ne', false_or, List.mem_filter, List.contains_iff_mem, Bool.and_eq_true,
    Bool.not_eq_true', and_assoc]

theorem mem_grantsFor {rows : List ResourceGroup} {groupCns : List String} {id : String} :
    id ∈ (grantsFor rows groupCns).1 ↔ ∃ row ∈ rows, row.groupCn ∈ groupCns ∧
      isMetaGroup (some row.groupCn) = false ∧ row.resourceId = id := by
  rw [grantsFor_eq, mem_foldl_raiseGrant]
  simp [and_assoc]

theorem mem_grantsFor_nonInheriting {rows : List ResourceGroup} {groupCns : List String}
    {id : String} : id ∈ (grantsFor rows groupCns).2 ↔ ∃ row ∈ rows, row.groupCn ∈ groupCns ∧
      isMetaGroup (some row.groupCn) = true ∧ row.resourceId = id := by
  rw [grantsFor_eq, mem_foldl_raiseGrant]
  simp [and_assoc]

end ThetaDirectory.Access
