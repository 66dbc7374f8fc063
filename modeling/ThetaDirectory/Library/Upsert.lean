import Mathlib.Data.List.Induction
import ThetaDirectory.Library.Table

/-!
# Upserting a table

A table takes over the rows of another copy: an incoming row changes the row it is matched
with, or makes a new one.  No row is taken away, so a row of an earlier copy that the present
one lacks stays.
-/

namespace ThetaDirectory.Library

universe u

/-- How incoming rows are taken over. -/
structure Upsert (α : Type u) (columns : List (α → String)) where
  id : α → String
  skips : α → Bool
  /-- The row an incoming one is matched with, among those at the start and those at hand. -/
  target : List α → Table α columns → α → Option α
  onto : α → α → α
  /-- The row made when there is no match, by the number of rows written before. -/
  made : Nat → α → Option α

/-- The table so far, and the keys of the rows written.  A refused write ends the upsert. -/
structure Upserted (α : Type u) (columns : List (α → String)) where
  table : Table α columns
  written : List String
  failed : Bool

namespace Upsert

variable {α : Type u} {columns : List (α → String)}

def store (run : Upserted α columns) (key : String) : Option (Table α columns) → Upserted α columns
  | some table => ⟨table, run.written ++ [key], false⟩
  | none => { run with failed := true }

def one (upsert : Upsert α columns) (start : List α) (run : Upserted α columns) (incoming : α) :
    Upserted α columns :=
  if run.failed || upsert.skips incoming then run
  else
    match upsert.target start run.table incoming with
    | some row =>
        store run (upsert.id row)
          (run.table.update (fun other => upsert.id other == upsert.id row) (upsert.onto incoming))
    | none =>
        match upsert.made run.written.length incoming with
        | some row => store run (upsert.id row) (run.table.insert row)
        | none => run

def all (upsert : Upsert α columns) (incoming : List α) (table : Table α columns) :
    Upserted α columns :=
  incoming.foldl (upsert.one table.rows) ⟨table, [], false⟩

/-- What makes an upsert one of matching rows: keys stay, and a row that is changed or made
matches the incoming one. -/
structure Lawful (upsert : Upsert α columns) (matched : α → α → Prop) : Prop where
  listed : upsert.id ∈ columns
  id_onto : ∀ incoming row, upsert.id (upsert.onto incoming row) = upsert.id row
  target : ∀ (start table : Table α columns) incoming row,
    upsert.target start.rows table incoming = some row →
      (∀ other ∈ start.rows, upsert.id other = upsert.id row → matched incoming other) ∧
        ∀ other, upsert.id other = upsert.id row → matched incoming (upsert.onto incoming other)
  made : ∀ count incoming row, upsert.made count incoming = some row → matched incoming row

/-- What holds of an upsert that has not failed: rows not written are as they were, and rows
written match an incoming one, as did the rows in their place. -/
structure Takes (upsert : Upsert α columns) (matched : α → α → Prop) (incoming : List α)
    (start : Table α columns) (run : Upserted α columns) : Prop where
  stays : ∀ row ∈ start.rows, ∃ after ∈ run.table.rows, upsert.id after = upsert.id row
  kept : ∀ row ∈ start.rows, upsert.id row ∉ run.written → row ∈ run.table.rows
  rows : ∀ row ∈ run.table.rows, row ∈ start.rows ∧ upsert.id row ∉ run.written ∨
    upsert.id row ∈ run.written ∧ ∃ source ∈ incoming, matched source row
  sources : ∀ row ∈ start.rows, upsert.id row ∈ run.written →
    ∃ source ∈ incoming, matched source row

variable {upsert : Upsert α columns} {matched : α → α → Prop} {start : Table α columns}
variable {run : Upserted α columns} {incoming : List α} {next : α} {row : α}
variable {table : Table α columns}

theorem takes_start : Takes upsert matched [] start ⟨start, [], false⟩ where
  stays := fun row member => ⟨row, member, rfl⟩
  kept := fun _ member _ => member
  rows := fun _ member => Or.inl ⟨member, List.not_mem_nil⟩
  sources := fun _ _ member => absurd member List.not_mem_nil

theorem Takes.skip (takes : Takes upsert matched incoming start run) :
    Takes upsert matched (incoming ++ [next]) start run where
  stays := takes.stays
  kept := takes.kept
  rows := fun row member => (takes.rows row member).imp_right fun ⟨written, source, held, same⟩ =>
    ⟨written, source, List.mem_append_left _ held, same⟩
  sources := fun row member written =>
    let ⟨source, held, same⟩ := takes.sources row member written
    ⟨source, List.mem_append_left _ held, same⟩

theorem Takes.update (lawful : Lawful upsert matched)
    (takes : Takes upsert matched incoming start run)
    (target : upsert.target start.rows run.table next = some row)
    (updated : run.table.update (fun other => upsert.id other == upsert.id row)
      (upsert.onto next) = some table) :
    Takes upsert matched (incoming ++ [next]) start
      ⟨table, run.written ++ [upsert.id row], false⟩ := by
  obtain ⟨before, after⟩ := lawful.target start run.table next row target
  have rows := fun other : α => (Table.mem_update lawful.listed updated : other ∈ table.rows ↔ _)
  constructor
  · intro other member
    obtain ⟨here, present, same⟩ := takes.stays other member
    by_cases written : upsert.id here = upsert.id row
    · exact ⟨upsert.onto next here, (rows _).mpr (Or.inr ⟨here, present, written, rfl⟩),
        (lawful.id_onto next here).trans same⟩
    · exact ⟨here, (rows _).mpr (Or.inl ⟨present, written⟩), same⟩
  · intro other member unwritten
    rw [List.mem_append, List.mem_singleton, not_or] at unwritten
    exact (rows _).mpr (Or.inl ⟨takes.kept other member unwritten.1, unwritten.2⟩)
  · intro other member
    rcases (rows other).mp member with ⟨present, different⟩ | ⟨here, -, same, rfl⟩
    · refine (takes.rows other present).imp (fun ⟨old, unwritten⟩ => ⟨old, ?_⟩)
        fun ⟨written, source, held, same⟩ =>
          ⟨List.mem_append_left _ written, source, List.mem_append_left _ held, same⟩
      rw [List.mem_append, List.mem_singleton, not_or]
      exact ⟨unwritten, different⟩
    · refine Or.inr ⟨?_, next, List.mem_append_right _ (List.mem_singleton_self next),
        after here same⟩
      rw [lawful.id_onto, same]
      exact List.mem_append_right _ (List.mem_singleton_self _)
  · intro other member written
    rcases List.mem_append.mp written with old | new
    · obtain ⟨source, held, same⟩ := takes.sources other member old
      exact ⟨source, List.mem_append_left _ held, same⟩
    · exact ⟨next, List.mem_append_right _ (List.mem_singleton_self next),
        before other member (List.mem_singleton.mp new)⟩

theorem Takes.insert (lawful : Lawful upsert matched)
    (takes : Takes upsert matched incoming start run) {count : Nat}
    (made : upsert.made count next = some row) (inserted : run.table.insert row = some table) :
    Takes upsert matched (incoming ++ [next]) start
      ⟨table, run.written ++ [upsert.id row], false⟩ := by
  have rows := fun other : α => (Table.mem_insert inserted : other ∈ table.rows ↔ _)
  have new : ∀ other ∈ run.table.rows, upsert.id other ≠ upsert.id row := by
    have fits := Table.insert_isSome.mp (Option.isSome_of_eq_some inserted)
    exact fun other member => fits other member upsert.id lawful.listed
  have absent : ∀ other ∈ start.rows, upsert.id other ≠ upsert.id row := by
    intro other member same
    obtain ⟨here, present, sameHere⟩ := takes.stays other member
    exact new here present (sameHere.trans same)
  constructor
  · intro other member
    obtain ⟨here, present, same⟩ := takes.stays other member
    exact ⟨here, (rows _).mpr (Or.inl present), same⟩
  · intro other member unwritten
    rw [List.mem_append, not_or] at unwritten
    exact (rows _).mpr (Or.inl (takes.kept other member unwritten.1))
  · intro other member
    rcases (rows other).mp member with present | rfl
    · refine (takes.rows other present).imp (fun ⟨old, unwritten⟩ => ⟨old, ?_⟩)
        fun ⟨written, source, held, same⟩ =>
          ⟨List.mem_append_left _ written, source, List.mem_append_left _ held, same⟩
      rw [List.mem_append, List.mem_singleton, not_or]
      exact ⟨unwritten, new other present⟩
    · exact Or.inr ⟨List.mem_append_right _ (List.mem_singleton_self _), next,
        List.mem_append_right _ (List.mem_singleton_self next), lawful.made _ _ _ made⟩
  · intro other member written
    rcases List.mem_append.mp written with old | here
    · obtain ⟨source, held, same⟩ := takes.sources other member old
      exact ⟨source, List.mem_append_left _ held, same⟩
    · exact absurd (List.mem_singleton.mp here) (absent other member)

theorem Takes.one (lawful : Lawful upsert matched)
    (takes : run.failed = false → Takes upsert matched incoming start run)
    (succeeded : (upsert.one start.rows run next).failed = false) :
    Takes upsert matched (incoming ++ [next]) start (upsert.one start.rows run next) := by
  unfold Upsert.one at succeeded ⊢
  cases failed : run.failed with
  | true =>
      rw [failed, Bool.true_or, if_pos rfl] at succeeded
      cases failed.symm.trans succeeded
  | false =>
      rw [failed, Bool.false_or] at succeeded
      rw [Bool.false_or]
      split
      · exact (takes failed).skip
      · rename_i counts
        rw [if_neg counts] at succeeded
        cases target : upsert.target start.rows run.table next with
        | some row =>
            simp only [target] at succeeded ⊢
            cases updated : run.table.update (fun other => upsert.id other == upsert.id row)
                (upsert.onto next) with
            | some table => exact (takes failed).update lawful target updated
            | none =>
                rw [updated] at succeeded
                cases succeeded
        | none =>
            simp only [target] at succeeded ⊢
            cases made : upsert.made run.written.length next with
            | none => exact (takes failed).skip
            | some row =>
                simp only [made] at succeeded ⊢
                cases inserted : run.table.insert row with
                | some table => exact (takes failed).insert lawful made inserted
                | none =>
                    rw [inserted] at succeeded
                    cases succeeded

/-- What a whole upsert has taken over, if no write was refused. -/
theorem takes_all (lawful : Lawful upsert matched) (incoming : List α) (start : Table α columns)
    (succeeded : (upsert.all incoming start).failed = false) :
    Takes upsert matched incoming start (upsert.all incoming start) := by
  unfold Upsert.all at succeeded ⊢
  induction incoming using List.reverseRecOn with
  | nil => exact takes_start
  | append_singleton incoming next ih =>
      rw [List.foldl_append, List.foldl_cons, List.foldl_nil] at succeeded ⊢
      exact Takes.one lawful ih succeeded

/-- Behind an upsert, the rows that are written or held before all match an incoming row exactly
if those held before did. -/
theorem matched_iff (lawful : Lawful upsert matched) (held : List String)
    (succeeded : (upsert.all incoming start).failed = false) :
    (∀ row ∈ (upsert.all incoming start).table.rows,
      upsert.id row ∈ held ++ (upsert.all incoming start).written →
        ∃ source ∈ incoming, matched source row) ↔
      ∀ row ∈ start.rows, upsert.id row ∈ held → ∃ source ∈ incoming, matched source row := by
  have takes := takes_all lawful incoming start succeeded
  constructor
  · intro all row member known
    by_cases written : upsert.id row ∈ (upsert.all incoming start).written
    · exact takes.sources row member written
    · exact all row (takes.kept row member written) (List.mem_append_left _ known)
  · intro all row member known
    rcases takes.rows row member with ⟨old, unwritten⟩ | ⟨-, source⟩
    · exact all row old ((List.mem_append.mp known).resolve_right unwritten)
    · exact source

/-! ## What all rows have in common -/

/-- What the rows held and the incoming ones have, and what changing and making rows keeps, all
rows have behind an upsert. -/
theorem forall_rows_all {holds : α → Prop} (start : Table α columns)
    (onto : ∀ incoming row, holds incoming → holds (upsert.onto incoming row))
    (made : ∀ count incoming row, holds incoming → upsert.made count incoming = some row → holds row)
    (held : ∀ row ∈ start.rows, holds row) (arriving : ∀ row ∈ incoming, holds row) :
    ∀ row ∈ (upsert.all incoming start).table.rows, holds row := by
  have one : ∀ (run : Upserted α columns) (next : α), (∀ row ∈ run.table.rows, holds row) →
      holds next → ∀ row ∈ (upsert.one start.rows run next).table.rows, holds row := by
    intro run next before arrives
    unfold Upsert.one
    split
    · exact before
    · split
      · rename_i target _
        cases updated : run.table.update (fun other => upsert.id other == upsert.id target)
            (upsert.onto next) with
        | none => exact before
        | some table =>
            intro row member
            rcases Table.mem_of_update updated member with old | ⟨other, -, rfl⟩
            · exact before row old
            · exact onto next other arrives
      · split
        · rename_i new makes
          cases inserted : run.table.insert new with
          | none => exact before
          | some table =>
              intro row member
              rcases (Table.mem_insert inserted).mp member with old | rfl
              · exact before row old
              · exact made _ next row arrives makes
        · exact before
  unfold Upsert.all
  induction incoming using List.reverseRecOn with
  | nil => exact held
  | append_singleton incoming next ih =>
      rw [List.foldl_append, List.foldl_cons, List.foldl_nil]
      exact one _ next (ih fun row member => arriving row (List.mem_append_left _ member))
        (arriving next (List.mem_append_right _ (List.mem_singleton_self next)))

end Upsert

end ThetaDirectory.Library
