import ThetaDirectory.Library.RegExp

/-!
# Escaped characters

Patterns in which a character that has a meaning stands for itself behind a backslash.  All other
escapes, and those inside a class, lie beyond the core.
-/

namespace ThetaDirectory.Library.RegExp

open Utf16

/-- A reading that may stand behind a backslash. -/
structure Escaping where
  escaped : Bool
  reading : Reading
  deriving DecidableEq, Repr

def Escaping.step (state : Escaping) (char : Char) : Except Failure Escaping :=
  if state.escaped then
    if char ∈ specials then
      .ok ⟨false, (ofChar char).foldl (fun reading unit => reading.push (.unit unit) .atom)
        state.reading⟩
    else .error .beyond
  else if char = '\\' ∧ state.reading.mode.isClass = false then .ok ⟨true, state.reading⟩
  else (state.reading.step char).map (Escaping.mk false)

/-- A pattern may not end behind a backslash. -/
def Escaping.finish (state : Escaping) : Except Failure Node :=
  if state.escaped then .error .syntaxError else state.reading.finish

def compileEscapes (pattern : String) : Except Failure Node := do
  (← pattern.toList.foldlM Escaping.step ⟨false, start⟩).finish

/-- `new RegExp(pattern)` as the test it makes, for patterns with escapes. -/
def regExpEscapes (engine : String → Option (String → Bool)) (pattern : String) :
    Option (String → Bool) :=
  match compileEscapes pattern with
  | .ok node => some fun text => node.test (ofString text)
  | .error .syntaxError => none
  | .error .beyond => engine pattern

/-- Between terms, the characters read as the terms. -/
def Spells (chars : List Char) (terms : List Node) : Prop :=
  ∀ level outer mode, mode.isClass = false →
    ∃ mode', mode'.isClass = false ∧
      chars.foldlM Escaping.step ⟨false, level, outer, mode⟩ =
        .ok ⟨false, ⟨level.branches, terms.reverse ++ level.terms⟩, outer, mode'⟩

variable {chars more : List Char} {terms others : List Node}

theorem Spells.nil : Spells [] [] :=
  fun _ _ mode outside => ⟨mode, outside, rfl⟩

theorem Spells.append (first : Spells chars terms) (second : Spells more others) :
    Spells (chars ++ more) (terms ++ others) := by
  intro level outer mode outside
  obtain ⟨middle, between, read⟩ := first level outer mode outside
  obtain ⟨last, after, readMore⟩ := second ⟨level.branches, terms.reverse ++ level.terms⟩ outer
    middle between
  refine ⟨last, after, ?_⟩
  rw [List.foldlM_append, read, List.reverse_append, List.append_assoc]
  exact readMore

theorem spells_flatMap {α : Type} {pieces : List α} {text : α → List Char} {nodes : α → List Node}
    (each : ∀ piece ∈ pieces, Spells (text piece) (nodes piece)) :
    Spells (pieces.flatMap text) (pieces.flatMap nodes) := by
  induction pieces with
  | nil => exact .nil
  | cons piece pieces ih =>
      obtain ⟨first, rest⟩ := List.forall_mem_cons.mp each
      exact first.append (ih rest)

/-- Without a backslash the characters read as they do without escapes. -/
theorem foldlM_unescaped (unescaped : '\\' ∉ chars) (reading : Reading) :
    chars.foldlM Escaping.step ⟨false, reading⟩ =
      (chars.foldlM Reading.step reading).map (Escaping.mk false) := by
  induction chars generalizing reading with
  | nil => rfl
  | cons char chars ih =>
      obtain ⟨first, rest⟩ := not_or.mp (mt List.mem_cons.mpr unescaped)
      have step : Escaping.step ⟨false, reading⟩ char =
          (reading.step char).map (Escaping.mk false) := by
        unfold Escaping.step
        rw [if_neg Bool.false_ne_true, if_neg fun both => first both.1.symm]
      rw [List.foldlM_cons, List.foldlM_cons, step]
      cases reading.step char with
      | error failure => rfl
      | ok next => exact ih rest next

theorem Reads.spells (reads : Reads chars terms) (unescaped : '\\' ∉ chars) :
    Spells chars terms := by
  intro level outer mode outside
  obtain ⟨last, after, read⟩ := reads level outer mode outside
  refine ⟨last, after, ?_⟩
  rw [foldlM_unescaped unescaped, read]
  rfl

/-- A character with a meaning stands for itself behind a backslash. -/
theorem spells_escaped {char : Char} (special : char ∈ specials) :
    Spells ['\\', char] ((ofChar char).map Node.unit) := by
  intro level outer mode outside
  refine ⟨.atom, rfl, ?_⟩
  have opened : Escaping.step ⟨false, level, outer, mode⟩ '\\' = .ok ⟨true, level, outer, mode⟩ := by
    unfold Escaping.step
    rw [if_neg Bool.false_ne_true, if_pos ⟨rfl, outside⟩]
  have closed : Escaping.step ⟨true, level, outer, mode⟩ char =
      .ok ⟨false, ⟨level.branches, ((ofChar char).map Node.unit).reverse ++ level.terms⟩, outer,
        .atom⟩ := by
    unfold Escaping.step
    rw [if_pos rfl, if_pos special, foldl_push, if_neg (ofChar_ne_nil char)]
  rw [List.foldlM_cons, opened]
  change List.foldlM Escaping.step ⟨true, level, outer, mode⟩ [char] = _
  rw [List.foldlM_cons, closed]
  rfl

theorem compileEscapes_of_spells (spells : Spells chars terms) :
    compileEscapes (String.ofList chars) = .ok (seqOf terms) := by
  obtain ⟨last, outside, read⟩ := spells ⟨[], []⟩ [] .plain rfl
  rw [compileEscapes, String.toList_ofList, start, read]
  change Escaping.finish ⟨false, ⟨[], terms.reverse ++ []⟩, [], last⟩ = _
  unfold Escaping.finish Reading.finish
  rw [if_neg Bool.false_ne_true]
  split
  · rename_i body inside
    change last = _ at inside
    rw [inside] at outside
    cases outside
  · rename_i same _
    cases same
  · simp [Level.node]

end ThetaDirectory.Library.RegExp
