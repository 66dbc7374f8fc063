import Mathlib.Computability.Language
import ThetaDirectory.Library.RegExp

/-!
# Languages of patterns

What the nodes of a pattern take off the front of a text, as languages.  A pattern between the two
anchors matches the words of the language of what stands between them.
-/

namespace ThetaDirectory.Library.RegExp

open Utf16

/-- The node takes the words of the language off the front of a text, and nothing else. -/
def Takes (node : Node) (words : Language UInt16) : Prop :=
  ∀ size text rest, rest ∈ rests size node text ↔ ∃ taken ∈ words, text = taken ++ rest

/-- The runs of units that pass a test. -/
def runsOf (test : UInt16 → Bool) : Language UInt16 :=
  {taken | ∀ unit ∈ taken, test unit = true}

variable {nodes others : List Node} {words more : Language UInt16} {text : Units}

theorem takes_nil : Takes (seqOf []) 1 := by
  intro size text rest
  change rest ∈ [text] ↔ _
  simp only [List.mem_singleton, Language.mem_one, exists_eq_left, List.nil_append]
  exact eq_comm

theorem Takes.append (first : Takes (seqOf nodes) words) (second : Takes (seqOf others) more) :
    Takes (seqOf (nodes ++ others)) (words * more) := by
  intro size text rest
  rw [rests_seqOf_append, List.mem_flatMap]
  constructor
  · rintro ⟨middle, front, back⟩
    obtain ⟨taken, isWord, rfl⟩ := (first size text middle).mp front
    obtain ⟨later, isLater, rfl⟩ := (second size middle rest).mp back
    exact ⟨taken ++ later, Language.append_mem_mul isWord isLater, (List.append_assoc _ _ _).symm⟩
  · rintro ⟨taken, isWord, rfl⟩
    obtain ⟨front, isFront, back, isBack, rfl⟩ := Language.mem_mul.mp isWord
    refine ⟨back ++ rest, (first size _ _).mpr ⟨front, isFront, List.append_assoc _ _ _⟩, ?_⟩
    exact (second size _ _).mpr ⟨back, isBack, rfl⟩

/-- The pieces of a pattern, one behind the other. -/
theorem takes_flatMap {α : Type} {pieces : List α} {nodesOf : α → List Node}
    {language : α → Language UInt16}
    (each : ∀ piece ∈ pieces, Takes (seqOf (nodesOf piece)) (language piece)) :
    Takes (seqOf (pieces.flatMap nodesOf)) (pieces.map language).prod := by
  induction pieces with
  | nil => exact takes_nil
  | cons piece pieces ih =>
      obtain ⟨first, rest⟩ := List.forall_mem_cons.mp each
      rw [List.flatMap_cons, List.map_cons, List.prod_cons]
      exact first.append (ih rest)

theorem takes_units (units : Units) : Takes (seqOf (units.map Node.unit)) {units} := by
  intro size text rest
  rw [mem_rests_units]
  exact ⟨fun same => ⟨units, rfl, same⟩, fun found => found.elim fun _ both => both.1 ▸ both.2⟩

theorem takes_anyRun : Takes (seqOf [.star .any]) (runsOf fun unit => !isLineEnd unit) := by
  intro size text rest
  rw [← rests_seqOf_singleton]
  change rest ∈ repeated (takeOne fun unit => !isLineEnd unit) text.length text ↔ _
  rw [mem_repeated (Nat.le_refl _)]
  exact ⟨fun found => found.elim fun taken both => ⟨taken, both.2, both.1⟩,
    fun found => found.elim fun taken both => ⟨taken, both.2, both.1⟩⟩

theorem takes_oneOrMore {negated : Bool} {ranges : List (UInt16 × UInt16)} :
    Takes (seqOf [.seq (.set negated ranges) (.star (.set negated ranges))])
      {taken | taken ≠ [] ∧ taken ∈ runsOf (inSet negated ranges)} := by
  intro size text rest
  rw [← rests_seqOf_singleton, mem_rests_oneOrMore]
  exact ⟨fun found => found.elim fun taken all => ⟨taken, ⟨all.1, all.2.2⟩, all.2.1⟩,
    fun found => found.elim fun taken all => ⟨taken, all.1.1, all.2, all.1.2⟩⟩

/-- A pattern between the two anchors matches the words of its language. -/
theorem test_anchored_of_takes (takes : Takes (seqOf nodes) words) :
    (seqOf (.start :: (nodes ++ [.stop]))).test text = true ↔ text ∈ words := by
  rw [test_anchored, takes]
  simp

end ThetaDirectory.Library.RegExp
