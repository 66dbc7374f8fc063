import ThetaDirectory.Library.Precedence
import Mathlib.Data.List.Induction

/-!
# Postfix forms on a stack

A machine that applies operators to the values on a stack, and the entries it takes to one value.
-/

namespace ThetaDirectory.Library

namespace Precedence

variable {α ω β ε : Type*}

/-- Run entries on a stack. -/
def run (value : α → β) (apply : ω → List β → Except ε (List β)) :
    List (Item α ω) → List β → Except ε (List β)
  | [], stack => .ok stack
  | .operand operand :: order, stack => run value apply order (value operand :: stack)
  | .operator operator :: order, stack => (apply operator stack).bind (run value apply order)

/-- Operators take the values they need from the stack, and fail where there are too few. -/
structure Applies (table : Table ω) (apply : ω → List β → Except ε (List β)) (unary : ω → β → β)
    (binary : ω → β → β → β) : Prop where
  one : ∀ operator, table.isPrefix operator = true → ∀ value stack,
    apply operator (value :: stack) = .ok (unary operator value :: stack)
  two : ∀ operator, table.isPrefix operator = false → ∀ left right stack,
    apply operator (right :: left :: stack) = .ok (binary operator left right :: stack)
  none : ∀ operator stack, apply operator [] ≠ .ok stack
  short : ∀ operator, table.isPrefix operator = false → ∀ value stack,
    apply operator [value] ≠ .ok stack

/-- The postfix form of an expression. -/
inductive Formed (table : Table ω) : List (Item α ω) → Prop where
  | operand (value : α) : Formed table [.operand value]
  | one {order : List (Item α ω)} (operator : ω) (isPrefix : table.isPrefix operator = true)
      (argument : Formed table order) : Formed table (order ++ [.operator operator])
  | two {left right : List (Item α ω)} (operator : ω) (isInfix : table.isPrefix operator = false)
      (first : Formed table left) (second : Formed table right) :
      Formed table (left ++ right ++ [.operator operator])

variable {table : Table ω} {value : α → β} {apply : ω → List β → Except ε (List β)}
  {unary : ω → β → β} {binary : ω → β → β → β} {order : List (Item α ω)}

theorem run_append (order more : List (Item α ω)) (stack : List β) :
    run value apply (order ++ more) stack =
      (run value apply order stack).bind (run value apply more) := by
  induction order generalizing stack with
  | nil => rfl
  | cons item order ih =>
      cases item with
      | operand operand => exact ih _
      | operator operator =>
          change (apply operator stack).bind (run value apply (order ++ more)) = _
          change _ = ((apply operator stack).bind (run value apply order)).bind _
          cases apply operator stack with
          | error error => rfl
          | ok stack => exact ih stack

/-- A postfix form leaves one value. -/
theorem run_of_formed (applies : Applies table apply unary binary) (formed : Formed table order) :
    ∃ result, ∀ stack, run value apply order stack = .ok (result :: stack) := by
  induction formed with
  | operand operand => exact ⟨value operand, fun _ => rfl⟩
  | one operator isPrefix _ ih =>
      obtain ⟨result, runs⟩ := ih
      refine ⟨unary operator result, fun stack => ?_⟩
      rw [run_append, runs]
      change (apply operator (result :: stack)).bind _ = _
      rw [applies.one operator isPrefix]
      rfl
  | two operator isInfix _ _ ofLeft ofRight =>
      obtain ⟨first, runsLeft⟩ := ofLeft
      obtain ⟨second, runsRight⟩ := ofRight
      refine ⟨binary operator first second, fun stack => ?_⟩
      rw [run_append, run_append, runsLeft]
      change ((run value apply _ (first :: stack)).bind _) = _
      rw [runsRight]
      change (apply operator (second :: first :: stack)).bind _ = _
      rw [applies.two operator isInfix]
      rfl

/-- What leaves values on an empty stack is as many postfix forms, the last one on top. -/
theorem formed_of_run (applies : Applies table apply unary binary) {stack : List β}
    (runs : run value apply order [] = .ok stack) :
    ∃ parts : List (List (Item α ω)), parts.length = stack.length ∧
      (∀ part ∈ parts, Formed table part) ∧ order = parts.reverse.flatten := by
  induction order using List.reverseRecOn generalizing stack with
  | nil =>
      cases runs
      exact ⟨[], rfl, List.forall_mem_nil _, rfl⟩
  | append_singleton order item ih =>
      rw [run_append] at runs
      cases before : run value apply order [] with
      | error error =>
          rw [before] at runs
          cases runs
      | ok values =>
          rw [before] at runs
          obtain ⟨parts, length, formed, rfl⟩ := ih before
          cases item with
          | operand operand =>
              cases runs
              refine ⟨[.operand operand] :: parts, congrArg (· + 1) length, ?_, ?_⟩
              · exact List.forall_mem_cons.mpr ⟨.operand operand, formed⟩
              · rw [List.reverse_cons, List.flatten_append]
                rfl
          | operator operator =>
              have applied : apply operator values = .ok stack := by
                change (apply operator values).bind (fun stack => .ok stack) = .ok stack at runs
                cases result : apply operator values with
                | error error =>
                    rw [result] at runs
                    cases runs
                | ok stack =>
                    rw [result] at runs
                    exact runs
              cases values with
              | nil => exact absurd applied (applies.none operator stack)
              | cons value values =>
                  cases parts with
                  | nil => cases length
                  | cons top parts =>
                      obtain ⟨ofTop, others⟩ := List.forall_mem_cons.mp formed
                      cases isPrefix : table.isPrefix operator with
                      | true =>
                          rw [applies.one operator isPrefix] at applied
                          cases applied
                          refine ⟨(top ++ [.operator operator]) :: parts, length, ?_, ?_⟩
                          · exact List.forall_mem_cons.mpr ⟨.one operator isPrefix ofTop, others⟩
                          · simp
                      | false =>
                          cases values with
                          | nil => exact absurd applied (applies.short operator isPrefix value stack)
                          | cons left values =>
                              cases parts with
                              | nil => cases Nat.succ.inj length
                              | cons below parts =>
                                  obtain ⟨ofBelow, others⟩ := List.forall_mem_cons.mp others
                                  rw [applies.two operator isPrefix] at applied
                                  cases applied
                                  refine ⟨(below ++ top ++ [.operator operator]) :: parts,
                                    Nat.succ.inj length, ?_, ?_⟩
                                  · exact List.forall_mem_cons.mpr
                                      ⟨.two operator isPrefix ofBelow ofTop, others⟩
                                  · simp

/-- The entries that leave exactly one value are the postfix forms. -/
theorem run_iff_formed (applies : Applies table apply unary binary) :
    (∃ result, run value apply order [] = .ok [result]) ↔ Formed table order := by
  constructor
  · intro runs
    obtain ⟨result, runs⟩ := runs
    obtain ⟨parts, length, formed, rfl⟩ := formed_of_run applies runs
    obtain ⟨part, rfl⟩ := List.length_eq_one_iff.mp length
    rw [List.reverse_singleton, List.flatten_singleton]
    exact formed part (List.mem_singleton_self part)
  · intro formed
    obtain ⟨result, runs⟩ := run_of_formed applies formed
    exact ⟨result, runs []⟩

end Precedence

end ThetaDirectory.Library
