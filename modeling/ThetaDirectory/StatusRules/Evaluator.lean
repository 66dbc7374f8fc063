import ThetaDirectory.Library.Postfix
import ThetaDirectory.StatusRules.Tokens

/-!
# Evaluation of status-rule conditions

`evaluateCondition` of `services/scheduler.js`: operators are applied while the tokens are put in
postfix order.  What the operators do to values is left open.
-/

namespace ThetaDirectory.StatusRules

open Library Library.Precedence

/-- Values, and what the operators and paths do to them. -/
structure Interpretation (β : Type) where
  number : String → β
  text : String → β
  literal : Option Bool → β
  undefined : β
  ownProperty : β → String → Option β
  negate : β → β
  combine : Operator → β → β → β

section Evaluation

variable {β : Type} (interpretation : Interpretation β)

/-- Walk from a value along own properties. -/
def resolvePath (value : β) : List String → β
  | [] => value
  | part :: parts =>
      match interpretation.ownProperty value part with
      | some value => resolvePath value parts
      | none => interpretation.undefined

def valueOf (context : β) : Operand → β
  | .number text => interpretation.number text
  | .text value => interpretation.text value
  | .literal value => interpretation.literal value
  | .path parts => resolvePath interpretation context parts

def applyOp (operator : Operator) (output : List β) : Except String (List β) :=
  if operator = .not then
    match output with
    | value :: output => .ok (interpretation.negate value :: output)
    | [] => .error "`!` has no operand"
  else
    match output with
    | right :: left :: output => .ok (interpretation.combine operator left right :: output)
    | _ => .error ("`" ++ operator.text ++ "` is missing an operand")

/-- The operator on the stack is applied before the one that comes. -/
def outranks (top incoming : Operator) : Bool :=
  if incoming.isRightAssoc then decide (incoming.precedence < top.precedence)
  else decide (incoming.precedence ≤ top.precedence)

/-- Apply operators down to a parenthesis, which is `none` on the stack. -/
def applyWhile (holds : Operator → Bool) :
    List (Option Operator) → List β → Except String (List β × List (Option Operator))
  | some top :: ops, output =>
      if holds top then (applyOp interpretation top output).bind (applyWhile holds ops)
      else .ok (output, some top :: ops)
  | ops, output => .ok (output, ops)

/-- Apply what is left, down to one value. -/
def finish : List (Option Operator) → List β → Except String β
  | [], [value] => .ok value
  | [], _ => .error "Invalid expression"
  | none :: _, _ => .error "Mismatched parentheses"
  | some top :: ops, output => (applyOp interpretation top output).bind (finish ops)

variable (context : β)

def evaluate : List Token → List (Option Operator) → List β → Except String β
  | [], ops, output => finish interpretation ops output
  | .operand operand :: tokens, ops, output =>
      evaluate tokens ops (valueOf interpretation context operand :: output)
  | .operator operator :: tokens, ops, output =>
      (applyWhile interpretation (fun top => outranks top operator) ops output).bind fun state =>
        evaluate tokens (some operator :: state.2) state.1
  | .left :: tokens, ops, output => evaluate tokens (none :: ops) output
  | .right :: tokens, ops, output =>
      (applyWhile interpretation (fun _ => true) ops output).bind fun state =>
        match state.2 with
        | [] => .error "Mismatched parentheses"
        | _ :: ops => evaluate tokens ops state.1

/-- The value of a condition; no tokens at all are false. -/
def evaluateTokens (tokens : List Token) : Except String β :=
  if tokens.isEmpty then .ok (interpretation.literal (some false))
  else evaluate interpretation context tokens [] []

def evaluateCondition (expression : String) : Except String β :=
  (tokenize expression).bind (evaluateTokens interpretation context)

end Evaluation

/-! ## Conversion first -/

/-- How the operators of conditions bind. -/
def operators : Table Operator where
  precedence := Operator.precedence
  isPrefix := Operator.isRightAssoc

section Conversion

variable {β : Type} {interpretation : Interpretation β} {context : β} {tokens : List Token}

theorem isRightAssoc_iff {operator : Operator} : operator.isRightAssoc = true ↔ operator = .not := by
  cases operator <;> decide

theorem applies_applyOp : Applies operators (applyOp interpretation)
    (fun _ => interpretation.negate) interpretation.combine where
  one := by
    intro operator isPrefix value stack
    exact if_pos (isRightAssoc_iff.mp isPrefix)
  two := by
    intro operator isInfix left right stack
    have different : operator ≠ .not := fun same =>
      Bool.eq_false_iff.mp isInfix (isRightAssoc_iff.mpr same)
    exact if_neg different
  none := by
    intro operator stack
    unfold applyOp
    split <;> exact fun same => nomatch same
  short := by
    intro operator isInfix value stack
    have different : operator ≠ .not := fun same =>
      Bool.eq_false_iff.mp isInfix (isRightAssoc_iff.mpr same)
    unfold applyOp
    rw [if_neg different]
    exact fun same => nomatch same

/-- Applying operators is running them, the last one first. -/
theorem applyWhile_eq (holds : Operator → Bool) (ops : List (Option Operator)) (output : List β) :
    applyWhile interpretation holds ops output =
      (run (valueOf interpretation context) (applyOp interpretation)
        ((popWhile holds ops).1.map Item.operator) output).map fun output =>
          (output, (popWhile holds ops).2) := by
  induction ops generalizing output with
  | nil => rfl
  | cons top ops ih =>
      cases top with
      | none => rfl
      | some top =>
          rw [applyWhile, popWhile]
          split
          · change _ = ((applyOp interpretation top output).bind _).map _
            cases applyOp interpretation top output with
            | error error => rfl
            | ok output => exact ih output
          · rfl

/-- The stack that applying operators leaves does not depend on the values. -/
theorem applyWhile_snd (context : β) {holds : Operator → Bool} {ops : List (Option Operator)}
    {output : List β} {state : List β × List (Option Operator)}
    (applied : applyWhile interpretation holds ops output = .ok state) :
    state.2 = (popWhile holds ops).2 := by
  rw [@applyWhile_eq β interpretation context] at applied
  cases runs : run (valueOf interpretation context) (applyOp interpretation)
      ((popWhile holds ops).1.map Item.operator) output with
  | error error =>
      rw [runs] at applied
      cases applied
  | ok middle =>
      rw [runs] at applied
      cases applied
      rfl

theorem bind_eq_ok {γ δ : Type} {result : Except String γ} {next : γ → Except String δ} {value : δ} :
    result.bind next = .ok value ↔ ∃ found, result = .ok found ∧ next found = .ok value := by
  cases result with
  | error error => exact iff_of_false (fun same => nomatch same) fun found => nomatch found.choose_spec.1
  | ok found =>
      constructor
      · exact fun same => ⟨found, rfl, same⟩
      · intro both
        obtain ⟨_, same, next⟩ := both
        cases same
        exact next

/-- Running a list behind some operators. -/
theorem run_operators {popped : List Operator} {order : List (Item Operand Operator)} {output : List β}
    {value : β} :
    run (valueOf interpretation context) (applyOp interpretation) (popped.map Item.operator ++ order)
        output = .ok [value] ↔
      ∃ middle, run (valueOf interpretation context) (applyOp interpretation)
          (popped.map Item.operator) output = .ok middle ∧
        run (valueOf interpretation context) (applyOp interpretation) order middle = .ok [value] := by
  rw [run_append]
  exact bind_eq_ok

theorem finish_iff {ops : List (Option Operator)} {output : List β} {value : β} :
    finish interpretation ops output = .ok value ↔ ∃ order, flush ops = some order ∧
      run (valueOf interpretation context) (applyOp interpretation) order output = .ok [value] := by
  induction ops generalizing output with
  | nil =>
      constructor
      · intro done
        cases output with
        | nil => cases done
        | cons first output =>
            cases output with
            | nil =>
                cases done
                exact ⟨[], rfl, rfl⟩
            | cons _ _ => cases done
      · intro found
        obtain ⟨_, isEmpty, runs⟩ := found
        cases isEmpty
        cases runs
        rfl
  | cons top ops ih =>
      cases top with
      | none =>
          refine iff_of_false (fun done => nomatch done) fun found => ?_
          obtain ⟨_, flushed, -⟩ := found
          cases flushed
      | some top =>
          rw [finish, bind_eq_ok, flush]
          constructor
          · intro found
            obtain ⟨middle, applied, done⟩ := found
            obtain ⟨order, flushed, runs⟩ := ih.mp done
            refine ⟨.operator top :: order, Option.map_eq_some_iff.mpr ⟨order, flushed, rfl⟩, ?_⟩
            exact bind_eq_ok.mpr ⟨middle, applied, runs⟩
          · intro found
            obtain ⟨_, mapped, runs⟩ := found
            obtain ⟨order, flushed, rfl⟩ := Option.map_eq_some_iff.mp mapped
            obtain ⟨middle, applied, rest⟩ := bind_eq_ok.mp runs
            exact ⟨middle, applied, ih.mpr ⟨order, flushed, rest⟩⟩

/-- What follows after operators were applied. -/
theorem applied_iff {holds : Operator → Bool} {ops : List (Option Operator)} {output : List β} {value : β}
    {next : List β × List (Option Operator) → Except String β}
    {rest : List (Item Operand Operator) → Prop}
    (further : ∀ middle, next (middle, (popWhile holds ops).2) = .ok value ↔ ∃ order, rest order ∧
      run (valueOf interpretation context) (applyOp interpretation) order middle = .ok [value]) :
    (applyWhile interpretation holds ops output).bind next = .ok value ↔
      ∃ order, (∃ later, rest later ∧ (popWhile holds ops).1.map Item.operator ++ later = order) ∧
        run (valueOf interpretation context) (applyOp interpretation) order output = .ok [value] := by
  rw [@applyWhile_eq β interpretation context, bind_eq_ok]
  constructor
  · intro found
    obtain ⟨state, applied, done⟩ := found
    cases runs : run (valueOf interpretation context) (applyOp interpretation)
        ((popWhile holds ops).1.map Item.operator) output with
    | error error =>
        rw [runs] at applied
        cases applied
    | ok middle =>
        rw [runs] at applied
        cases applied
        obtain ⟨order, isRest, later⟩ := (further middle).mp done
        exact ⟨_, ⟨order, isRest, rfl⟩, run_operators.mpr ⟨middle, runs, later⟩⟩
  · intro found
    obtain ⟨_, ⟨order, isRest, rfl⟩, runs⟩ := found
    obtain ⟨middle, first, later⟩ := run_operators.mp runs
    refine ⟨(middle, (popWhile holds ops).2), ?_, (further middle).mpr ⟨order, isRest, later⟩⟩
    rw [first]
    rfl

/-- Operands and operators are evaluated as their postfix order. -/
theorem evaluate_iff {ops : List (Option Operator)} {output : List β} {value : β} :
    evaluate interpretation context tokens ops output = .ok value ↔
      ∃ order, convert operators tokens ops = some order ∧
        run (valueOf interpretation context) (applyOp interpretation) order output = .ok [value] := by
  induction tokens generalizing ops output with
  | nil => exact finish_iff
  | cons symbol tokens ih =>
      cases symbol with
      | operand operand =>
          rw [evaluate, ih, convert]
          constructor
          · intro found
            obtain ⟨order, converted, runs⟩ := found
            exact ⟨.operand operand :: order, Option.map_eq_some_iff.mpr ⟨order, converted, rfl⟩, runs⟩
          · intro found
            obtain ⟨_, mapped, runs⟩ := found
            obtain ⟨order, converted, rfl⟩ := Option.map_eq_some_iff.mp mapped
            exact ⟨order, converted, runs⟩
      | operator operator =>
          rw [evaluate, convert]
          simp only [Option.map_eq_some_iff]
          exact applied_iff fun middle => ih
      | left => rw [evaluate, ih, convert]
      | right =>
          rw [evaluate, convert]
          cases below : (popWhile (fun _ => true) ops).2 with
          | nil =>
              apply iff_of_false
              · intro done
                obtain ⟨state, applied, done⟩ := bind_eq_ok.mp done
                rw [applyWhile_snd context applied, below] at done
                cases done
              · intro found
                obtain ⟨order, converted, -⟩ := found
                cases converted
          | cons top rest =>
              simp only [Option.map_eq_some_iff]
              apply applied_iff
              intro middle
              rw [below]
              exact ih

end Conversion

end ThetaDirectory.StatusRules
