import ThetaDirectory.StatusRules.Evaluator

/-!
# What status-rule conditions mean

The grammar of conditions, with expressions that respect the precedence of their operators by
construction, and their recursive meaning.  Conditions that are sentences of it are evaluated to what
they mean; of the others some are rejected and some are not.
-/

namespace ThetaDirectory.StatusRules

open Library Library.Precedence

/-- An expression whose operators outside parentheses bind as tightly as the level, or more so. -/
inductive Expr : Nat → Type where
  | operand {level : Nat} (value : Operand) : Expr level
  | group {level : Nat} (inner : Expr 1) : Expr level
  | not {level : Nat} (fits : level ≤ Operator.not.precedence)
      (argument : Expr Operator.not.precedence) : Expr level
  | combine {level : Nat} (operator : Operator) (isBinary : operator ≠ .not)
      (fits : level ≤ operator.precedence) (left : Expr operator.precedence)
      (right : Expr (operator.precedence + 1)) : Expr level

namespace Expr

/-- The expression as it is written. -/
def tokens {level : Nat} : Expr level → List Token
  | operand value => [.operand value]
  | group inner => .left :: inner.tokens ++ [.right]
  | not _ argument => .operator .not :: argument.tokens
  | combine operator _ _ left right => left.tokens ++ .operator operator :: right.tokens

/-- The meaning of the expression. -/
def eval {β : Type} (interpretation : Interpretation β) (context : β) {level : Nat} : Expr level → β
  | operand value => valueOf interpretation context value
  | group inner => inner.eval interpretation context
  | not _ argument => interpretation.negate (argument.eval interpretation context)
  | combine operator _ _ left right =>
      interpretation.combine operator (left.eval interpretation context)
        (right.eval interpretation context)

def postfixForm {level : Nat} : Expr level → List (Item Operand Operator)
  | operand value => [.operand value]
  | group inner => inner.postfixForm
  | not _ argument => argument.postfixForm ++ [.operator .not]
  | combine operator _ _ left right => left.postfixForm ++ right.postfixForm ++ [.operator operator]

end Expr

/-- The tokens are a sentence of the grammar. -/
def Sentence (tokens : List Token) : Prop := ∃ expression : Expr 1, expression.tokens = tokens

/-! ## Sentences -/

theorem releases_not (outer : Operator) : operators.releases outer .not = false := by
  cases outer <;> decide

theorem releases_binary {outer operator : Operator} (isBinary : operator ≠ .not) :
    operators.releases outer operator = decide (operator.precedence ≤ outer.precedence) := by
  have isInfix : operator.isRightAssoc = false :=
    Bool.eq_false_iff.mpr fun isPrefix => isBinary (isRightAssoc_iff.mp isPrefix)
  exact if_neg (Bool.eq_false_iff.mp isInfix)

theorem precedence_lt {operator : Operator} (isBinary : operator ≠ .not) :
    operator.precedence < Operator.not.precedence := by
  cases operator <;> first | decide | exact absurd rfl isBinary

/-- An expression is put in postfix order, whatever it is followed by at its level. -/
theorem Expr.reads {level : Nat} (expression : Expr level) {bound : Option Operator}
    {rest : List Token} {order : List (Item Operand Operator)}
    (held : ∀ outer ∈ bound, ∀ operator : Operator, level ≤ operator.precedence →
      operators.releases outer operator = false)
    (ends : ∀ symbol ∈ rest.head?, ∃ operator : Operator, symbol = .operator operator ∧
      operator ≠ .not ∧ operator.precedence ≤ level)
    (later : Reads operators bound rest order) :
    Reads operators bound (expression.tokens ++ rest) (expression.postfixForm ++ order) := by
  induction expression generalizing bound rest order with
  | operand value => exact .operand value later
  | group inner ih =>
      have inside : Reads operators none inner.tokens inner.postfixForm := by
        have alone := @ih none [] [] (fun _ isBound => nomatch isBound) (fun _ isHead => nomatch isHead) .nil
        rwa [List.append_nil, List.append_nil] at alone
      have whole := Reads.group inside later
      rwa [List.append_cons] at whole
  | @not level fits argument ih =>
      have inside : Reads operators (some .not) argument.tokens argument.postfixForm := by
        have alone := @ih (some .not) [] [] ?_ (fun _ isHead => nomatch isHead) .nil
        · rwa [List.append_nil, List.append_nil] at alone
        · intro outer isBound operator tight
          cases isBound
          by_cases isNot : operator = .not
          · rw [isNot]
            exact releases_not .not
          · exact absurd tight (Nat.not_le.mpr (precedence_lt isNot))
      have isEnd : Ends operators .not rest := by
        intro symbol isHead
        obtain ⟨operator, rfl, isBinary, loose⟩ := ends symbol isHead
        refine Or.inr ⟨operator, rfl, ?_⟩
        rw [releases_binary isBinary]
        exact decide_eq_true (loose.trans fits)
      have whole := Reads.operator .not (fun outer isBound => held outer isBound .not fits) inside isEnd later
      rwa [List.append_cons] at whole
  | @combine level operator isBinary fits left right ofLeft ofRight =>
      have inside : Reads operators (some operator) right.tokens right.postfixForm := by
        have alone := @ofRight (some operator) [] [] ?_ (fun _ isHead => nomatch isHead) .nil
        · rwa [List.append_nil, List.append_nil] at alone
        · intro outer isBound other tight
          cases isBound
          by_cases isNot : other = .not
          · rw [isNot]
            exact releases_not operator
          · rw [releases_binary isNot]
            exact decide_eq_false (Nat.not_le.mpr tight)
      have isEnd : Ends operators operator rest := by
        intro symbol isHead
        obtain ⟨other, rfl, isBinary, loose⟩ := ends symbol isHead
        refine Or.inr ⟨other, rfl, ?_⟩
        rw [releases_binary isBinary]
        exact decide_eq_true (loose.trans fits)
      have behind := Reads.operator operator (fun outer isBound => held outer isBound operator fits)
        inside isEnd later
      have starts : ∀ symbol ∈ (Symbol.operator operator :: right.tokens ++ rest).head?,
          ∃ other : Operator, symbol = .operator other ∧ other ≠ .not ∧
            other.precedence ≤ operator.precedence := by
        intro symbol isHead
        cases isHead
        exact ⟨operator, rfl, isBinary, Nat.le_refl _⟩
      have whole := ofLeft (fun outer isBound other tight => held outer isBound other (fits.trans tight))
        starts behind
      simpa only [tokens, postfixForm, List.append_assoc, List.cons_append, List.nil_append] using whole

/-- The postfix form of an expression is run to its meaning. -/
theorem Expr.run {β : Type} (interpretation : Interpretation β) (context : β) {level : Nat}
    (expression : Expr level) (stack : List β) :
    Precedence.run (valueOf interpretation context) (applyOp interpretation) expression.postfixForm
      stack = .ok (expression.eval interpretation context :: stack) := by
  induction expression generalizing stack with
  | operand value => rfl
  | group inner ih => exact ih stack
  | not fits argument ih =>
      rw [postfixForm, run_append, ih]
      rfl
  | combine operator isBinary fits left right ofLeft ofRight =>
      rw [postfixForm, run_append, run_append, ofLeft]
      change ((Precedence.run _ _ _ (_ :: stack)).bind _) = _
      rw [ofRight]
      change (applyOp interpretation operator _).bind _ = _
      rw [applyOp, if_neg isBinary]
      rfl

theorem Expr.tokens_ne_nil {level : Nat} (expression : Expr level) : expression.tokens ≠ [] := by
  cases expression <;> simp [tokens]

theorem evaluateTokens_eq {β : Type} {interpretation : Interpretation β} {context : β}
    {tokens : List Token} (nonempty : tokens ≠ []) :
    evaluateTokens interpretation context tokens = evaluate interpretation context tokens [] [] :=
  if_neg fun empty => nonempty (List.isEmpty_iff.mp empty)

/-- What tokens evaluate to is the value their postfix order is run to. -/
theorem evaluateTokens_iff {β : Type} {interpretation : Interpretation β} {context : β}
    {tokens : List Token} (nonempty : tokens ≠ []) {value : β} :
    evaluateTokens interpretation context tokens = .ok value ↔
      ∃ order, Reads operators none tokens order ∧
        Precedence.run (valueOf interpretation context) (applyOp interpretation) order [] =
          .ok [value] := by
  rw [evaluateTokens_eq nonempty, evaluate_iff]
  simp only [convert_iff_reads]

theorem Expr.reads_alone (expression : Expr 1) :
    Reads operators none expression.tokens expression.postfixForm := by
  have alone := @Expr.reads 1 expression none [] [] (fun _ isBound => nomatch isBound)
    (fun _ isHead => nomatch isHead) .nil
  rwa [List.append_nil, List.append_nil] at alone

/-- A sentence is evaluated to its meaning. -/
theorem evaluateCondition_tokens {β : Type} (interpretation : Interpretation β) (context : β)
    (expression : Expr 1) :
    evaluateTokens interpretation context expression.tokens =
        .ok (expression.eval interpretation context) ∧
      ∀ text, tokenize text = .ok expression.tokens →
        evaluateCondition interpretation context text =
          .ok (expression.eval interpretation context) := by
  have means : evaluateTokens interpretation context expression.tokens =
      .ok (expression.eval interpretation context) :=
    (evaluateTokens_iff expression.tokens_ne_nil).mpr
      ⟨_, expression.reads_alone, expression.run interpretation context []⟩
  refine ⟨means, fun text written => ?_⟩
  rw [evaluateCondition, written]
  exact means

/-- Values that are true or false, on which `!` and the equalities do what they say. -/
def truthValues : Interpretation Bool where
  number := fun _ => true
  text := fun value => value != ""
  literal := fun value => value.getD false
  undefined := false
  ownProperty := fun _ _ => none
  negate := Bool.not
  combine
    | .equal, left, right => left == right
    | .notEqual, left, right => left != right
    | .and, left, right => left && right
    | .or, left, right => left || right
    | _, _, _ => false

/-- The condition `!(true == false) && !!true`. -/
def nestedNots : Expr 1 :=
  .combine .and (by decide) (by decide)
    (.not (by decide) (.group
      (.combine .equal (by decide) (by decide) (.operand (.literal (some true)))
        (.operand (.literal (some false))))))
    (.not (by decide) (.not (by decide) (.operand (.literal (some true)))))

theorem evaluateCondition_nestedNots :
    evaluateTokens truthValues false nestedNots.tokens = .ok true ∧
      evaluateCondition truthValues false "!(true == false) && !!true" = .ok true := by
  obtain ⟨tokens, texts⟩ := evaluateCondition_tokens truthValues false nestedNots
  exact ⟨tokens, texts "!(true == false) && !!true" rfl⟩

/-! ## Other tokens -/

/-- Tokens are evaluated to some value where their postfix order is the form of an expression. -/
theorem exists_evaluateTokens_iff {β : Type} (interpretation : Interpretation β) (context : β)
    {tokens : List Token} (nonempty : tokens ≠ []) :
    (∃ value, evaluateTokens interpretation context tokens = .ok value) ↔
      ∃ order, Reads operators none tokens order ∧ Formed operators order := by
  simp only [evaluateTokens_iff nonempty]
  rw [exists_comm]
  apply exists_congr
  intro order
  rw [exists_and_left]
  exact and_congr_right fun _ => run_iff_formed applies_applyOp

/-- Tokens that are no sentence are rejected, unless moving each operator behind what binds tighter
after it makes them the postfix form of an expression. -/
theorem evaluateTokens_rejects_iff {β : Type} (interpretation : Interpretation β) (context : β)
    (tokens : List Token) (nonempty : tokens ≠ []) :
    (¬ Sentence tokens → ∃ error, evaluateTokens interpretation context tokens = .error error) ↔
      Sentence tokens ∨ ¬ ∃ order, Reads operators none tokens order ∧ Formed operators order := by
  rw [← exists_evaluateTokens_iff interpretation context nonempty, ← or_iff_not_imp_left]
  apply or_congr_right
  cases evaluateTokens interpretation context tokens with
  | error error => exact iff_of_true ⟨error, rfl⟩ fun found => nomatch found.choose_spec
  | ok value => exact iff_of_false (fun found => nomatch found.choose_spec) fun none => none ⟨value, rfl⟩

/-- The condition `true !`. -/
def trailingNot : List Token := [.operand (.literal (some true)), .operator .not]

/-- No sentence ends with an operator. -/
theorem Expr.getLast?_tokens {level : Nat} (expression : Expr level) (operator : Operator) :
    expression.tokens.getLast? ≠ some (.operator operator) := by
  induction expression with
  | operand value => exact fun same => nomatch same
  | group inner =>
      rw [tokens, List.getLast?_append]
      exact fun same => nomatch same
  | not fits argument ih =>
      rw [tokens, ← List.singleton_append, List.getLast?_append_of_ne_nil _ argument.tokens_ne_nil]
      exact ih
  | combine _ _ _ left right _ ofRight =>
      rw [tokens, List.append_cons, List.getLast?_append_of_ne_nil _ right.tokens_ne_nil]
      exact ofRight

theorem evaluateTokens_rejects_iff_trailingNot :
    (¬ Sentence trailingNot → ∃ error, evaluateTokens truthValues false trailingNot = .error error) ↔
      Sentence trailingNot ∨
        ¬ ∃ order, Reads operators none trailingNot order ∧ Formed operators order :=
  evaluateTokens_rejects_iff truthValues false trailingNot (List.cons_ne_nil _ _)

/-- An operator behind its operand is applied to it all the same. -/
theorem evaluateCondition_trailingNot : ¬ ∀ text tokens, tokenize text = .ok tokens → tokens ≠ [] →
    ¬ Sentence tokens → ∃ error, evaluateCondition truthValues false text = .error error := by
  intro rejects
  have noSentence : ¬ Sentence trailingNot := by
    intro sentence
    obtain ⟨expression, same⟩ := sentence
    exact expression.getLast?_tokens .not (same ▸ rfl)
  obtain ⟨error, rejected⟩ := rejects "true !" trailingNot rfl (List.cons_ne_nil _ _) noSentence
  have accepted : evaluateCondition truthValues false "true !" = .ok false := rfl
  cases accepted.symm.trans rejected

end ThetaDirectory.StatusRules
