import Mathlib.Data.List.Basic

/-!
# Operator precedence

The conversion of operands, operators and parentheses to postfix order with a stack of pending
operators, and what it gives for any sequence: operands keep their order, and an operator is put
behind everything after it that does not release it.  Which sequences are well formed plays no part.
-/

namespace ThetaDirectory.Library

namespace Precedence

/-- A token of an expression. -/
inductive Symbol (α ω : Type*) where
  | operand (value : α)
  | operator (operator : ω)
  | left
  | right

/-- An entry in postfix order. -/
inductive Item (α ω : Type*) where
  | operand (value : α)
  | operator (operator : ω)

/-- How strongly operators bind, and which ones stand before their only operand. -/
structure Table (ω : Type*) where
  precedence : ω → Nat
  isPrefix : ω → Bool

variable {α ω : Type*}

/-- The pending operator is applied when the other one comes. -/
def Table.releases (table : Table ω) (top incoming : ω) : Bool :=
  if table.isPrefix incoming then decide (table.precedence incoming < table.precedence top)
  else decide (table.precedence incoming ≤ table.precedence top)

/-- What releases an operator releases those that wait on it. -/
theorem Table.releases_of_held {table : Table ω} {below top incoming : ω}
    (held : table.releases below top = false) (released : table.releases below incoming = true) :
    table.releases top incoming = true := by
  unfold releases at *
  split at held <;> split at released <;> simp_all <;> omega

variable (table : Table ω)

/-! ## Conversion -/

/-- Take pending operators, the last one first, down to a parenthesis. -/
def popWhile (holds : ω → Bool) : List (Option ω) → List ω × List (Option ω)
  | some top :: pending =>
      if holds top then (top :: (popWhile holds pending).1, (popWhile holds pending).2)
      else ([], some top :: pending)
  | pending => ([], pending)

/-- The pending operators at the end; an open parenthesis is an error. -/
def flush : List (Option ω) → Option (List (Item α ω))
  | [] => some []
  | some top :: pending => (flush pending).map (Item.operator top :: ·)
  | none :: _ => none

/-- The rest of the tokens in postfix order.  A pending parenthesis is `none`. -/
def convert : List (Symbol α ω) → List (Option ω) → Option (List (Item α ω))
  | [], pending => flush pending
  | .operand value :: tokens, pending => (convert tokens pending).map (Item.operand value :: ·)
  | .operator operator :: tokens, pending =>
      let popped := popWhile (fun top => table.releases top operator) pending
      (convert tokens (some operator :: popped.2)).map (popped.1.map Item.operator ++ ·)
  | .left :: tokens, pending => convert tokens (none :: pending)
  | .right :: tokens, pending =>
      let popped := popWhile (fun _ => true) pending
      match popped.2 with
      | [] => none
      | _ :: pending => (convert tokens pending).map (popped.1.map Item.operator ++ ·)

/-! ## Postfix order -/

/-- The operator is applied before the rest. -/
def Ends (operator : ω) (rest : List (Symbol α ω)) : Prop :=
  ∀ symbol ∈ rest.head?,
    symbol = .right ∨ ∃ incoming, symbol = .operator incoming ∧ table.releases operator incoming = true

/-- The tokens in postfix order, where none of their operators outside parentheses releases the
bound. -/
inductive Reads : Option ω → List (Symbol α ω) → List (Item α ω) → Prop where
  | nil {bound : Option ω} : Reads bound [] []
  | operand {bound : Option ω} {tokens : List (Symbol α ω)} {order : List (Item α ω)} (value : α)
      (later : Reads bound tokens order) :
      Reads bound (.operand value :: tokens) (.operand value :: order)
  | group {bound : Option ω} {inner tokens : List (Symbol α ω)} {first order : List (Item α ω)}
      (inside : Reads none inner first) (later : Reads bound tokens order) :
      Reads bound (.left :: inner ++ .right :: tokens) (first ++ order)
  | operator {bound : Option ω} {behind tokens : List (Symbol α ω)} {first order : List (Item α ω)}
      (operator : ω) (held : ∀ outer ∈ bound, table.releases outer operator = false)
      (argument : Reads (some operator) behind first) (ends : Ends table operator tokens)
      (later : Reads bound tokens order) :
      Reads bound (.operator operator :: behind ++ tokens) (first ++ .operator operator :: order)

/-- Tokens up to where the pending operators go on. -/
def Then (bound : Option ω) (closes : List (Symbol α ω) → List (Item α ω) → Prop)
    (tokens : List (Symbol α ω)) (order : List (Item α ω)) : Prop :=
  ∃ inner rest first later, tokens = inner ++ rest ∧ order = first ++ later ∧
    Reads table bound inner first ∧ closes rest later

/-- The operator on which new ones wait. -/
def boundOf (pending : List (Option ω)) : Option ω := pending.head?.join

/-- What follows the tokens that wait on the first pending operator. -/
def Closes : List (Option ω) → List (Symbol α ω) → List (Item α ω) → Prop
  | [], rest, later => rest = [] ∧ later = []
  | some operator :: pending, rest, later => Ends table operator rest ∧
      ∃ more, later = .operator operator :: more ∧ Then table (boundOf pending) (Closes pending) rest more
  | none :: pending, rest, later =>
      ∃ tokens, rest = .right :: tokens ∧ Then table (boundOf pending) (Closes pending) tokens later

/-- The rest of the tokens and the pending operators in postfix order. -/
def Completes (pending : List (Option ω)) : List (Symbol α ω) → List (Item α ω) → Prop :=
  Then table (boundOf pending) (Closes table pending)

variable {table} {pending : List (Option ω)} {tokens : List (Symbol α ω)} {order : List (Item α ω)}

/-- What waits on a pending operator ends before a parenthesis, or an operator that releases it. -/
theorem Closes.head {symbol : Symbol α ω} (closes : Closes table pending (symbol :: tokens) order) :
    symbol = .right ∨ ∃ incoming, symbol = .operator incoming ∧
      ∃ outer ∈ boundOf pending, table.releases outer incoming = true := by
  cases pending with
  | nil => exact absurd closes.1 (List.cons_ne_nil _ _)
  | cons top pending =>
      cases top with
      | some top =>
          rcases closes.1 symbol rfl with isRight | ⟨incoming, isOperator, released⟩
          · exact Or.inl isRight
          · exact Or.inr ⟨incoming, isOperator, top, rfl, released⟩
      | none =>
          obtain ⟨tokens, same, -⟩ := closes
          exact Or.inl (List.cons.inj same).1

theorem completes_operand {value : α} : Completes table pending (.operand value :: tokens) order ↔
    ∃ later, order = .operand value :: later ∧ Completes table pending tokens later := by
  constructor
  · intro completes
    obtain ⟨inner, rest, first, later, split, rfl, reads, closes⟩ := completes
    cases inner with
    | nil =>
        subst split
        rcases closes.head with isRight | ⟨_, isOperator, _⟩
        · cases isRight
        · cases isOperator
    | cons symbol inner =>
        obtain ⟨rfl, rfl⟩ := List.cons.inj split
        cases reads with
        | operand _ reads => exact ⟨_, rfl, inner, rest, _, later, rfl, rfl, reads, closes⟩
  · intro completes
    obtain ⟨_, rfl, inner, rest, first, later, rfl, rfl, reads, closes⟩ := completes
    exact ⟨_, rest, _, later, rfl, rfl, .operand value reads, closes⟩

theorem completes_left : Completes table pending (.left :: tokens) order ↔
    Completes table (none :: pending) tokens order := by
  constructor
  · intro completes
    obtain ⟨inner, rest, first, later, split, rfl, reads, closes⟩ := completes
    cases inner with
    | nil =>
        subst split
        rcases closes.head with isRight | ⟨_, isOperator, _⟩
        · cases isRight
        · cases isOperator
    | cons symbol inner =>
        obtain ⟨rfl, rfl⟩ := List.cons.inj split
        cases reads with
        | group inside reads =>
            exact ⟨_, _, _, _, List.append_assoc _ _ _, List.append_assoc _ _ _, inside, _, rfl,
              _, rest, _, later, rfl, rfl, reads, closes⟩
  · intro completes
    obtain ⟨inner, _, first, _, rfl, rfl, inside, _, rfl, more, rest, order, later, rfl, rfl, reads,
      closes⟩ := completes
    refine ⟨.left :: inner ++ .right :: more, rest, first ++ order, later, ?_, ?_,
      .group inside reads, closes⟩
    · rw [List.cons_append, List.cons_append, List.append_assoc]
      rfl
    · exact (List.append_assoc _ _ _).symm

/-- An operator that releases nothing waits itself. -/
theorem completes_hold {operator : ω}
    (held : ∀ outer ∈ boundOf pending, table.releases outer operator = false) :
    Completes table pending (.operator operator :: tokens) order ↔
      Completes table (some operator :: pending) tokens order := by
  constructor
  · intro completes
    obtain ⟨inner, rest, first, later, split, rfl, reads, closes⟩ := completes
    cases inner with
    | nil =>
        subst split
        rcases closes.head with isRight | ⟨incoming, isOperator, outer, isBound, released⟩
        · cases isRight
        · cases isOperator
          cases (held outer isBound).symm.trans released
    | cons symbol inner =>
        obtain ⟨rfl, rfl⟩ := List.cons.inj split
        cases reads with
        | @operator _ behind more argumentOrder moreOrder _ _ argument ends reads =>
            have split : behind ++ more ++ rest = behind ++ (more ++ rest) := List.append_assoc _ _ _
            have isEnd : Ends table operator (more ++ rest) := by
              intro symbol isHead
              cases more with
              | cons head more => exact ends symbol isHead
              | nil =>
                  cases rest with
                  | nil => cases isHead
                  | cons head rest =>
                      cases isHead
                      rcases closes.head with isRight | ⟨incoming, isOperator, outer, isBound, released⟩
                      · exact Or.inl isRight
                      · exact Or.inr ⟨incoming, isOperator,
                          Table.releases_of_held (held outer isBound) released⟩
            exact ⟨behind, more ++ rest, argumentOrder, .operator operator :: (moreOrder ++ later), split,
              List.append_assoc _ _ _, argument, isEnd, _, rfl, more, rest, moreOrder, later, rfl, rfl,
              reads, closes⟩
  · intro completes
    obtain ⟨behind, _, argumentOrder, _, rfl, rfl, argument, ends, _, rfl, more, rest, moreOrder, later,
      rfl, rfl, reads, closes⟩ := completes
    have isEnd : Ends table operator more := by
      intro symbol isHead
      cases more with
      | nil => cases isHead
      | cons head more => exact ends symbol isHead
    refine ⟨.operator operator :: behind ++ more, rest, argumentOrder ++ .operator operator :: moreOrder,
      later, ?_, ?_, .operator operator held argument isEnd reads, closes⟩
    · rw [List.cons_append, List.cons_append, List.append_assoc]
    · rw [List.append_assoc]
      rfl

/-- Where nothing can wait on the last pending operator, what follows it comes next. -/
theorem completes_iff_closes (none : ∀ symbol ∈ tokens.head?, ∀ inner first,
      ¬ Reads table (boundOf pending) (symbol :: inner) first) :
    Completes table pending tokens order ↔ Closes table pending tokens order := by
  constructor
  · intro completes
    obtain ⟨inner, rest, first, later, rfl, rfl, reads, closes⟩ := completes
    cases inner with
    | nil =>
        cases reads
        exact closes
    | cons symbol inner => exact absurd reads (none symbol rfl inner first)
  · intro closes
    exact ⟨[], tokens, [], order, rfl, rfl, .nil, closes⟩

/-- An operator that releases the last pending one comes behind it. -/
theorem completes_release {top operator : ω} (released : table.releases top operator = true) :
    Completes table (some top :: pending) (.operator operator :: tokens) order ↔
      ∃ later, order = .operator top :: later ∧
        Completes table pending (.operator operator :: tokens) later := by
  rw [completes_iff_closes]
  · apply and_iff_right
    intro symbol isHead
    cases isHead
    exact Or.inr ⟨operator, rfl, released⟩
  · intro symbol isHead inner first reads
    cases isHead
    cases reads with
    | operator _ held _ _ _ => cases (held top rfl).symm.trans released

theorem not_reads_right {bound : Option ω} : ¬ Reads table bound (.right :: tokens) order :=
  fun reads => nomatch reads

theorem completes_right_operator {top : ω} :
    Completes table (some top :: pending) (.right :: tokens) order ↔
      ∃ later, order = .operator top :: later ∧ Completes table pending (.right :: tokens) later := by
  rw [completes_iff_closes]
  · apply and_iff_right
    intro symbol isHead
    cases isHead
    exact Or.inl rfl
  · intro symbol isHead inner first
    cases isHead
    exact not_reads_right

theorem completes_right_left : Completes table (none :: pending) (.right :: tokens) order ↔
    Completes table pending tokens order := by
  rw [completes_iff_closes]
  · constructor
    · intro closes
      obtain ⟨_, same, completes⟩ := closes
      cases same
      exact completes
    · exact fun completes => ⟨tokens, rfl, completes⟩
  · intro symbol isHead inner first
    cases isHead
    exact not_reads_right

theorem not_completes_right : ¬ Completes table [] (.right :: tokens) order := by
  rw [completes_iff_closes]
  · exact fun closes => absurd closes.1 (List.cons_ne_nil _ _)
  · intro symbol isHead inner first
    cases isHead
    exact not_reads_right

theorem completes_nil : Completes table pending [] order ↔ flush pending = some order := by
  have closes (pending : List (Option ω)) (order : List (Item α ω)) :
      Completes table pending [] order ↔ Closes table pending [] order :=
    completes_iff_closes fun symbol isHead => nomatch isHead
  induction pending generalizing order with
  | nil =>
      rw [closes]
      exact (and_iff_right rfl).trans (eq_comm.trans (Option.some_inj (a := [])).symm)
  | cons top pending ih =>
      rw [closes]
      cases top with
      | none => exact iff_of_false (fun closes => nomatch closes) (fun flushed => nomatch flushed)
      | some top =>
          rw [flush, Option.map_eq_some_iff]
          constructor
          · intro closes
            obtain ⟨-, later, rfl, completes⟩ := closes
            exact ⟨later, ih.mp completes, rfl⟩
          · intro flushed
            obtain ⟨later, flushed, rfl⟩ := flushed
            exact ⟨(fun symbol isHead => nomatch isHead), later, rfl, ih.mpr flushed⟩

/-! ## What the conversion gives -/

theorem popWhile_take {holds : ω → Bool} {top : ω} (taken : holds top = true) :
    popWhile holds (some top :: pending) =
      (top :: (popWhile holds pending).1, (popWhile holds pending).2) := by
  rw [popWhile, if_pos taken]

theorem popWhile_stop {holds : ω → Bool} (stops : ∀ outer ∈ boundOf pending, holds outer = false) :
    popWhile holds pending = ([], pending) := by
  cases pending with
  | nil => rfl
  | cons top pending =>
      cases top with
      | none => rfl
      | some top => rw [popWhile, if_neg (Bool.eq_false_iff.mp (stops top rfl))]

/-- Operators that are released come first, in their order. -/
theorem completes_operator {operator : ω} :
    Completes table pending (.operator operator :: tokens) order ↔
      ∃ later, (popWhile (fun top => table.releases top operator) pending).1.map Item.operator ++
          later = order ∧
        Completes table
          (some operator :: (popWhile (fun top => table.releases top operator) pending).2) tokens later := by
  have waits (pending : List (Option ω))
      (held : ∀ outer ∈ boundOf pending, table.releases outer operator = false) (order : List (Item α ω)) :
      Completes table pending (.operator operator :: tokens) order ↔
        ∃ later, (popWhile (fun top => table.releases top operator) pending).1.map Item.operator ++
            later = order ∧
          Completes table
            (some operator :: (popWhile (fun top => table.releases top operator) pending).2) tokens later := by
    rw [popWhile_stop held, completes_hold held]
    exact exists_eq_left.symm
  induction pending generalizing order with
  | nil => exact waits [] (fun _ isBound => nomatch isBound) order
  | cons top pending ih =>
      cases top with
      | none => exact waits (none :: pending) (fun _ isBound => nomatch isBound) order
      | some top =>
          cases released : table.releases top operator with
          | false =>
              apply waits
              intro outer isBound
              cases isBound
              exact released
          | true =>
              have taken := @popWhile_take ω pending (fun top => table.releases top operator) top released
              rw [completes_release released, taken]
              constructor
              · intro found
                obtain ⟨later, rfl, completes⟩ := found
                obtain ⟨more, rfl, further⟩ := ih.mp completes
                exact ⟨more, rfl, further⟩
              · intro found
                obtain ⟨more, rfl, completes⟩ := found
                exact ⟨_, rfl, ih.mpr ⟨more, rfl, completes⟩⟩

/-- A closing parenthesis needs an open one. -/
theorem completes_right : Completes table pending (.right :: tokens) order ↔
    ∃ top rest later, (popWhile (fun _ => true) pending).2 = top :: rest ∧
      (popWhile (fun _ => true) pending).1.map Item.operator ++ later = order ∧
        Completes table rest tokens later := by
  induction pending generalizing order with
  | nil =>
      refine iff_of_false not_completes_right fun found => ?_
      obtain ⟨top, rest, later, same, -⟩ := found
      cases same
  | cons top pending ih =>
      cases top with
      | none =>
          rw [completes_right_left]
          constructor
          · exact fun completes => ⟨none, pending, order, rfl, rfl, completes⟩
          · intro found
            obtain ⟨_, _, later, same, rfl, completes⟩ := found
            cases same
            exact completes
      | some top =>
          rw [completes_right_operator, popWhile_take rfl]
          constructor
          · intro found
            obtain ⟨later, rfl, completes⟩ := found
            obtain ⟨below, rest, more, same, rfl, further⟩ := ih.mp completes
            exact ⟨below, rest, more, same, rfl, further⟩
          · intro found
            obtain ⟨below, rest, more, same, rfl, completes⟩ := found
            exact ⟨_, rfl, ih.mpr ⟨below, rest, more, same, rfl, completes⟩⟩

theorem convert_iff_completes :
    convert table tokens pending = some order ↔ Completes table pending tokens order := by
  induction tokens generalizing pending order with
  | nil => exact completes_nil.symm
  | cons symbol tokens ih =>
      cases symbol with
      | operand value =>
          rw [convert, completes_operand, Option.map_eq_some_iff]
          apply exists_congr
          intro later
          rw [ih, and_comm, eq_comm]
      | operator operator =>
          rw [convert, completes_operator, Option.map_eq_some_iff]
          apply exists_congr
          intro later
          rw [ih, and_comm]
      | left => rw [convert, completes_left, ih]
      | right =>
          rw [convert, completes_right]
          cases same : (popWhile (fun _ => true) pending).2 with
          | nil =>
              refine iff_of_false (fun none => nomatch none) fun found => ?_
              obtain ⟨_, _, _, none, -⟩ := found
              cases none
          | cons top rest =>
              dsimp only
              rw [Option.map_eq_some_iff]
              constructor
              · intro found
                obtain ⟨later, converted, isOrder⟩ := found
                exact ⟨top, rest, later, rfl, isOrder, ih.mp converted⟩
              · intro found
                obtain ⟨_, _, later, isRest, isOrder, completes⟩ := found
                cases isRest
                exact ⟨later, ih.mpr completes, isOrder⟩

/-- The conversion gives the tokens in postfix order. -/
theorem convert_iff_reads :
    convert table tokens [] = some order ↔ Reads table none tokens order := by
  rw [convert_iff_completes]
  constructor
  · intro completes
    obtain ⟨inner, _, first, _, rfl, rfl, reads, rfl, rfl⟩ := completes
    rwa [List.append_nil, List.append_nil]
  · exact fun reads => ⟨tokens, [], order, [], (List.append_nil _).symm, (List.append_nil _).symm, reads,
      rfl, rfl⟩

end Precedence

end ThetaDirectory.Library
